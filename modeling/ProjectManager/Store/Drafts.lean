import Mathlib.Logic.Relation
import ProjectManager.Store.Agreement

/-!
# Amendment drafts under any interleaving

The life of an amendment draft, over runs in which any connection issues any operation with any
arguments, and in which the updates of `cleanup_stale_drafts` fall apart from the `SELECT` that chose
their drafts.  `DraftsFollow` says what one step does to the drafts; `draft_lifecycle` is what follows
for whole runs: one live draft for each task, final statuses, and one confirmation at most.
-/

namespace ProjectManager

open Table

/-! ### Steps -/

/-- One update of `cleanup_stale_drafts`, for a draft that an earlier `SELECT` has found old. -/
def Db.expireDraft (db : Db) (amendmentId : ℕ) : Db :=
  db.setDraftStatus (fun d => decide (d.amendmentId = amendmentId) && decide (d.status = .draft)) .expired

/-- A step of any connection, and time passing.  Nothing is asked of the arguments. -/
inductive Ledger.AnyStep (rt : Runtime) : Ledger → Ledger → Prop where
  | op (l : Ledger) (o : StoreOp) : AnyStep rt l (o.run rt l).2
  | expire (l : Ledger) (amendmentId : ℕ) : AnyStep rt l (l.commit (l.db.expireDraft amendmentId))
  | time (l : Ledger) (now : Time) : AnyStep rt l { l with clock := now }

/-- Any number of such steps. -/
abbrev Ledger.AnyRun (rt : Runtime) : Ledger → Ledger → Prop :=
  Relation.ReflTransGen (Ledger.AnyStep rt)

/-- `confirm_amendment` reports success. -/
def Ledger.Confirms (rt : Runtime) (l : Ledger) (taskId : String) (amendmentId : ℕ) : Prop :=
  ∃ r, ((StoreOp.confirmAmendment taskId amendmentId).run rt l).1 = .ok r ∧ r.ok = true

/-- The amendment exists and its status is this one. -/
def Ledger.DraftIs (l : Ledger) (amendmentId : ℕ) (status : AmendmentStatus) : Prop :=
  ∃ d ∈ l.db.amendments.rows, d.amendmentId = amendmentId ∧ d.status = status

/-- No task has two live drafts. -/
def Ledger.OneLive (l : Ledger) : Prop :=
  ∀ d ∈ l.db.amendments.rows, ∀ e ∈ l.db.amendments.rows, d.taskId = e.taskId → d.status = .draft →
    e.status = .draft → d = e

/-! ### What one step does -/

/-- The draft after a step: only a live one changes its status. -/
structure AmendmentDraft.Follows (d' d : AmendmentDraft) : Prop where
  amendmentId : d'.amendmentId = d.amendmentId
  taskId : d'.taskId = d.taskId
  status : d'.status = d.status ∨ d.status = .draft

/-- What a step does to the drafts: every old one stays, and a new one is the only live one of its task. -/
structure DraftsFollow (db db' : Db) : Prop where
  kept : ∀ d ∈ db.amendments.rows, ∃ d' ∈ db'.amendments.rows, d'.Follows d
  origin : ∀ d' ∈ db'.amendments.rows, (∃ d ∈ db.amendments.rows, d'.Follows d) ∨
    ∀ e ∈ db'.amendments.rows, e.taskId = d'.taskId → e.status = .draft → e = d'

section Steps

variable {rt : Runtime} {l l' : Ledger} {db db' : Db} {taskId : String} {amendmentId : ℕ}

theorem AmendmentDraft.Follows.refl (d : AmendmentDraft) : d.Follows d :=
  ⟨rfl, rfl, .inl rfl⟩

theorem DraftsFollow.of_same (h : db'.amendments = db.amendments) : DraftsFollow db db' := by
  have hrows : db'.amendments.rows = db.amendments.rows := congrArg Keyed.rows h
  constructor
  · intro d hd
    rw [hrows]
    exact ⟨d, hd, .refl d⟩
  · intro d' hd'
    rw [hrows] at hd'
    exact .inl ⟨d', hd', .refl d'⟩

/-- Live drafts that get a status. -/
theorem DraftsFollow.of_status {p : AmendmentDraft → Bool} {status : AmendmentStatus}
    (hlive : ∀ d ∈ db.amendments.rows, p d = true → d.status = .draft)
    (h : db'.amendments = (db.setDraftStatus p status).amendments) : DraftsFollow db db' := by
  have hrows : db'.amendments.rows =
      db.amendments.rows.map fun d => if p d then { d with status := status } else d := congrArg Keyed.rows h
  have hfollows : ∀ d ∈ db.amendments.rows,
      (if p d then { d with status := status } else d : AmendmentDraft).Follows d := by
    intro d hd
    by_cases hp : p d = true
    · rw [if_pos hp]
      exact ⟨rfl, rfl, .inr (hlive d hd hp)⟩
    · rw [if_neg hp]
      exact .refl d
  constructor
  · intro d hd
    refine ⟨_, ?_, hfollows d hd⟩
    rw [hrows]
    exact List.mem_map_of_mem hd
  · intro d' hd'
    rw [hrows] at hd'
    obtain ⟨d, hd, rfl⟩ := List.mem_map.1 hd'
    exact .inl ⟨d, hd, hfollows d hd⟩

/-- An earlier draft when a new one of the task comes. -/
def AmendmentDraft.superseded (taskId : String) (d : AmendmentDraft) : AmendmentDraft :=
  if decide (d.taskId = taskId) && decide (d.status = .draft) then { d with status := .stale } else d

theorem AmendmentDraft.superseded_follows (taskId : String) (d : AmendmentDraft) : (d.superseded taskId).Follows d := by
  unfold AmendmentDraft.superseded
  split
  · rename_i hlive
    simp only [Bool.and_eq_true, decide_eq_true_eq] at hlive
    exact ⟨rfl, rfl, .inr hlive.2⟩
  · exact .refl d

/-- No earlier draft of the task stays live. -/
theorem AmendmentDraft.superseded_status {d : AmendmentDraft} (htask : d.taskId = taskId) :
    (d.superseded taskId).status ≠ .draft := by
  by_cases hlive : d.status = .draft <;> simp [AmendmentDraft.superseded, htask, hlive]

/-- What `set_amendment_draft` has done when it has not raised. -/
theorem setAmendmentDraft_rows {n : ℕ} {base new : String} {newPending : List StepDict} {oldPending : List String}
    {now : Time} (h : db.setAmendmentDraft n taskId base new newPending oldPending now = .ok db') :
    ∃ d : AmendmentDraft, d.taskId = taskId ∧
      db'.amendments.rows = db.amendments.rows.map (AmendmentDraft.superseded taskId) ++ [d] := by
  unfold Db.setAmendmentDraft at h
  dsimp only at h
  split at h
  · rename_i amendments hinsert
    obtain rfl := Except.ok.inj h
    have hrows := (Keyed.insert?_eq_some hinsert).2
    exact ⟨_, rfl, hrows⟩
  · cases h

theorem DraftsFollow.of_draft {d : AmendmentDraft} (htask : d.taskId = taskId)
    (h : db'.amendments.rows = db.amendments.rows.map (AmendmentDraft.superseded taskId) ++ [d]) :
    DraftsFollow db db' := by
  constructor
  · intro e he
    refine ⟨e.superseded taskId, ?_, e.superseded_follows taskId⟩
    rw [h]
    exact List.mem_append_left _ (List.mem_map_of_mem he)
  · intro d' hd'
    rw [h, List.mem_append, List.mem_singleton] at hd'
    rcases hd' with hd' | rfl
    · obtain ⟨e, he, rfl⟩ := List.mem_map.1 hd'
      exact .inl ⟨e, he, e.superseded_follows taskId⟩
    · -- the earlier drafts of the task are stale now
      right
      intro e he hsame hlive
      rw [h, List.mem_append, List.mem_singleton] at he
      rcases he with he | rfl
      · obtain ⟨e₀, -, rfl⟩ := List.mem_map.1 he
        have hsame₀ : e₀.taskId = taskId := by rw [← (e₀.superseded_follows taskId).taskId, hsame, htask]
        exact absurd hlive (AmendmentDraft.superseded_status hsame₀)
      · rfl

theorem checked_amendments {r : Except String Db} (h : ∀ db, r = .ok db → db.amendments = l.db.amendments) :
    (StoreOp.checked l r).2.db.amendments = l.db.amendments := by
  cases r with
  | error msg =>
      rfl
  | ok db =>
      exact h db rfl

/-- What one step does to the drafts. -/
theorem Ledger.AnyStep.drafts (h : Ledger.AnyStep rt l l') : DraftsFollow l.db l'.db := by
  cases h with
  | time now =>
      exact .of_same rfl
  | expire amendmentId =>
      refine .of_status (fun d _ hp => ?_) rfl
      simp only [Bool.and_eq_true, decide_eq_true_eq] at hp
      exact hp.2
  | op o =>
      cases o with
      | createTask taskId title request assignedBy picId roomId =>
          refine .of_same (checked_amendments fun db hok => ?_)
          unfold Db.createTask at hok
          split at hok
          · cases hok
          split at hok
          · obtain rfl := Except.ok.inj hok
            rfl
          · cases hok
      | setDraftPlan taskId steps planHash =>
          exact .of_same (checked_amendments fun db hok => (Db.setDraftPlan_ok hok).2.2.2)
      | insertStep taskId d =>
          refine .of_same (checked_amendments fun db hok => ?_)
          unfold Db.insertStep at hok
          split at hok
          · obtain rfl := Except.ok.inj hok
            rfl
          · cases hok
      | confirmPlan taskId expectedHash =>
          refine .of_same ?_
          show (l.db.confirmPlan taskId expectedHash).2.amendments = l.db.amendments
          unfold Db.confirmPlan
          split <;> rfl
      | reserveStep taskId stepId =>
          refine .of_same ?_
          simp only [StoreOp.run]
          split <;> rfl
      | setAmendmentDraft taskId base new newPending oldPending =>
          simp only [StoreOp.run]
          split
          · rename_i db hok
            obtain ⟨d, htask, hrows⟩ := setAmendmentDraft_rows hok
            exact .of_draft htask hrows
          · exact .of_same rfl
      | cancelAmendmentDraft amendmentId =>
          refine .of_status (fun d _ hp => ?_) rfl
          simp only [Bool.and_eq_true, decide_eq_true_eq] at hp
          exact hp.2
      | cleanupStaleDrafts =>
          refine .of_status (fun d _ hp => ?_) rfl
          simp only [Bool.and_eq_true, decide_eq_true_eq] at hp
          exact hp.1
      | confirmAmendment taskId amendmentId =>
          by_cases hall : ∀ r, (l.db.confirmAmendment rt taskId amendmentId).1 = .ok r → r.ok = false
          · exact .of_same (congrArg Db.amendments (Db.confirmAmendment_kept hall))
          · push Not at hall
            obtain ⟨r, hr, hok⟩ := hall
            obtain ⟨draft, -, -, hamended⟩ := Db.confirmAmendment_ok hr (by simpa using hok)
            refine .of_status (fun d hd hp => ?_) hamended.amendments
            have hsame : d = draft := eq_of_key l.db.amendments.nodup hd hamended.mem (by simpa using hp)
            rw [hsame]
            exact hamended.live
      | _ =>
          exact .of_same rfl

end Steps

/-! ### Runs -/

section Runs

variable {rt : Runtime} {l l' : Ledger} {taskId : String} {amendmentId : ℕ} {status : AmendmentStatus}

theorem Ledger.OneLive.step (h : l.OneLive) (hstep : Ledger.AnyStep rt l l') : l'.OneLive := by
  have hdrafts := hstep.drafts
  intro d hd e he htask hd_live he_live
  rcases hdrafts.origin d hd with ⟨d₀, hd₀, hd_from⟩ | hnew
  · rcases hdrafts.origin e he with ⟨e₀, he₀, he_from⟩ | hnew
    · have hlive : ∀ {x x₀ : AmendmentDraft}, x.Follows x₀ → x.status = .draft → x₀.status = .draft := by
        intro x x₀ hfrom hx
        rcases hfrom.status with hsame | hlive
        · rw [← hsame]
          exact hx
        · exact hlive
      have hsame : d₀ = e₀ := h d₀ hd₀ e₀ he₀ (by rw [← hd_from.taskId, htask, he_from.taskId])
        (hlive hd_from hd_live) (hlive he_from he_live)
      refine eq_of_key l'.db.amendments.nodup hd he ?_
      rw [hd_from.amendmentId, hsame, he_from.amendmentId]
    · exact hnew d hd htask hd_live
  · exact (hnew e he htask.symm he_live).symm

/-- At every moment of a run, every task has at most one live draft. -/
theorem Ledger.OneLive.run (h : l.OneLive) (hrun : Ledger.AnyRun rt l l') : l'.OneLive := by
  induction hrun with
  | refl =>
      exact h
  | tail _ hstep ih =>
      exact ih.step hstep

/-- A status other than `draft` is final. -/
theorem Ledger.DraftIs.run (h : l.DraftIs amendmentId status) (hfinal : status ≠ .draft)
    (hrun : Ledger.AnyRun rt l l') : l'.DraftIs amendmentId status := by
  induction hrun with
  | refl =>
      exact h
  | tail _ hstep ih =>
      obtain ⟨d, hd, hid, hstatus⟩ := ih
      obtain ⟨d', hd', hfrom⟩ := hstep.drafts.kept d hd
      refine ⟨d', hd', hfrom.amendmentId.trans hid, ?_⟩
      rcases hfrom.status with hsame | hlive
      · rw [hsame, hstatus]
      · exact absurd (hstatus.symm.trans hlive) hfinal

/-- A confirmation finds a live draft and leaves it confirmed. -/
theorem Ledger.Confirms.consumes (h : l.Confirms rt taskId amendmentId) : l.DraftIs amendmentId .draft ∧
    ((StoreOp.confirmAmendment taskId amendmentId).run rt l).2.DraftIs amendmentId .confirmed := by
  obtain ⟨r, hr, hok⟩ := h
  obtain ⟨draft, hid, -, hamended⟩ := Db.confirmAmendment_ok hr hok
  refine ⟨⟨draft, hamended.mem, hid, hamended.live⟩, ?_⟩
  have hrows : ((StoreOp.confirmAmendment taskId amendmentId).run rt l).2.db.amendments.rows =
      l.db.amendments.rows.map fun d => if decide (d.amendmentId = draft.amendmentId) then
        { d with status := .confirmed } else d := congrArg Keyed.rows hamended.amendments
  refine ⟨{ draft with status := .confirmed }, ?_, hid, rfl⟩
  rw [hrows]
  refine List.mem_map.2 ⟨draft, hamended.mem, ?_⟩
  simp

/-- Two statuses of one amendment are one. -/
theorem Ledger.DraftIs.unique {status' : AmendmentStatus} (h : l.DraftIs amendmentId status)
    (h' : l.DraftIs amendmentId status') : status = status' := by
  obtain ⟨d, hd, hid, rfl⟩ := h
  obtain ⟨d', hd', hid', rfl⟩ := h'
  rw [eq_of_key l.db.amendments.nodup hd hd' (hid.trans hid'.symm)]

/-- The confirmations that an amendment of a final status gets. -/
theorem Ledger.DraftIs.unconfirmable (h : l.DraftIs amendmentId status) (hfinal : status ≠ .draft)
    (hrun : Ledger.AnyRun rt l l') (taskId : String) : ¬ l'.Confirms rt taskId amendmentId :=
  fun hconfirms => hfinal ((h.run hfinal hrun).unique hconfirms.consumes.1)

end Runs

/-! ### The life of a draft -/

/-- What is promised about the drafts of a ledger and of every ledger after it. -/
structure Ledger.DraftLife (rt : Runtime) (l : Ledger) : Prop where
  /-- every task has at most one live draft -/
  oneLive : l.OneLive
  /-- confirmed, cancelled, expired and stale are never left -/
  final : ∀ amendmentId status, l.DraftIs amendmentId status → status ≠ .draft → ∀ l', Ledger.AnyRun rt l l' →
    l'.DraftIs amendmentId status
  /-- an amendment that has been cancelled, expired, superseded or confirmed is not confirmed -/
  spent : ∀ amendmentId status, l.DraftIs amendmentId status → status ≠ .draft → ∀ l', Ledger.AnyRun rt l l' →
    ∀ taskId, ¬ l'.Confirms rt taskId amendmentId
  /-- after one success no other confirmation of the amendment succeeds -/
  once : ∀ taskId amendmentId, l.Confirms rt taskId amendmentId →
    ∀ l', Ledger.AnyRun rt ((StoreOp.confirmAmendment taskId amendmentId).run rt l).2 l' →
      ∀ taskId', ¬ l'.Confirms rt taskId' amendmentId
  /-- a cancellation, an expiry or a newer draft of the task leaves no draft live -/
  cancels : ∀ amendmentId, ¬ ((StoreOp.cancelAmendmentDraft amendmentId).run rt l).2.DraftIs amendmentId .draft
  expires : ∀ amendmentId, ¬ (l.commit (l.db.expireDraft amendmentId)).DraftIs amendmentId .draft
  supersedes : ∀ taskId base new newPending oldPending n,
    ((StoreOp.setAmendmentDraft taskId base new newPending oldPending).run rt l).1 = .ok n →
      ∀ d ∈ l.db.amendments.rows, d.taskId = taskId →
        ¬ ((StoreOp.setAmendmentDraft taskId base new newPending oldPending).run rt l).2.DraftIs d.amendmentId .draft

/-- Live drafts that get a final status are not live any more. -/
theorem not_live_of_status {l : Ledger} {db : Db} {p : AmendmentDraft → Bool} {status : AmendmentStatus} {amendmentId : ℕ}
    (hall : ∀ d : AmendmentDraft, d.amendmentId = amendmentId → d.status = .draft → p d = true)
    (hfinal : status ≠ .draft) (h : l.db.amendments = (db.setDraftStatus p status).amendments) :
    ¬ l.DraftIs amendmentId .draft := by
  have hrows : l.db.amendments.rows =
      db.amendments.rows.map fun d => if p d then { d with status := status } else d := congrArg Keyed.rows h
  rintro ⟨d, hd, hid, hlive⟩
  rw [hrows] at hd
  obtain ⟨e, -, rfl⟩ := List.mem_map.1 hd
  by_cases hp : p e = true
  · rw [if_pos hp] at hlive
    exact hfinal hlive
  · rw [if_neg hp] at hid hlive
    exact hp (hall e hid hlive)

/-- A newer draft of the task supersedes the earlier ones. -/
theorem superseded {rt : Runtime} {l : Ledger} {taskId base new : String} {newPending : List StepDict}
    {oldPending : List String} {n : ℕ}
    (h : ((StoreOp.setAmendmentDraft taskId base new newPending oldPending).run rt l).1 = .ok n)
    {d : AmendmentDraft} (hd : d ∈ l.db.amendments.rows) (htask : d.taskId = taskId) :
    ¬ ((StoreOp.setAmendmentDraft taskId base new newPending oldPending).run rt l).2.DraftIs d.amendmentId .draft := by
  simp only [StoreOp.run] at h ⊢
  split at h
  case h_2 =>
    cases h
  rename_i db hok
  obtain ⟨e, hnew, hrows⟩ := setAmendmentDraft_rows hok
  rintro ⟨x, hx, hid, hlive⟩
  have hx : x ∈ db.amendments.rows := hx
  have hy : d.superseded taskId ∈ db.amendments.rows := by
    rw [hrows]
    exact List.mem_append_left _ (List.mem_map_of_mem hd)
  have hsame : x = d.superseded taskId :=
    eq_of_key db.amendments.nodup hx hy (hid.trans (d.superseded_follows taskId).amendmentId.symm)
  rw [hsame] at hlive
  exact AmendmentDraft.superseded_status htask hlive

/-- Drafts live and end as promised in every run of any operations from an empty store. -/
theorem draft_lifecycle {rt : Runtime} {now : Time} {l : Ledger} (hrun : Ledger.AnyRun rt (.empty now) l) :
    l.DraftLife rt where
  oneLive := by
    have hempty : (Ledger.empty now).OneLive := fun d hd => by cases hd
    exact hempty.run hrun
  final := fun _ _ h hfinal _ hrun => h.run hfinal hrun
  spent := fun _ _ h hfinal _ hrun => h.unconfirmable hfinal hrun
  once := fun _ _ h _ hrun => h.consumes.2.unconfirmable (by decide) hrun
  cancels := fun _ => not_live_of_status (fun _ hid hlive => by simp [hid, hlive]) (by decide) rfl
  expires := fun _ => not_live_of_status (fun _ hid hlive => by simp [hid, hlive]) (by decide) rfl
  supersedes := fun _ _ _ _ _ _ h _ hd htask => superseded h hd htask

/-- The runs of the store's users are among these. -/
theorem Ledger.Reach.anyRun {rt : Runtime} {l : Ledger} (h : Ledger.Reach rt l) :
    ∃ now, Ledger.AnyRun rt (.empty now) l := by
  induction h with
  | empty now =>
      exact ⟨now, .refl⟩
  | step _ hstep ih =>
      obtain ⟨now, hrun⟩ := ih
      refine ⟨now, hrun.tail ?_⟩
      cases hstep with
      | op o _ =>
          exact .op _ o
      | time now =>
          exact .time _ now

/-- The sample draft can be confirmed, and only once. -/
theorem draft_lifecycle_sample : Ledger.sampleDrafted.DraftIs 1 .draft ∧
    Ledger.sampleDrafted.Confirms Ledger.sampleRuntime "t" 1 ∧ Ledger.sampleDrafted.DraftLife Ledger.sampleRuntime := by
  obtain ⟨now, hrun⟩ := Ledger.sampleDrafted_reach.anyRun
  have hconfirms : Ledger.sampleDrafted.Confirms Ledger.sampleRuntime "t" 1 := ⟨_, Ledger.sampleDrafted_applied.1, rfl⟩
  exact ⟨hconfirms.consumes.1, hconfirms, draft_lifecycle hrun⟩

end ProjectManager
