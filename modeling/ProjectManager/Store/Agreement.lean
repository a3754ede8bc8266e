import ProjectManager.Store.Preservation

/-!
# Agreement of the stored plan with its hash

Two consequences of `Ledger.Inv`.  `plan_hash_agrees`: in every run the hash that the ticker recomputes
over the confirmed rows is the stored one, so no snapshot is ever stalled for a mismatch.
`confirmAmendment_exact`: a confirmed amendment replaces exactly the pending rows, and an amendment that
is not confirmed changes nothing.
-/

namespace ProjectManager

open Table

/-- The test of `_verify_plan_hash`: a snapshot without rows passes. -/
def TeamTask.planVerified (rt : Runtime) (task : TeamTask) : Bool :=
  task.steps.isEmpty ||
    decide (task.planHash = some (decompositionContentHash rt (confirmedFields task.steps)))

namespace Ledger

variable {rt : Runtime} {l : Ledger}

/-! ### Plan hashes -/

/-- A snapshot of an invariant store passes the test. -/
theorem Inv.planVerified (h : Inv rt l) {task : TeamTask} (hget : l.db.get task.id = some task) :
    task.planVerified rt = true := by
  obtain ⟨hrow, -, hsteps⟩ := Db.get_eq_some.1 hget
  unfold TeamTask.planVerified
  cases hcase : task.steps with
  | nil =>
      rfl
  | cons s rest =>
      have hmem : s ∈ l.db.stepsForTask task.id := by
        rw [← hsteps, hcase]
        exact List.mem_cons_self
      obtain ⟨hstored, htask⟩ := Db.mem_stepsForTask.1 hmem
      obtain ⟨row, hrow', hid, hplan⟩ := h.tables.owned s hstored
      have hsame : row = task.toTaskRow := eq_of_key l.db.tasks.nodup hrow' hrow (hid.trans htask)
      subst hsame
      obtain ⟨hash, hhash⟩ := Option.ne_none_iff_exists'.1 hplan
      have hagree := h.tables.plan _ hrow' hash hhash
      rw [← hsteps, hcase] at hagree
      simp [hhash, hagree]

/-- The snapshots in circulation after an operation: the old ones, and what a read returned. -/
theorem mem_seen_run {o : StoreOp} {task : TeamTask} (h : task ∈ (o.run rt l).2.seen) :
    task ∈ l.seen ∨ l.db.get task.id = some task := by
  have hchecked : ∀ r : Except String Db, (StoreOp.checked l r).2.seen = l.seen := by
    intro r
    cases r <;> rfl
  cases o with
  | get taskId =>
      rcases List.mem_append.1 h with h | h
      · exact .inl h
      · have hget := Option.mem_toList.1 h
        refine .inr ?_
        rw [(Db.get_eq_some.1 hget).2.1]
        exact hget
  | listDispatchable =>
      rcases List.mem_append.1 h with h | h
      · exact .inl h
      · exact .inr (Db.mem_listDispatchable.1 h).1
  | createTask =>
      exact .inl (hchecked _ ▸ h)
  | setDraftPlan =>
      exact .inl (hchecked _ ▸ h)
  | insertStep =>
      exact .inl (hchecked _ ▸ h)
  | reserveStep taskId stepId =>
      simp only [StoreOp.run] at h
      split at h <;> exact .inl h
  | setAmendmentDraft =>
      simp only [StoreOp.run] at h
      split at h <;> exact .inl h
  | _ =>
      exact .inl h

/-- Every snapshot that was ever handed out passes the test. -/
theorem Reach.seen_verified (hsha : Function.Injective rt.sha256) (h : Reach rt l) :
    ∀ task ∈ l.seen, task.planVerified rt = true := by
  induction h with
  | empty now =>
      simp [Ledger.empty]
  | step hreach hstep ih =>
      intro task htask
      cases hstep with
      | op o hpre =>
          rcases mem_seen_run htask with hold | hget
          · exact ih task hold
          · exact (hreach.inv hsha).planVerified hget
      | time now =>
          exact ih task htask

/-- In every run the stored hash is the one that the ticker recomputes over the confirmed rows, and no
snapshot that a read has handed out is stalled for a mismatch. -/
theorem plan_hash_agrees (hsha : Function.Injective rt.sha256) (h : Reach rt l) :
    (∀ row ∈ l.db.tasks.rows, ∀ hash, row.planHash = some hash →
      decompositionContentHash rt (confirmedFields (l.db.stepsForTask row.id)) = hash) ∧
    (∀ task ∈ l.seen, task.planVerified rt = true) ∧
    ∀ task ∈ l.db.listDispatchable, task.planVerified rt = true := by
  have hinv := h.inv hsha
  refine ⟨?_, h.seen_verified hsha, ?_⟩
  · intro row hrow hash hhash
    exact (hinv.tables.plan row hrow hash hhash).symm
  · intro task htask
    exact hinv.planVerified (Db.mem_listDispatchable.1 htask).1

/-! ### A sample run -/

theorem Reach.op (h : Reach rt l) (o : StoreOp) (hpre : o.Pre rt l) : Reach rt (o.run rt l).2 :=
  .step h (.op o hpre)

/-- A runtime with the text itself as its digest and one known completion. -/
def sampleRuntime : Runtime where
  sha256 := id
  repr := fun s => "'" ++ s ++ "'"
  decode := fun text =>
    if text = "[report]" then
      .task { steps := [{ stepId := "s2", title := "Report", assignedTo := "qa" }] }
    else
      .notJson "Expecting value: line 1 column 1 (char 0)"
  validationText := fun errors => "\n".intercalate errors

/-- A plan of one step. -/
def samplePlan : DecomposedTask where
  steps :=
    [{ stepId := "s1"
       title := "Draft"
       assignedTo := "dev"
       deps := []
       acceptance := ""
       stepType := .work
       needsReview := false
       stepId_stripped := by decide
       title_stripped := by decide
       title_nonblank := by decide
       assignedTo_stripped := by decide }]
  requiresApproval := true
  picId := ""
  nonempty := by simp
  bounded := by decide
  unique := by simp
  known := by simp
  irreflexive := by simp
  work := by simp

/-! The texts that the other sample plans share with it. -/

theorem strip_s1 : Text.strip "s1" = "s1" := by decide

theorem strip_s2 : Text.strip "s2" = "s2" := by decide

theorem strip_draft : Text.strip "Draft" = "Draft" := by decide

theorem draft_nonblank : "Draft" ≠ "" := by decide

theorem strip_dev : Text.strip "dev" = "dev" := by decide

theorem strip_qa : Text.strip "qa" = "qa" := by decide

/-- The hash of the sample plan. -/
def sampleHash : String :=
  decompositionContentHash sampleRuntime (samplePlan.steps.map fun s => s.toStepFields)

/-- The store after the sample plan was drafted, confirmed and read. -/
def sampleOpened : Ledger :=
  [.createTask "t" "Title" "Request" "ceo" "" "", .setDraftPlan "t" (samplePlan.steps.map TeamStepPlan.toDict) sampleHash,
    .confirmPlan "t" sampleHash, .get "t"].foldl (fun l o => (StoreOp.run sampleRuntime o l).2) (.empty 0)

theorem sampleOpened_reach : Reach sampleRuntime sampleOpened := by
  have hempty : Reach sampleRuntime (.empty 0) := .empty 0
  have hcreate := hempty.op (.createTask "t" "Title" "Request" "ceo" "" "") trivial
  have hdraft := hcreate.op (.setDraftPlan "t" (samplePlan.steps.map TeamStepPlan.toDict) sampleHash)
    ⟨⟨_, List.mem_singleton.2 rfl, rfl, rfl⟩, samplePlan, rfl, rfl⟩
  exact (hdraft.op (.confirmPlan "t" sampleHash) trivial).op (.get "t") trivial

/-- The plan hash agreement, in the sample run. -/
theorem sampleOpened_agrees :
    sampleOpened.seen ≠ [] ∧ ∀ task ∈ sampleOpened.db.listDispatchable, task.planVerified sampleRuntime = true :=
  ⟨by decide, (plan_hash_agrees Function.injective_id sampleOpened_reach).2.2⟩

/-! ### Amendments -/

/-- The exact effect of a confirmed amendment. -/
structure AmendmentApplied (db : Db) (draft : AmendmentDraft) (db' : Db) : Prop where
  /-- the rows that were not pending, unchanged, and then the new steps -/
  rows : db'.stepsForTask draft.taskId =
    (db.stepsForTask draft.taskId).filter (fun s => decide (s.status ≠ .pending)) ++
      Auto.numbered (confirmedRow draft.taskId) db.steps.last draft.newPendingSteps
  /-- the pending rows are the new steps, all part of the confirmed plan -/
  pending : (db'.stepsForTask draft.taskId).filter (fun s => decide (s.status = .pending)) =
    Auto.numbered (confirmedRow draft.taskId) db.steps.last draft.newPendingSteps
  /-- a step that a worker has started is not deleted -/
  started : ∀ s ∈ db.steps.rows, s.attemptId ≠ none → s ∈ db'.steps.rows
  /-- the other tasks keep their rows -/
  others : ∀ taskId, taskId ≠ draft.taskId → db'.stepsForTask taskId = db.stepsForTask taskId
  /-- the task carries the new hash -/
  planHash : ∃ row ∈ db.tasks.rows, row.id = draft.taskId ∧
    db'.tasks.find? draft.taskId = some { row with planHash := some draft.newPlanHash }
  /-- the draft is consumed -/
  consumed : db'.amendments.find? draft.amendmentId = some { draft with status := .confirmed }

theorem numbered_pending (taskId : String) (n : ℕ) (steps : List StepDict) :
    ∀ s ∈ Auto.numbered (confirmedRow taskId) n steps, s.status = .pending := by
  intro s hs
  obtain ⟨d, -, m, -, -, rfl⟩ := Auto.mem_numbered hs
  rfl

theorem Inv.amendmentApplied (h : Inv rt l) (hsha : Function.Injective rt.sha256) {db' : Db}
    {d : AmendmentDraft} (hhash : Db.fullDagPlanHash rt (l.db.stepsForTask d.taskId) = d.basePlanHash)
    (hamended : Db.Amended l.db d.taskId d db') : AmendmentApplied l.db d db' := by
  obtain ⟨task, htask, hd⟩ := h.drafts d hamended.mem
  have hrows := h.amended_rows hsha htask hd hhash hamended
  constructor
  case rows =>
    exact hrows
  case pending =>
    rw [hrows, List.filter_append, List.filter_filter]
    have hold : (l.db.stepsForTask d.taskId).filter
        (fun s => decide (s.status = .pending) && decide (s.status ≠ .pending)) = [] := by
      simp
    rw [hold, List.nil_append, List.filter_eq_self]
    intro s hs
    simp [numbered_pending _ _ _ s hs]
  case started =>
    intro s hs hattempt
    have hst : s.status ≠ .pending := fun hp => hattempt (h.tables.unstarted s hs hp)
    rw [hamended.rows]
    refine List.mem_append_left _ (List.mem_filter.2 ⟨hs, ?_⟩)
    simp [hst]
  case others =>
    intro taskId hne
    unfold Db.stepsForTask
    rw [hamended.rows, List.filter_append, List.filter_filter]
    have hnew : (Auto.numbered (confirmedRow d.taskId) l.db.steps.last d.newPendingSteps).filter
        (fun s => decide (s.taskId = taskId)) = [] := by
      rw [List.filter_eq_nil_iff]
      intro s hs
      obtain ⟨b, -, m, -, -, rfl⟩ := Auto.mem_numbered hs
      simp [hne.symm]
    rw [hnew, List.append_nil]
    refine List.filter_congr fun s _ => ?_
    by_cases hs : s.taskId = taskId
    · simp [hs, hne]
    · simp [hs]
  case planHash =>
    obtain ⟨row, hrow, hrowTask⟩ := h.amended_task hsha htask hd hhash
    refine ⟨row, hrow, hrowTask, ?_⟩
    have hmem := Db.mem_updateTask_of_mem d.taskId
      (fun r => { r with planHash := some d.newPlanHash }) (fun _ => rfl) hrow
    rw [if_pos hrowTask] at hmem
    rw [hamended.tasks]
    exact Keyed.find?_eq_some.2 ⟨hmem, hrowTask⟩
  case consumed =>
    rw [hamended.amendments]
    refine Keyed.find?_eq_some.2 ⟨?_, rfl⟩
    exact List.mem_map.2 ⟨d, hamended.mem, by simp⟩

/-- In every reachable store `confirm_amendment` applies its draft exactly, or reports or raises a
refusal and leaves the tables as they are. -/
theorem confirmAmendment_exact (hsha : Function.Injective rt.sha256) (h : Reach rt l) (taskId : String)
    (amendmentId : ℕ) :
    (∃ r draft, (StoreOp.run rt (.confirmAmendment taskId amendmentId) l).1 = .ok r ∧ r.ok = true ∧
      l.db.amendments.find? amendmentId = some draft ∧ draft.taskId = taskId ∧ draft.status = .draft ∧
      AmendmentApplied l.db draft (StoreOp.run rt (.confirmAmendment taskId amendmentId) l).2.db) ∨
    (∀ r, (StoreOp.run rt (.confirmAmendment taskId amendmentId) l).1 = .ok r → r.ok = false) ∧
      (StoreOp.run rt (.confirmAmendment taskId amendmentId) l).2.db = l.db := by
  have hinv := h.inv hsha
  by_cases hall : ∀ r, (l.db.confirmAmendment rt taskId amendmentId).1 = .ok r → r.ok = false
  · exact .inr ⟨hall, Db.confirmAmendment_kept hall⟩
  · left
    push Not at hall
    obtain ⟨r, hr, hok⟩ := hall
    have hok : r.ok = true := by simpa using hok
    obtain ⟨d, hid, hhash, hamended⟩ := Db.confirmAmendment_ok hr hok
    obtain rfl := hamended.task
    exact ⟨r, d, hr, hok, Keyed.find?_eq_some.2 ⟨hamended.mem, hid⟩, rfl, hamended.live,
      hinv.amendmentApplied hsha hhash hamended⟩

/-- The snapshot that the sample run has read. -/
def sampleTask : TeamTask where
  id := "t"
  title := "Title"
  originalRequest := "Request"
  status := .opened
  createdAt := 0
  assignedBy := "ceo"
  costUsdTotal := 0
  planHash := some sampleHash
  decomposeCostUsd := 0
  aggregateCostUsd := 0
  picId := ""
  roomId := ""
  steps := [confirmedRow "t" { stepId := "s1", title := "Draft", assignedTo := "dev" } 1]

/-- The amendment that the known completion gives. -/
def samplePreview : AmendPreview where
  basePlanHash := sampleHash
  newPlanHash := decompositionContentHash sampleRuntime [⟨"s2", "Report", "qa", []⟩]
  newPendingSteps := [{ stepId := "s2", title := "Report", assignedTo := "qa", stepType := some .work }]
  oldPendingStepIds := ["s1"]
  costUsd := 0

/-- The store after that amendment was drafted. -/
def sampleDrafted : Ledger :=
  (StoreOp.run sampleRuntime (.setAmendmentDraft "t" samplePreview.basePlanHash samplePreview.newPlanHash
    samplePreview.newPendingSteps samplePreview.oldPendingStepIds) sampleOpened).2

theorem sampleDrafted_reach : Reach sampleRuntime sampleDrafted := by
  refine sampleOpened_reach.op _ ⟨sampleTask, List.mem_singleton.2 rfl, rfl, [("qa", "QA"), ("dev", "Dev")],
    fun _ _ => .ok ⟨"[report]", none⟩, samplePreview, ?_, rfl, rfl, rfl, rfl⟩
  decide +kernel

/-- The sample amendment is applied exactly. -/
theorem sampleDrafted_applied :
    (StoreOp.run sampleRuntime (.confirmAmendment "t" 1) sampleDrafted).1 = .ok { ok := true } ∧
      ∃ draft, AmendmentApplied sampleDrafted.db draft
        (StoreOp.run sampleRuntime (.confirmAmendment "t" 1) sampleDrafted).2.db := by
  have hok : (StoreOp.run sampleRuntime (.confirmAmendment "t" 1) sampleDrafted).1 = .ok { ok := true } := by
    decide +kernel
  refine ⟨hok, ?_⟩
  rcases confirmAmendment_exact Function.injective_id sampleDrafted_reach "t" 1 with h | h
  · obtain ⟨-, draft, -, -, -, -, -, happlied⟩ := h
    exact ⟨draft, happlied⟩
  · exact absurd (h.1 _ hok) (by decide)

end Ledger

end ProjectManager
