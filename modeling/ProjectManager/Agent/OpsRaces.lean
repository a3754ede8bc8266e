import ProjectManager.Agent.OpsDialogue

/-!
# Concurrent messages of one conversation

Several requests handle messages of one conversation at once, and their calls come in any order.  Loading a draft
and clearing it are two statements, so that two replies may both have loaded a draft before one of them clears it,
and its command runs twice (`draft_runs_twice`).  `draft_runs_once` says that nothing else makes it run twice.
-/

namespace ProjectManager

open Process

/-! ### Requests -/

/-- A message that is being handled: what it has left to do, and the save whose draft it replies to. -/
structure OpsRequest where
  catalogue : OpsCatalogue
  message : String
  now : ℚ
  prog : OpsProg OpsReply
  replies : Option ℕ

/-- The store, how often the draft of the conversation was saved, the requests that are under way, and for each run
of a draft's command the save of the draft. -/
structure OpsTraffic where
  store : DraftStore
  saves : ℕ
  requests : List OpsRequest
  runs : List ℕ

/-- The draft awaits a reply and is alive. -/
def OpsDraft.Awaits (draft : OpsDraft) (now : ℚ) : Prop :=
  draft.phase = .awaitingConfirm ∧ ¬ draftTtl < now - draft.updatedAt

instance (draft : OpsDraft) (now : ℚ) : Decidable (draft.Awaits now) :=
  inferInstanceAs (Decidable (_ ∧ _))

/-- The message confirms the draft, and its command is in the catalogue. -/
def OpsRequest.Confirms (lib : OpsLibrary) (r : OpsRequest) (draft : OpsDraft) : Prop :=
  confirmDecision lib.py r.message = .confirm ∧ (r.catalogue.lookup draft.commandId).isSome

/-- The number of saves after a call. -/
def savesAfter (key : String) (saves : ℕ) : OpsCall → ℕ
  | .save key' _ => if key' = key then saves + 1 else saves
  | _ => saves

/-- A request replies to the draft that it loads, when that awaits a reply: the row is the one of the last save. -/
def OpsRequest.repliesAfter (r : OpsRequest) (saves : ℕ) : (c : OpsCall) → c.Resp → Option ℕ
  | .select _, some draft => if draft.Awaits r.now then some saves else r.replies
  | _, _ => r.replies

/-- The run of a draft's command. -/
def OpsRequest.runsBy (r : OpsRequest) : OpsCall → List ℕ
  | .run _ _ => r.replies.toList
  | _ => []

/-- What is reached when requests start, issue their calls one at a time, and end, the calls as `allows` lets them
through. -/
inductive OpsTraffic.Reached (lib : OpsLibrary) (key : String) (allows : OpsTraffic → OpsRequest → OpsCall → Prop) :
    OpsTraffic → Prop where
  | init (store : DraftStore) : Reached lib key allows ⟨store, 0, [], []⟩
  | start {t : OpsTraffic} (h : Reached lib key allows t) (catalogue : OpsCatalogue) (message : String) (now : ℚ) :
      Reached lib key allows { t with
        requests := t.requests ++ [⟨catalogue, message, now, handleOpsMessage lib catalogue message key now, none⟩] }
  | call {store store' : DraftStore} {saves : ℕ} {runs : List ℕ} (front : List OpsRequest) (r : OpsRequest)
      (back : List OpsRequest) {c : OpsCall} {k : c.Resp → OpsProg OpsReply} (answer : c.Resp)
      (h : Reached lib key allows ⟨store, saves, front ++ r :: back, runs⟩) (hnext : r.prog = .call c k)
      (hallows : allows ⟨store, saves, front ++ r :: back, runs⟩ r c) (hanswer : OpsAnswers c store answer store') :
      Reached lib key allows ⟨store', savesAfter key saves c,
        front ++ { r with prog := k answer, replies := r.repliesAfter saves c answer } :: back, runs ++ r.runsBy c⟩
  | leave {store : DraftStore} {saves : ℕ} {runs : List ℕ} (front : List OpsRequest) (r : OpsRequest)
      (back : List OpsRequest) (h : Reached lib key allows ⟨store, saves, front ++ r :: back, runs⟩) :
      Reached lib key allows ⟨store, saves, front ++ back, runs⟩
  /-- other conversations go on -/
  | elsewhere {store store' : DraftStore} {saves : ℕ} {requests : List OpsRequest} {runs : List ℕ}
      (h : Reached lib key allows ⟨store, saves, requests, runs⟩) (hsame : store' key = store key) :
      Reached lib key allows ⟨store', saves, requests, runs⟩

/-- A request that confirms a draft loads it when no other one that confirms it is under way. -/
def LoadsAlone (lib : OpsLibrary) (key : String) (t : OpsTraffic) (r : OpsRequest) : OpsCall → Prop
  | .select _ => ∀ draft, t.store key = some draft → draft.Awaits r.now → r.Confirms lib draft →
      ∀ other ∈ t.requests, other.replies = some t.saves → ¬ other.Confirms lib draft
  | _ => True

/-! ### What is left to do -/

/-- The calls of a request that does not run the command of a draft any more. -/
def Idle (replies : Option ℕ) : OpsCall → Prop
  | .select _ => False
  | .run _ _ => replies = none
  | _ => True

section Programs

variable {lib : OpsLibrary} {catalogue : OpsCatalogue} {key message : String} {now : ℚ}

theorem advanceOrConfirm_idle (replies : Option ℕ) (commandId : String) (slots : Slots) (cost : Option ℚ) :
    (advanceOrConfirm catalogue commandId slots key now cost).Only (Idle replies) fun _ => True := by
  unfold advanceOrConfirm
  split
  · exact trivial
  · split
    · exact ⟨trivial, fun _ => trivial⟩
    · refine ⟨trivial, fun previewed => ?_⟩
      obtain ⟨left, previewed⟩ := previewed
      cases previewed with
      | error exc =>
          cases exc with
          | valueError msg =>
              exact ⟨trivial, fun _ => trivial⟩
          | other msg =>
              exact trivial
      | ok text =>
          dsimp only [Prog.bind_eq, Prog.ret_bind]
          split
          · exact ⟨trivial, fun _ => trivial⟩
          · exact ⟨trivial, fun _ => trivial⟩

theorem classifyOpsIntent_idle (replies : Option ℕ) :
    (classifyOpsIntent lib message).Only (Idle replies) fun _ => True := by
  refine ⟨trivial, fun answer => ?_⟩
  dsimp only [Prog.ret_bind]
  split
  · split
    · exact trivial
    · exact trivial
  · split
    · exact trivial
    · exact trivial

theorem extractSlotValue_idle (replies : Option ℕ) (field prompt answer hint : String) :
    (extractSlotValue lib field prompt answer hint).Only (Idle replies) fun _ => True := by
  refine ⟨trivial, fun answer => ?_⟩
  dsimp only [Prog.ret_bind]
  split
  · split
    · exact trivial
    · exact trivial
  · split
    · exact trivial
    · exact trivial

theorem startNew_idle : (startNew lib catalogue message key now).Only (Idle none) fun _ => True := by
  refine (classifyOpsIntent_idle none).bind fun classified _ => ?_
  obtain ⟨intent, cost⟩ := classified
  dsimp only
  split
  · exact trivial
  · split
    · exact trivial
    · split
      · rename_i commandId hcommand
        cases catalogue.lookup commandId with
        | none =>
            exact trivial
        | some spec =>
            cases intentSlots intent with
            | error msg =>
                exact trivial
            | ok entries =>
                by_cases hreadonly : spec.readonly = true
                · simp only [hreadonly]
                  refine ⟨rfl, fun answer => ?_⟩
                  cases answer with
                  | ok text =>
                      exact trivial
                  | error exc =>
                      exact trivial
                · simp only [hreadonly]
                  exact advanceOrConfirm_idle none _ _ _
      · exact trivial
      · exact trivial
      · exact trivial

theorem collectSlot_idle (draft : OpsDraft) :
    (collectSlot lib catalogue draft message key now).Only (Idle none) fun _ => True := by
  unfold collectSlot
  split
  · exact ⟨trivial, fun _ => trivial⟩
  · split
    · exact ⟨trivial, fun _ => trivial⟩
    · split
      · exact advanceOrConfirm_idle none _ _ _
      · refine (extractSlotValue_idle none _ _ _ _).bind fun extracted _ => ?_
        obtain ⟨value, cost⟩ := extracted
        dsimp only
        split
        · exact advanceOrConfirm_idle none _ _ _
        · split
          · exact trivial
          · exact advanceOrConfirm_idle none _ _ _

/-- A reply that confirms clears the draft, then runs its command, and is done. -/
theorem handleConfirm_confirms {draft : OpsDraft} (hconfirm : confirmDecision lib.py message = .confirm)
    (hcommand : (catalogue.lookup draft.commandId).isSome) : ∃ rest : Except CommandError String → OpsReply,
      handleConfirm lib catalogue draft message key =
        .call (.clear key) fun _ => .call (.run draft.commandId draft.slots) fun out => .ret (rest out) := by
  have hif : confirmDecision lib.py message = .confirm ∧ (catalogue.lookup draft.commandId).isSome := ⟨hconfirm, hcommand⟩
  refine ⟨fun out => match out with
    | .ok text => (text, none)
    | .error (.valueError msg) => ("Chưa thực hiện được: " ++ msg, none)
    | .error (.other msg) => ("Có lỗi khi thực hiện: " ++ msg, none), ?_⟩
  unfold handleConfirm
  simp only [hif, and_self, if_true]
  refine congrArg (Prog.call _) (funext fun _ => congrArg (Prog.call _) (funext fun out => ?_))
  rcases out with (msg | msg) | text <;> rfl

theorem handleConfirm_idle {draft : OpsDraft} (replies : Option ℕ)
    (h : ¬ (confirmDecision lib.py message = .confirm ∧ (catalogue.lookup draft.commandId).isSome)) :
    (handleConfirm lib catalogue draft message key).Only (Idle replies) fun _ => True := by
  unfold handleConfirm
  simp only [h, if_false]
  refine ⟨trivial, fun _ => ?_⟩
  dsimp only [Prog.ret_bind]
  split
  · exact ⟨trivial, fun _ => trivial⟩
  · exact trivial

/-- How a message goes on when the row of its conversation is read. -/
def afterSelect (lib : OpsLibrary) (catalogue : OpsCatalogue) (message key : String) (now : ℚ) (row : Option OpsDraft) :
    OpsProg OpsReply :=
  Prog.bind (match row with
    | none => .ret none
    | some draft =>
      if draftTtl < now - draft.updatedAt then (ops (.clear key)).bind fun _ => .ret none else .ret (some draft)) fun
    | none => startNew lib catalogue message key now
    | some draft =>
      match draft.phase with
      | .awaitingConfirm => handleConfirm lib catalogue draft message key
      | .collecting => collectSlot lib catalogue draft message key now

theorem handleOpsMessage_select : handleOpsMessage lib catalogue message key now =
    .call (.select key) (afterSelect lib catalogue message key now) := by
  refine congrArg (Prog.call (OpsCall.select key)) (funext fun row => ?_)
  cases row with
  | none =>
      rfl
  | some draft =>
      unfold afterSelect
      dsimp only [Prog.ret_bind]
      split
      · rfl
      · cases hphase : draft.phase <;> simp [hphase]

theorem afterSelect_awaits {draft : OpsDraft} (h : draft.Awaits now) :
    afterSelect lib catalogue message key now (some draft) = handleConfirm lib catalogue draft message key := by
  simp only [afterSelect, h.2, if_false, Prog.ret_bind, h.1]

theorem afterSelect_idle {row : Option OpsDraft} (h : ∀ draft, row = some draft → ¬ draft.Awaits now) :
    (afterSelect lib catalogue message key now row).Only (Idle none) fun _ => True := by
  cases row with
  | none =>
      exact startNew_idle
  | some draft =>
      by_cases hold : draftTtl < now - draft.updatedAt
      · simp only [afterSelect, hold, if_true]
        exact ⟨trivial, fun _ => startNew_idle⟩
      · cases hphase : draft.phase with
        | awaitingConfirm =>
            exact absurd ⟨hphase, hold⟩ (h draft rfl)
        | collecting =>
            simp only [afterSelect, hold, if_false, Prog.ret_bind, hphase]
            exact collectSlot_idle draft

end Programs

/-! ### The invariant -/

section Invariant

variable {lib : OpsLibrary} {key : String} {t : OpsTraffic} {r other : OpsRequest} {n : ℕ}

/-- The draft of a save is not in the store any more. -/
def OpsTraffic.Gone (t : OpsTraffic) (key : String) (n : ℕ) : Prop :=
  n < t.saves ∨ n = t.saves ∧ t.store key = none

/-- The request may yet run the command of the draft of this save. -/
def OpsRequest.Pending (r : OpsRequest) (n : ℕ) : Prop :=
  r.replies = some n ∧ ¬ r.prog.Only (Idle (some n)) fun _ => True

/-- No draft is pending for both. -/
def Apart (r other : OpsRequest) : Prop :=
  ∀ n, ¬ (r.Pending n ∧ other.Pending n)

theorem Apart.symm (h : Apart r other) : Apart other r :=
  fun n hpending => h n hpending.symm

/-- How far a request is. -/
inductive Stage (lib : OpsLibrary) (key : String) (t : OpsTraffic) (r : OpsRequest) : Prop where
  | fresh (hprog : r.prog = handleOpsMessage lib r.catalogue r.message key r.now) (hnone : r.replies = none)
  /-- the draft is loaded and the reply confirms it -/
  | loaded {n : ℕ} {commandId : String} {slots : Slots} {rest : Except CommandError String → OpsReply}
      (hprog : r.prog = .call (.clear key) fun _ => .call (.run commandId slots) fun out => .ret (rest out))
      (hreplies : r.replies = some n) (hle : n ≤ t.saves)
      (hconfirms : n = t.saves → ∀ draft, t.store key = some draft → r.Confirms lib draft)
  | cleared {n : ℕ} {commandId : String} {slots : Slots} {rest : Except CommandError String → OpsReply}
      (hprog : r.prog = .call (.run commandId slots) fun out => .ret (rest out)) (hreplies : r.replies = some n)
      (hgone : t.Gone key n)
  | idle (hidle : r.prog.Only (Idle r.replies) fun _ => True)

/-- Where a run of traffic is: at most one request can yet run the command of a draft, and none can whose command
has run. -/
structure RunsOnce (lib : OpsLibrary) (key : String) (t : OpsTraffic) : Prop where
  stage : ∀ r ∈ t.requests, Stage lib key t r
  alone : t.requests.Pairwise Apart
  unrun : ∀ r ∈ t.requests, ∀ n, r.Pending n → n ∉ t.runs
  gone : ∀ n ∈ t.runs, t.Gone key n
  once : t.runs.Nodup

theorem OpsRequest.Pending.unique {m : ℕ} (h : r.Pending n) (h' : r.Pending m) : n = m :=
  Option.some.inj (h.1.symm.trans h'.1)

theorem not_pending_of_none (h : r.replies = none) : ¬ r.Pending n := by
  intro hpending
  cases h.symm.trans hpending.1

theorem not_pending_of_idle (h : r.prog.Only (Idle r.replies) fun _ => True) : ¬ r.Pending n := by
  intro hpending
  rw [hpending.1] at h
  exact hpending.2 h

/-- A request that may yet run the command of a draft that is in the store has loaded it and confirms it. -/
theorem Stage.confirms {draft : OpsDraft} (h : Stage lib key t r) (hpending : r.Pending t.saves)
    (hdraft : t.store key = some draft) : r.Confirms lib draft := by
  cases h with
  | fresh _ hnone =>
      exact absurd hpending (not_pending_of_none hnone)
  | loaded _ hreplies _ hconfirms =>
      exact hconfirms (Option.some.inj (hreplies.symm.trans hpending.1)) draft hdraft
  | cleared _ hreplies hgone =>
      obtain rfl := Option.some.inj (hreplies.symm.trans hpending.1)
      rcases hgone with hlt | ⟨-, hnone⟩
      · exact absurd hlt (lt_irrefl _)
      · cases hnone.symm.trans hdraft
  | idle hidle =>
      exact absurd hpending (not_pending_of_idle hidle)

/-- The store goes on: the draft is saved anew, or it stays or is cleared. -/
def Later (key : String) (t t' : OpsTraffic) : Prop :=
  t.saves < t'.saves ∨ t'.saves = t.saves ∧ (t'.store key = t.store key ∨ t'.store key = none)

theorem OpsTraffic.Gone.later {t' : OpsTraffic} (h : t.Gone key n) (hlater : Later key t t') : t'.Gone key n := by
  rcases hlater with hlt | ⟨hsaves, hstore⟩
  · rcases h with h | ⟨rfl, -⟩
    · exact .inl (h.trans hlt)
    · exact .inl hlt
  · rcases h with h | ⟨rfl, hnone⟩
    · exact .inl (hsaves ▸ h)
    · exact .inr ⟨hsaves.symm, hstore.elim (fun hsame => hsame.trans hnone) id⟩

theorem Stage.later {t' : OpsTraffic} (h : Stage lib key t r) (hlater : Later key t t') : Stage lib key t' r := by
  cases h with
  | fresh hprog hnone =>
      exact .fresh hprog hnone
  | loaded hprog hreplies hle hconfirms =>
      rcases hlater with hlt | ⟨hsaves, hstore⟩
      · exact .loaded hprog hreplies (hle.trans hlt.le) fun hn => absurd (hn ▸ hle) (Nat.not_le.2 hlt)
      · refine .loaded hprog hreplies (hsaves ▸ hle) fun hn draft hdraft => hconfirms (hsaves ▸ hn) draft ?_
        rcases hstore with hsame | hnone
        · exact hsame.symm.trans hdraft
        · cases hnone.symm.trans hdraft
  | cleared hprog hreplies hgone =>
      exact .cleared hprog hreplies (hgone.later hlater)
  | idle hidle =>
      exact .idle hidle

theorem later_of_answer {store store' : DraftStore} {saves : ℕ} {requests requests' : List OpsRequest} {runs runs' : List ℕ}
    {c : OpsCall} {answer : c.Resp} (h : OpsAnswers c store answer store') :
    Later key ⟨store, saves, requests, runs⟩ ⟨store', savesAfter key saves c, requests', runs'⟩ := by
  cases c with
  | select key' =>
      obtain ⟨-, rfl⟩ := h
      exact .inr ⟨rfl, .inl rfl⟩
  | save key' draft =>
      obtain rfl : store' = Function.update store key' (some draft) := h
      by_cases hkey : key' = key
      · exact .inl (by simp [savesAfter, hkey])
      · exact .inr ⟨by simp [savesAfter, hkey], .inl (Function.update_of_ne (Ne.symm hkey) _ _)⟩
  | clear key' =>
      obtain rfl : store' = Function.update store key' none := h
      refine .inr ⟨rfl, ?_⟩
      by_cases hkey : key = key'
      · exact .inr (hkey ▸ Function.update_self _ _ _)
      · exact .inl (Function.update_of_ne hkey _ _)
  | _ =>
      obtain rfl : store' = store := h
      exact .inr ⟨rfl, .inl rfl⟩

/-- The request takes the draft of the last save: it loads it, and confirms it. -/
def Takes (lib : OpsLibrary) (key : String) (t : OpsTraffic) (r : OpsRequest) (n : ℕ) : Prop :=
  n = t.saves ∧ ∃ draft, t.store key = some draft ∧ draft.Awaits r.now ∧ r.Confirms lib draft

/-- What the next call of a request comes to, for the request as it is after it. -/
structure CallStep (lib : OpsLibrary) (key : String) (t t' : OpsTraffic) (r r' : OpsRequest) (c : OpsCall) : Prop where
  stage : Stage lib key t' r'
  pending : ∀ n, r'.Pending n → r.Pending n ∨ c = .select key ∧ Takes lib key t r n
  runs : ∀ n ∈ r.runsBy c, r.Pending n ∧ ¬ r'.Pending n ∧ t.Gone key n

variable {store store' : DraftStore} {saves : ℕ} {front back : List OpsRequest} {runs : List ℕ} {c : OpsCall}
  {k : c.Resp → OpsProg OpsReply} {answer : c.Resp}

/-- A request that goes on without the draft of a save. -/
theorem CallStep.of_idle {t' : OpsTraffic} {r' : OpsRequest} (hidle : r'.prog.Only (Idle r'.replies) fun _ => True)
    (hruns : ∀ n ∈ r.runsBy c, r.Pending n ∧ t.Gone key n) : CallStep lib key t t' r r' c where
  stage := .idle hidle
  pending := fun _ hpending => absurd hpending (not_pending_of_idle hidle)
  runs := fun n hn => ⟨(hruns n hn).1, not_pending_of_idle hidle, (hruns n hn).2⟩

theorem Stage.select {row : Option OpsDraft} (hfresh : r.replies = none) (hrow : row = t.store key) {t' : OpsTraffic}
    (hsaves : t'.saves = t.saves) (hstore : t'.store = t.store) :
    CallStep lib key t t' r { r with
      prog := afterSelect lib r.catalogue r.message key r.now row, replies := r.repliesAfter t.saves (.select key) row }
      (.select key) := by
  have hnoruns : ∀ n ∈ r.runsBy (.select key), r.Pending n ∧ t.Gone key n := by simp [OpsRequest.runsBy]
  by_cases hawaits : ∃ draft, row = some draft ∧ draft.Awaits r.now
  · obtain ⟨draft, rfl, hawaits⟩ := hawaits
    have hreplies : r.repliesAfter t.saves (.select key) (some draft) = some t.saves := if_pos hawaits
    rw [hreplies, afterSelect_awaits hawaits]
    by_cases hconfirms : r.Confirms lib draft
    · obtain ⟨rest, hprog⟩ := @handleConfirm_confirms lib r.catalogue key r.message draft hconfirms.1 hconfirms.2
      rw [hprog]
      refine ⟨.loaded rfl rfl hsaves.ge fun _ draft' hdraft' => ?_, fun n hpending => .inr ⟨rfl, ?_⟩, by
        simp [OpsRequest.runsBy]⟩
      · rw [hstore, ← hrow] at hdraft'
        exact Option.some.inj hdraft' ▸ hconfirms
      · exact ⟨(Option.some.inj hpending.1).symm, draft, hrow.symm, hawaits, hconfirms⟩
    · exact .of_idle (handleConfirm_idle _ hconfirms) hnoruns
  · have hreplies : r.repliesAfter t.saves (.select key) row = none := by
      cases row with
      | none =>
          exact hfresh
      | some draft =>
          exact (if_neg fun h => hawaits ⟨draft, rfl, h⟩).trans hfresh
    rw [hreplies]
    exact .of_idle (afterSelect_idle fun draft hdraft h => hawaits ⟨draft, hdraft, h⟩) hnoruns

theorem Stage.call (h : Stage lib key t r) (hnext : r.prog = .call c k)
    (hanswer : OpsAnswers c t.store answer store') (front' : List OpsRequest) :
    CallStep lib key t ⟨store', savesAfter key t.saves c, front', t.runs ++ r.runsBy c⟩ r
      { r with prog := k answer, replies := r.repliesAfter t.saves c answer } c := by
  cases h with
  | fresh hprog hnone =>
      rw [hprog, handleOpsMessage_select] at hnext
      cases hnext
      obtain ⟨hrow, rfl⟩ := hanswer
      exact Stage.select hnone hrow rfl rfl
  | @loaded n commandId slots rest hprog hreplies hle _ =>
      rw [hprog] at hnext
      cases hnext
      have hgone : (⟨store', t.saves, front', t.runs⟩ : OpsTraffic).Gone key n := by
        rcases hle.lt_or_eq with hlt | heq
        · exact .inl hlt
        · exact .inr ⟨heq, ProjectManager.cleared hanswer⟩
      refine ⟨.cleared rfl hreplies (by simpa [savesAfter, OpsTraffic.Gone] using hgone), fun m hpending => .inl ?_, by
        simp [OpsRequest.runsBy]⟩
      have hm : m = n := Option.some.inj (hpending.1.symm.trans hreplies)
      refine ⟨hm ▸ hreplies, fun honly => ?_⟩
      rw [hprog] at honly
      cases (honly.2 ()).1
  | @cleared n commandId slots rest hprog hreplies hgone =>
      rw [hprog] at hnext
      cases hnext
      refine .of_idle trivial fun m hm => ?_
      have hm : m = n := by simpa [OpsRequest.runsBy, hreplies] using hm
      subst hm
      refine ⟨⟨hreplies, fun honly => ?_⟩, hgone⟩
      rw [hprog] at honly
      cases honly.1
  | idle hidle =>
      rw [hnext] at hidle
      cases c with
      | select key' =>
          exact hidle.1.elim
      | run commandId slots =>
          have hnone : r.replies = none := hidle.1
          exact .of_idle (hidle.2 answer) (by simp [OpsRequest.runsBy, hnone])
      | _ =>
          exact .of_idle (hidle.2 answer) (by simp [OpsRequest.runsBy])

theorem RunsOnce.start (h : RunsOnce lib key t) (catalogue : OpsCatalogue) (message : String) (now : ℚ) :
    RunsOnce lib key { t with
      requests := t.requests ++ [⟨catalogue, message, now, handleOpsMessage lib catalogue message key now, none⟩] } := by
  have hnew : ∀ n, ¬ OpsRequest.Pending ⟨catalogue, message, now, handleOpsMessage lib catalogue message key now, none⟩ n :=
    fun n => not_pending_of_none rfl
  refine ⟨fun r hr => ?_, ?_, fun r hr n hpending => ?_, h.gone, h.once⟩
  · rcases List.mem_append.1 hr with hr | hr
    · exact (h.stage r hr).later (.inr ⟨rfl, .inl rfl⟩)
    · obtain rfl := List.mem_singleton.1 hr
      exact .fresh rfl rfl
  · rw [List.pairwise_append]
    refine ⟨h.alone, List.pairwise_singleton _ _, fun r _ other hother n hpending => ?_⟩
    obtain rfl := List.mem_singleton.1 hother
    exact hnew n hpending.2
  · rcases List.mem_append.1 hr with hr | hr
    · exact h.unrun r hr n hpending
    · obtain rfl := List.mem_singleton.1 hr
      exact absurd hpending (hnew n)

theorem RunsOnce.call {r' : OpsRequest} (h : RunsOnce lib key ⟨store, saves, front ++ r :: back, runs⟩)
    (hlater : Later key ⟨store, saves, front ++ r :: back, runs⟩
      ⟨store', savesAfter key saves c, front ++ r' :: back, runs ++ r.runsBy c⟩)
    (hstep : CallStep lib key ⟨store, saves, front ++ r :: back, runs⟩
      ⟨store', savesAfter key saves c, front ++ r' :: back, runs ++ r.runsBy c⟩ r r' c)
    (halone : LoadsAlone lib key ⟨store, saves, front ++ r :: back, runs⟩ r c) :
    RunsOnce lib key ⟨store', savesAfter key saves c, front ++ r' :: back, runs ++ r.runsBy c⟩ := by
  obtain ⟨hstage, hpairs, hunrun, hgone, honce⟩ := h
  have hself : r ∈ front ++ r :: back := by simp
  have hothers : ∀ other ∈ front ++ back, other ∈ front ++ r :: back := fun other hother => by
    rcases List.mem_append.1 hother with hother | hother <;> simp [hother]
  rw [List.pairwise_middle fun h => Apart.symm h, List.pairwise_cons] at hpairs
  -- nobody else may run the command of a draft that the request takes
  have htaken : ∀ n, r'.Pending n → n ∉ runs ∧ ∀ other ∈ front ++ back, ¬ other.Pending n := by
    intro n hpending
    rcases hstep.pending n hpending with hbefore | ⟨rfl, rfl, draft, hdraft, hawaits, hconfirms⟩
    · exact ⟨hunrun r hself n hbefore, fun other hother hpending' => hpairs.1 other hother n ⟨hbefore, hpending'⟩⟩
    · refine ⟨fun hran => ?_, fun other hother hpending' => ?_⟩
      · rcases hgone _ hran with hlt | ⟨-, hnone⟩
        · exact lt_irrefl _ hlt
        · cases hnone.symm.trans hdraft
      · have hmem := hothers other hother
        exact halone draft hdraft hawaits hconfirms other hmem hpending'.1 ((hstage other hmem).confirms hpending' hdraft)
  have hcases : ∀ other ∈ front ++ r' :: back, other = r' ∨ other ∈ front ++ back := fun other hother => by
    rcases List.mem_append.1 hother with hother | hother
    · exact .inr (List.mem_append_left _ hother)
    · exact (List.mem_cons.1 hother).imp_right fun hother => List.mem_append_right _ hother
  refine ⟨fun other hother => ?_, ?_, fun other hother n hpending hran => ?_, fun n hn => ?_, ?_⟩
  · rcases hcases other hother with rfl | hother
    · exact hstep.stage
    · exact (hstage other (hothers other hother)).later hlater
  · rw [List.pairwise_middle fun h => Apart.symm h, List.pairwise_cons]
    exact ⟨fun other hother n hpending => (htaken n hpending.1).2 other hother hpending.2, hpairs.2⟩
  · rcases hcases other hother with rfl | hother
    · rcases List.mem_append.1 hran with hran | hran
      · exact (htaken n hpending).1 hran
      · exact (hstep.runs n hran).2.1 hpending
    · rcases List.mem_append.1 hran with hran | hran
      · exact hunrun other (hothers other hother) n hpending hran
      · exact hpairs.1 other hother n ⟨(hstep.runs n hran).1, hpending⟩
  · rcases List.mem_append.1 hn with hn | hn
    · exact (hgone n hn).later hlater
    · exact (hstep.runs n hn).2.2.later hlater
  · rw [List.nodup_append]
    refine ⟨honce, ?_, fun n hn m hm hnm => ?_⟩
    · cases c with
      | run commandId slots =>
          cases hreplies : r.replies <;> simp [OpsRequest.runsBy, hreplies]
      | _ =>
          exact List.nodup_nil
    · subst hnm
      exact hunrun r hself n (hstep.runs n hm).1 hn

theorem RunsOnce.leave (h : RunsOnce lib key ⟨store, saves, front ++ r :: back, runs⟩) :
    RunsOnce lib key ⟨store, saves, front ++ back, runs⟩ := by
  have hsub : (front ++ back).Sublist (front ++ r :: back) :=
    List.Sublist.append_left (List.sublist_cons_self r back) front
  exact ⟨fun other hother => (h.stage other (hsub.subset hother)).later (.inr ⟨rfl, .inl rfl⟩), h.alone.sublist hsub,
    fun other hother => h.unrun other (hsub.subset hother), h.gone, h.once⟩

theorem RunsOnce.elsewhere {requests : List OpsRequest} (h : RunsOnce lib key ⟨store, saves, requests, runs⟩)
    (hsame : store' key = store key) : RunsOnce lib key ⟨store', saves, requests, runs⟩ :=
  ⟨fun r hr => (h.stage r hr).later (.inr ⟨rfl, .inl hsame⟩), h.alone, h.unrun,
    fun n hn => (h.gone n hn).later (.inr ⟨rfl, .inl hsame⟩), h.once⟩

theorem OpsTraffic.Reached.runsOnce (h : OpsTraffic.Reached lib key (LoadsAlone lib key) t) : RunsOnce lib key t := by
  induction h with
  | init store =>
      exact ⟨by simp, List.Pairwise.nil, by simp, by simp, List.nodup_nil⟩
  | start _ catalogue message now ih =>
      exact ih.start catalogue message now
  | call front r back answer _ hnext hallows hanswer ih =>
      exact ih.call (later_of_answer hanswer) ((ih.stage r (by simp)).call hnext hanswer _) hallows
  | leave front r back _ ih =>
      exact ih.leave
  | elsewhere _ hsame ih =>
      exact ih.elsewhere hsame

end Invariant

/-- In every order of the calls of any number of requests of one conversation, the command of a saved draft runs at
most once, when a reply that confirms the draft loads it while no other such reply that has loaded it is under way. -/
theorem draft_runs_once {lib : OpsLibrary} {key : String} {t : OpsTraffic}
    (h : OpsTraffic.Reached lib key (LoadsAlone lib key) t) (n : ℕ) : t.runs.count n ≤ 1 :=
  List.nodup_iff_count_le_one.1 h.runsOnce.once n

/-- A draft that awaits a reply. -/
def sampleOpsDraft : OpsDraft :=
  ⟨"pause", [], .awaitingConfirm, 1000⟩

/-- The store with the draft. -/
def sampleOpsDrafts : DraftStore :=
  fun _ => some sampleOpsDraft

/-- A reply that confirms the draft. -/
def sampleReply : OpsRequest :=
  ⟨sampleCatalogue, "ok", 1060, handleOpsMessage sampleLibrary sampleCatalogue "ok" "ceo" 1060, none⟩

/-- The reply when the draft is loaded. -/
def sampleLoaded (rest : Except CommandError String → OpsReply) : OpsRequest :=
  { sampleReply with
    prog := .call (.clear "ceo") fun _ => .call (.run "pause" []) fun out => .ret (rest out), replies := some 0 }

/-- What the command comes to. -/
def samplePaused : Except CommandError String :=
  .ok "Paused."

theorem sampleOpsDraft_awaits : sampleOpsDraft.Awaits 1060 := by
  decide +kernel

/-- Loading the draft, beside other requests. -/
theorem sampleReply_loads (allows : OpsTraffic → OpsRequest → OpsCall → Prop) :
    ∃ rest, ∀ (front back : List OpsRequest), OpsTraffic.Reached sampleLibrary "ceo" allows
        ⟨sampleOpsDrafts, 0, front ++ sampleReply :: back, []⟩ →
      allows ⟨sampleOpsDrafts, 0, front ++ sampleReply :: back, []⟩ sampleReply (.select "ceo") →
      OpsTraffic.Reached sampleLibrary "ceo" allows ⟨sampleOpsDrafts, 0, front ++ sampleLoaded rest :: back, []⟩ := by
  obtain ⟨rest, hprog⟩ := @handleConfirm_confirms sampleLibrary sampleCatalogue "ceo" "ok" sampleOpsDraft (by decide +kernel)
    (by decide)
  refine ⟨rest, fun front back h hallows => ?_⟩
  have hloaded := OpsTraffic.Reached.call front sampleReply back (some sampleOpsDraft) h handleOpsMessage_select hallows
    ⟨rfl, rfl⟩
  have hreplies : sampleReply.repliesAfter 0 (.select "ceo") (some sampleOpsDraft) = some 0 := if_pos sampleOpsDraft_awaits
  rwa [show afterSelect sampleLibrary sampleCatalogue "ok" "ceo" 1060 (some sampleOpsDraft) = _ from
    (afterSelect_awaits sampleOpsDraft_awaits).trans hprog, hreplies] at hloaded

/-- The command of the draft runs, and runs once. -/
theorem draft_runs_once_sample : ∃ t, OpsTraffic.Reached sampleLibrary "ceo" (LoadsAlone sampleLibrary "ceo") t ∧
    t.runs = [0] ∧ t.runs.count 0 ≤ 1 := by
  obtain ⟨rest, hloads⟩ := sampleReply_loads (LoadsAlone sampleLibrary "ceo")
  have hstart : OpsTraffic.Reached sampleLibrary "ceo" (LoadsAlone sampleLibrary "ceo") _ :=
    .start (.init sampleOpsDrafts) sampleCatalogue "ok" 1060
  have hloaded := hloads [] [] hstart fun _ _ _ _ other hother hreplies => by
    obtain rfl := List.mem_singleton.1 hother
    cases hreplies
  have hcleared := OpsTraffic.Reached.call [] (sampleLoaded rest) [] () hloaded rfl trivial rfl
  have hrun := OpsTraffic.Reached.call [] _ [] samplePaused hcleared rfl trivial rfl
  exact ⟨_, hrun, rfl, draft_runs_once hrun 0⟩

/-- Two replies load the draft before one of them clears it, and its command runs twice. -/
theorem draft_runs_twice : ¬ ∀ (lib : OpsLibrary) (key : String) (t : OpsTraffic),
    OpsTraffic.Reached lib key (fun _ _ _ => True) t → ∀ n, t.runs.count n ≤ 1 := by
  intro honce
  obtain ⟨rest, hloads⟩ := sampleReply_loads fun _ _ _ => True
  have hfirst : OpsTraffic.Reached sampleLibrary "ceo" (fun _ _ _ => True) _ :=
    .start (.init sampleOpsDrafts) sampleCatalogue "ok" 1060
  have hsecond := hfirst.start sampleCatalogue "ok" 1060
  have hloaded := hloads [sampleLoaded rest] [] (hloads [] [sampleReply] hsecond trivial) trivial
  have hcleared := OpsTraffic.Reached.call [] _ [sampleLoaded rest] () hloaded rfl trivial rfl
  have hagain := OpsTraffic.Reached.call [_] (sampleLoaded rest) [] () hcleared rfl trivial rfl
  have hrun := OpsTraffic.Reached.call [] _ [_] samplePaused hagain rfl trivial rfl
  have htwice := OpsTraffic.Reached.call [_] _ [] samplePaused hrun rfl trivial rfl
  have htwo : (2 : ℕ) ≤ 1 := honce sampleLibrary "ceo" _ htwice 0
  exact absurd htwo (by decide)

end ProjectManager
