import Mathlib.Algebra.Ring.Rat
import ProjectManager.Store.Preservation

/-!
# What one operation does to the step rows

`Ledger.Inv.rowsAfter` says it once for all operations: either the rows stay and some of them are
rewritten (`Edits`), or rows of one task come and go, and then no started row goes and all that come
are pending.  `Moves` is what an edit means for the status and the lease of a row, and `Ledger.Inv.stepsAfter`
what an operation means for the rows of one task.  `StoreOp.extends_run` collects what only grows, and
`Ledger.tasksAfter` says what an operation does to the task rows.
-/

namespace ProjectManager

open Table

/-! ### What only grows -/

/-- Snapshots, rows ever inserted and leases only grow. -/
structure Ledger.Extends (l l' : Ledger) : Prop where
  seen : ∀ task ∈ l.seen, task ∈ l'.seen
  ever : ∀ i ∈ l.ever, i ∈ l'.ever
  leases : l.nextAttempt ≤ l'.nextAttempt

theorem Ledger.Extends.refl (l : Ledger) : Ledger.Extends l l :=
  ⟨fun _ h => h, fun _ h => h, le_rfl⟩

theorem Ledger.Extends.commit (l : Ledger) (db : Db) : Ledger.Extends l (l.commit db) :=
  ⟨fun _ h => h, fun _ h => List.mem_append_left _ h, le_rfl⟩

theorem Ledger.Extends.checked (l : Ledger) (r : Except String Db) :
    Ledger.Extends l (StoreOp.checked l r).2 := by
  cases r with
  | error msg =>
      exact .refl l
  | ok db =>
      exact .commit l db

theorem StoreOp.extends_run (rt : Runtime) (o : StoreOp) (l : Ledger) :
    Ledger.Extends l (o.run rt l).2 := by
  cases o with
  | createTask =>
      exact .checked l _
  | setDraftPlan =>
      exact .checked l _
  | insertStep =>
      exact .checked l _
  | get taskId =>
      exact ⟨fun _ h => List.mem_append_left _ h, fun _ h => h, le_rfl⟩
  | listDispatchable =>
      exact ⟨fun _ h => List.mem_append_left _ h, fun _ h => h, le_rfl⟩
  | reserveStep taskId stepId =>
      simp only [StoreOp.run]
      split
      · exact ⟨fun _ h => h, fun _ h => h, Nat.le_succ _⟩
      · exact ⟨fun _ h => h, fun _ h => List.mem_append_left _ h, Nat.le_succ _⟩
  | setAmendmentDraft =>
      simp only [StoreOp.run]
      split
      · exact ⟨fun _ h => h, fun _ h => List.mem_append_left _ h, le_rfl⟩
      · exact ⟨fun _ h => h, fun _ h => h, le_rfl⟩
  | getStep =>
      exact .refl l
  | sumCost =>
      exact .refl l
  | leaseExpired =>
      exact .refl l
  | verifyAttempt =>
      exact .refl l
  | _ =>
      exact .commit l _

/-- A row that enters the record is stored with a new number. -/
theorem StoreOp.mem_ever_run (rt : Runtime) (o : StoreOp) (l : Ledger) {i : StepIdent}
    (hi : i ∈ (o.run rt l).2.ever) : i ∈ l.ever ∨
      ∃ r ∈ (o.run rt l).2.db.steps.rows, l.db.steps.last < r.seq ∧ r.toStepIdent = i := by
  have hchecked : ∀ r : Except String Db, i ∈ (StoreOp.checked l r).2.ever → i ∈ l.ever ∨
      ∃ row ∈ (StoreOp.checked l r).2.db.steps.rows, l.db.steps.last < row.seq ∧ row.toStepIdent = i := by
    intro r hr
    cases r with
    | error msg =>
        exact .inl hr
    | ok db =>
        exact Ledger.mem_ever_commit hr
  cases o with
  | createTask =>
      exact hchecked _ hi
  | setDraftPlan =>
      exact hchecked _ hi
  | insertStep =>
      exact hchecked _ hi
  | get taskId =>
      exact .inl hi
  | listDispatchable =>
      exact .inl hi
  | reserveStep taskId stepId =>
      simp only [StoreOp.run] at hi ⊢
      split at hi
      · exact .inl hi
      · exact Ledger.mem_ever_commit hi
  | setAmendmentDraft =>
      simp only [StoreOp.run] at hi ⊢
      split at hi
      · exact Ledger.mem_ever_commit hi
      · exact .inl hi
  | getStep =>
      exact .inl hi
  | sumCost =>
      exact .inl hi
  | leaseExpired =>
      exact .inl hi
  | verifyAttempt =>
      exact .inl hi
  | _ =>
      exact Ledger.mem_ever_commit hi

/-! ### Rewritten rows -/

/-- How an operation may rewrite a row, in all columns. -/
inductive StoreOp.Edits (l : Ledger) : StoreOp → TeamStep → TeamStep → Prop where
  | same (o : StoreOp) (s : TeamStep) : Edits l o s s
  | reserve {taskId stepId : String} {s : TeamStep} (h : Db.isStep taskId stepId s = true) :
      Edits l (.reserveStep taskId stepId) s (Db.reserved l.nextAttempt l.clock defaultLeaseTtl s)
  | spawn {taskId stepId : String} {s : TeamStep} (pid : ℕ) :
      Edits l (.recordSpawn taskId stepId pid) s { s with childPid := some pid, lastSeen := some l.clock }
  | beat {taskId stepId : String} {s : TeamStep} :
      Edits l (.heartbeat taskId stepId) s
        { s with lastSeen := some l.clock, leaseExpiresAt := some (l.clock + defaultLeaseTtl) }
  | status {taskId stepId : String} {status : StepStatus} {x : Db.StatusExtras} {attemptId : Option AttemptId}
      {s : TeamStep} (h : Db.isAttempt taskId stepId attemptId s = true) :
      Edits l (.setStepStatus taskId stepId status x attemptId) s (Db.withStatus status x s)

/-- How an operation may rewrite a row: not in status and lease, by claiming it, or by a status write
that means it. -/
def StoreOp.Moves (l : Ledger) (o : StoreOp) (s s' : TeamStep) : Prop :=
  s'.toStepIdent = s.toStepIdent ∧
    (s'.status = s.status ∧ s'.attemptId = s.attemptId ∨
      (∃ taskId stepId, o = .reserveStep taskId stepId ∧ s.taskId = taskId ∧ s.stepId = stepId ∧
        s'.status = .running ∧ s'.attemptId = some l.nextAttempt) ∨
      ∃ taskId stepId status x attemptId, o = .setStepStatus taskId stepId status x attemptId ∧
        Db.isAttempt taskId stepId attemptId s = true ∧ s'.status = status ∧ s'.attemptId = s.attemptId)

theorem StoreOp.Edits.moves {l : Ledger} {o : StoreOp} {s s' : TeamStep} (h : o.Edits l s s') : o.Moves l s s' := by
  cases h with
  | same =>
      exact ⟨rfl, .inl ⟨rfl, rfl⟩⟩
  | @reserve taskId stepId _ h =>
      simp only [Db.isStep, Bool.and_eq_true, decide_eq_true_eq] at h
      exact ⟨rfl, .inr (.inl ⟨taskId, stepId, rfl, h.1, h.2, rfl, rfl⟩)⟩
  | spawn =>
      exact ⟨rfl, .inl ⟨rfl, rfl⟩⟩
  | beat =>
      exact ⟨rfl, .inl ⟨rfl, rfl⟩⟩
  | @status taskId stepId status x attemptId _ h =>
      exact ⟨rfl, .inr (.inr ⟨taskId, stepId, status, x, attemptId, rfl, h, rfl, rfl⟩)⟩

/-- The rows stay, some of them rewritten. -/
def StoreOp.Rewrites (o : StoreOp) (l l' : Ledger) : Prop :=
  ∃ g : TeamStep → TeamStep, l'.db.steps.rows = l.db.steps.rows.map g ∧ ∀ s, o.Edits l s (g s)

theorem StoreOp.Rewrites.of_same {o : StoreOp} {l l' : Ledger} (h : l'.db.steps.rows = l.db.steps.rows) :
    o.Rewrites l l' :=
  ⟨id, by simp [h], fun s => .same o s⟩

/-- An update of the rows that match. -/
theorem StoreOp.Rewrites.of_update {o : StoreOp} {l l' : Ledger} {p : TeamStep → Bool} {f : TeamStep → TeamStep}
    (hrows : l'.db.steps.rows = l.db.steps.rows.map fun s => if p s then f s else s)
    (hedits : ∀ s, p s = true → o.Edits l s (f s)) : o.Rewrites l l' := by
  refine ⟨_, hrows, fun s => ?_⟩
  by_cases hs : p s = true
  · simpa only [hs, if_true] using hedits s hs
  · simpa only [hs] using .same o s

/-- Rows of one task come and go: the new ones are pending and confirmed, or one is minted and none goes;
the old ones that go were pending, and a task that has been opened sees this only from a minted row or
with a row still pending. -/
structure StoreOp.Replans (o : StoreOp) (l l' : Ledger) (taskId : String) : Prop where
  rows : ∃ keep : TeamStep → Bool, ∃ new, l'.db.steps.rows = l.db.steps.rows.filter keep ++ new ∧
    (∀ s ∈ new, s.taskId = taskId ∧ s = s.toStepIdent.pendingRow ∧
      (s.systemInserted = false ∨ ∃ d, o = .insertStep taskId d ∧ s = mintedRow taskId d s.seq)) ∧
    (∀ s ∈ l.db.steps.rows, s.status ≠ .pending ∨ s.taskId ≠ taskId → keep s = true) ∧
    ((∀ s ∈ new, s.systemInserted = false) ∨
      (∀ s, keep s = true) ∧ ∃ d, o = .insertStep taskId d ∧ new = [mintedRow taskId d (l.db.steps.last + 1)])
  cause : l.Opened taskId → (∃ d, o = .insertStep taskId d) ∨
    ∃ s ∈ l.db.steps.rows, s.taskId = taskId ∧ s.status = .pending

namespace Ledger

variable {rt : Runtime} {l : Ledger}

theorem Unopened.not_opened {taskId : String} (h : l.Unopened taskId) : ¬ l.Opened taskId := by
  rintro ⟨row, hrow, hid, hopen⟩
  have hclosed := h.unique hrow hid
  rw [hopen] at hclosed
  cases hclosed

theorem replans_setDraftPlan (h : Inv rt l) {taskId planHash : String} {steps : List StepDict} {db' : Db}
    (hclosed : l.Unopened taskId) (hok : l.db.setDraftPlan taskId steps planHash = .ok db') :
    (StoreOp.setDraftPlan taskId steps planHash).Replans l (l.commit db') taskId where
  rows := by
    refine ⟨_, _, (Db.setDraftPlan_ok hok).1, ?_, ?_⟩
    · intro s hs
      obtain ⟨d, -, n, -, -, rfl⟩ := Auto.mem_numbered hs
      exact ⟨rfl, rfl, .inl rfl⟩
    · refine ⟨fun s hs hkept => ?_, .inl fun s hs => ?_⟩
      · by_cases htask : s.taskId = taskId
        · obtain ⟨row, hrow, hid, hstatus⟩ := hclosed
          have hpending := (h.tables.fresh row hrow hstatus s (Db.mem_stepsForTask.2 ⟨hs, by rw [htask, hid]⟩)).1
          rcases hkept with hkept | hkept
          · exact absurd hpending hkept
          · exact absurd htask hkept
        · simp [htask]
      · obtain ⟨d, -, n, -, -, rfl⟩ := Auto.mem_numbered hs
        rfl
  cause := fun hopened => absurd hopened hclosed.not_opened

theorem replans_insertStep {taskId : String} {d : StepDict} {db' : Db}
    (hok : l.db.insertStep taskId d = .ok db') :
    (StoreOp.insertStep taskId d).Replans l (l.commit db') taskId where
  rows := by
    have hrows : db'.steps.rows = l.db.steps.rows.filter (fun _ => true) ++
        [mintedRow taskId d (l.db.steps.last + 1)] := by
      rw [(Db.insertStep_ok hok).1, List.filter_true]
    refine ⟨fun _ => true, _, hrows, ?_, fun _ _ _ => rfl, .inr ⟨fun _ => rfl, d, rfl, rfl⟩⟩
    intro s hs
    obtain rfl := List.mem_singleton.1 hs
    exact ⟨rfl, rfl, .inr ⟨d, rfl, rfl⟩⟩
  cause := fun _ => .inl ⟨d, rfl⟩

theorem replans_confirmAmendment (h : Inv rt l) {draft : AmendmentDraft} {amendmentId : ℕ} {db' : Db}
    (hamended : Db.Amended l.db draft.taskId draft db') :
    (StoreOp.confirmAmendment draft.taskId amendmentId).Replans l (l.commit db') draft.taskId where
  rows := by
    refine ⟨_, _, hamended.rows, ?_, ?_⟩
    · intro s hs
      obtain ⟨d, -, n, -, -, rfl⟩ := Auto.mem_numbered hs
      exact ⟨rfl, rfl, .inl rfl⟩
    · refine ⟨fun s _ hkept => ?_, .inl fun s hs => ?_⟩
      · rcases hkept with hkept | hkept <;> simp [hkept]
      · obtain ⟨d, -, n, -, -, rfl⟩ := Auto.mem_numbered hs
        rfl
  cause := by
    intro _
    right
    obtain ⟨task, -, p, amendment, combined, hfrom, -, -, -, -, hold⟩ := h.drafts draft hamended.mem
    obtain ⟨id, hid⟩ := List.exists_mem_of_ne_nil _ hfrom.pending
    have hmem : id ∈ draft.oldPendingStepIds := by
      rw [hold, hfrom.old, List.mem_insertionSort]
      exact hid
    obtain ⟨s, hs, hstatus⟩ := Option.map_eq_some_iff.1 (hamended.pending id hmem)
    obtain ⟨hstored, htask, -⟩ := Db.getStep_eq_some.1 hs
    exact ⟨s, hstored, htask, hstatus⟩

/-- What an operation does to the step rows. -/
theorem Inv.rowsAfter (h : Inv rt l) {o : StoreOp} (hpre : o.Pre rt l) :
    o.Rewrites l (o.run rt l).2 ∨ ∃ taskId, o.Replans l (o.run rt l).2 taskId := by
  cases o with
  | createTask taskId title request assignedBy picId roomId =>
      simp only [StoreOp.run]
      cases hok : l.db.createTask taskId title request assignedBy picId roomId l.clock with
      | error msg =>
          exact .inl (.of_same rfl)
      | ok db =>
          refine .inl (.of_same ?_)
          unfold Db.createTask at hok
          split at hok
          · cases hok
          split at hok
          · obtain rfl := Except.ok.inj hok
            rfl
          · cases hok
  | setDraftPlan taskId steps planHash =>
      simp only [StoreOp.run]
      cases hok : l.db.setDraftPlan taskId steps planHash with
      | error msg =>
          exact .inl (.of_same rfl)
      | ok db =>
          exact .inr ⟨taskId, replans_setDraftPlan h hpre.1 hok⟩
  | confirmPlan taskId expectedHash =>
      refine .inl (.of_same ?_)
      show (l.db.confirmPlan taskId expectedHash).2.steps.rows = l.db.steps.rows
      unfold Db.confirmPlan
      split <;> rfl
  | insertStep taskId d =>
      simp only [StoreOp.run]
      cases hok : l.db.insertStep taskId d with
      | error msg =>
          exact .inl (.of_same rfl)
      | ok db =>
          exact .inr ⟨taskId, replans_insertStep hok⟩
  | reserveStep taskId stepId =>
      left
      simp only [StoreOp.run]
      split
      · exact .of_same rfl
      · exact .of_update (p := Db.isStep taskId stepId) rfl fun s hs => .reserve hs
  | recordSpawn taskId stepId pid =>
      exact .inl (.of_update (p := Db.isStep taskId stepId) rfl fun s _ => .spawn pid)
  | heartbeat taskId stepId =>
      exact .inl (.of_update (p := Db.isStep taskId stepId) rfl fun s _ => .beat)
  | setStepStatus taskId stepId status x attemptId =>
      exact .inl (.of_update (p := Db.isAttempt taskId stepId attemptId) rfl fun s hs => .status hs)
  | setAmendmentDraft taskId base new newPending oldPending =>
      left
      simp only [StoreOp.run]
      split
      · rename_i db hok
        refine .of_same ?_
        simp only [Db.setAmendmentDraft] at hok
        split at hok
        · obtain rfl := Except.ok.inj hok
          rfl
        · cases hok
      · exact .of_same rfl
  | confirmAmendment taskId amendmentId =>
      by_cases hall : ∀ r, (l.db.confirmAmendment rt taskId amendmentId).1 = .ok r → r.ok = false
      · refine .inl (.of_same ?_)
        show (l.db.confirmAmendment rt taskId amendmentId).2.steps.rows = l.db.steps.rows
        rw [Db.confirmAmendment_kept hall]
      · push Not at hall
        obtain ⟨r, hr, hok⟩ := hall
        obtain ⟨d, -, -, hamended⟩ := Db.confirmAmendment_ok hr (by simpa using hok)
        obtain rfl := hamended.task
        exact .inr ⟨_, replans_confirmAmendment h hamended⟩
  | _ =>
      exact .inl (.of_same rfl)

/-! ### Consequences -/

/-- Where a row comes from, in all columns: it was there and has been edited, or it is new. -/
theorem Inv.rowEdited (h : Inv rt l) {o : StoreOp} (hpre : o.Pre rt l) {s' : TeamStep}
    (hs' : s' ∈ (o.run rt l).2.db.steps.rows) :
    (∃ s ∈ l.db.steps.rows, o.Edits l s s') ∨ s' = s'.toStepIdent.pendingRow := by
  rcases h.rowsAfter hpre with ⟨g, hrows, hedits⟩ | ⟨taskId, ⟨keep, new, hrows, hnew, -⟩, -⟩
  · rw [hrows] at hs'
    obtain ⟨s, hs, rfl⟩ := List.mem_map.1 hs'
    exact .inl ⟨s, hs, hedits s⟩
  · rw [hrows] at hs'
    rcases List.mem_append.1 hs' with hs' | hs'
    · exact .inl ⟨s', (List.mem_filter.1 hs').1, .same o s'⟩
    · exact .inr (hnew s' hs').2.1

/-- Where a row comes from: it was there and has been moved, or it is new and pending. -/
theorem Inv.rowOrigin (h : Inv rt l) {o : StoreOp} (hpre : o.Pre rt l) {s' : TeamStep}
    (hs' : s' ∈ (o.run rt l).2.db.steps.rows) :
    (∃ s ∈ l.db.steps.rows, o.Moves l s s') ∨ s'.status = .pending ∧ s'.attemptId = none := by
  rcases h.rowEdited hpre hs' with ⟨s, hs, hedits⟩ | hnew
  · exact .inl ⟨s, hs, hedits.moves⟩
  · rw [hnew]
    exact .inr ⟨rfl, rfl⟩

/-- Where a row of the record comes from: it was there, it is confirmed, or it has just been minted. -/
theorem Inv.everAfter (h : Inv rt l) {o : StoreOp} (hpre : o.Pre rt l) {i : StepIdent}
    (hi : i ∈ (o.run rt l).2.ever) : i ∈ l.ever ∨ i.systemInserted = false ∨
      ∃ taskId d n, o = .insertStep taskId d ∧ i = (mintedRow taskId d n).toStepIdent := by
  rcases StoreOp.mem_ever_run rt o l hi with hi | ⟨r, hr, hnew, rfl⟩
  · exact .inl hi
  right
  rcases h.rowsAfter hpre with ⟨g, hrows, hedits⟩ | ⟨taskId, ⟨keep, new, hrows, hcome, -⟩, -⟩
  · rw [hrows] at hr
    obtain ⟨s, hs, rfl⟩ := List.mem_map.1 hr
    have hle := l.db.steps.le_last s hs
    rw [congrArg StepIdent.seq (hedits s).moves.1] at hnew
    omega
  · rw [hrows] at hr
    rcases List.mem_append.1 hr with hr | hr
    · have hle := l.db.steps.le_last r (List.mem_filter.1 hr).1
      omega
    · rcases (hcome r hr).2.2 with hsystem | ⟨d, ho, hminted⟩
      · exact .inl hsystem
      · exact .inr ⟨taskId, d, r.seq, ho, congrArg TeamStep.toStepIdent hminted⟩

/-- A started row stays, moved or not. -/
theorem Inv.rowKept (h : Inv rt l) {o : StoreOp} (hpre : o.Pre rt l) {s : TeamStep}
    (hs : s ∈ l.db.steps.rows) (hstarted : s.status ≠ .pending) :
    ∃ s' ∈ (o.run rt l).2.db.steps.rows, o.Moves l s s' := by
  rcases h.rowsAfter hpre with ⟨g, hrows, hedits⟩ | ⟨taskId, ⟨keep, new, hrows, -, hkept, -⟩, -⟩
  · refine ⟨g s, ?_, (hedits s).moves⟩
    rw [hrows]
    exact List.mem_map_of_mem hs
  · refine ⟨s, ?_, (StoreOp.Edits.same o s).moves⟩
    rw [hrows]
    exact List.mem_append_left _ (List.mem_filter.2 ⟨hs, hkept s hs (.inl hstarted)⟩)

/-- A started row stays, and stays started. -/
theorem Inv.startedKept (h : Inv rt l) {o : StoreOp} (hpre : o.Pre rt l) {s : TeamStep}
    (hs : s ∈ l.db.steps.rows) (hstarted : s.status ≠ .pending) :
    ∃ s' ∈ (o.run rt l).2.db.steps.rows, s'.toStepIdent = s.toStepIdent ∧ s'.status ≠ .pending := by
  obtain ⟨s', hs', hident, hmoves⟩ := h.rowKept hpre hs hstarted
  refine ⟨s', hs', hident, ?_⟩
  rcases hmoves with ⟨hstatus, -⟩ | ⟨_, _, -, -, -, hrunning, -⟩ | ⟨_, _, status, _, _, rfl, -, hwritten, -⟩
  · rwa [hstatus]
  · rw [hrunning]
    decide
  · rw [hwritten]
    exact hpre.2

/-- The rows of one task after an operation: they stay and are edited, some pending ones make way for
confirmed ones, or one is minted. -/
theorem Inv.stepsAfter (h : Inv rt l) {o : StoreOp} (hpre : o.Pre rt l) (taskId : String) :
    (∃ g : TeamStep → TeamStep, (o.run rt l).2.db.stepsForTask taskId = (l.db.stepsForTask taskId).map g ∧
        ∀ s, o.Edits l s (g s)) ∨
      (∃ keep : TeamStep → Bool, ∃ new,
        (o.run rt l).2.db.stepsForTask taskId = (l.db.stepsForTask taskId).filter keep ++ new ∧
          (∀ s ∈ l.db.stepsForTask taskId, s.status ≠ .pending → keep s = true) ∧
          (∀ s ∈ new, s = s.toStepIdent.pendingRow ∧ s.systemInserted = false) ∧
          (l.Opened taskId → (∃ d, o = .insertStep taskId d) ∨ ∃ s ∈ l.db.stepsForTask taskId, s.status = .pending)) ∨
      ∃ d, o = .insertStep taskId d ∧ (o.run rt l).2.db.stepsForTask taskId =
        l.db.stepsForTask taskId ++ [mintedRow taskId d (l.db.steps.last + 1)] := by
  unfold Db.stepsForTask
  rcases h.rowsAfter hpre with ⟨g, hrows, hedits⟩ | ⟨taskId', ⟨keep, new, hrows, hnew, hkept, hnewer⟩, hcause⟩
  · refine .inl ⟨g, ?_, hedits⟩
    rw [hrows, map_ident fun s => (hedits s).moves.1]
  rw [hrows, List.filter_append]
  by_cases htask : taskId' = taskId
  · subst htask
    have hall : new.filter (fun s => decide (s.taskId = taskId')) = new := by
      rw [List.filter_eq_self]
      intro s hs
      simpa using (hnew s hs).1
    rw [hall, List.filter_filter]
    rcases hnewer with hconfirmed | ⟨hkeep, d, ho, rfl⟩
    · refine .inr (.inl ⟨keep, new, ?_, fun s hs hstarted => ?_, fun s hs => ⟨(hnew s hs).2.1, hconfirmed s hs⟩, ?_⟩)
      · rw [List.filter_filter]
        congr 2
        funext s
        rw [Bool.and_comm]
      · exact hkept s (List.mem_filter.1 hs).1 (.inl hstarted)
      · intro hopened
        rcases hcause hopened with hmint | ⟨s, hs, hid, hpending⟩
        · exact .inl hmint
        · exact .inr ⟨s, List.mem_filter.2 ⟨hs, by simpa using hid⟩, hpending⟩
    · refine .inr (.inr ⟨d, ho, ?_⟩)
      congr 1
      refine List.filter_congr fun s _ => ?_
      simp [hkeep s]
  · refine .inl ⟨id, ?_, fun s => .same o s⟩
    have hnone : new.filter (fun s => decide (s.taskId = taskId)) = [] := by
      rw [List.filter_eq_nil_iff]
      intro s hs
      simp [(hnew s hs).1, htask]
    rw [hnone, List.append_nil, List.filter_filter, List.map_id]
    refine List.filter_congr fun s hs => ?_
    by_cases hs' : s.taskId = taskId
    · have hkeep := hkept s hs (.inr (by
        rw [hs']
        exact Ne.symm htask))
      simp [hs', hkeep]
    · simp [hs']

/-- The rows of an opened task without pending rows neither come nor go, unless one is minted. -/
theorem Inv.rowsSettled (h : Inv rt l) {o : StoreOp} (hpre : o.Pre rt l) {taskId : String}
    (hopened : l.Opened taskId) (hstarted : ∀ s ∈ l.db.stepsForTask taskId, s.status ≠ .pending)
    (hmint : ∀ d, o ≠ .insertStep taskId d) :
    ∃ g : TeamStep → TeamStep, (o.run rt l).2.db.stepsForTask taskId = (l.db.stepsForTask taskId).map g ∧
      ∀ s, o.Moves l s (g s) := by
  rcases h.stepsAfter hpre taskId with ⟨g, hrows, hedits⟩ | ⟨_, _, -, -, -, hcause⟩ | ⟨d, ho, -⟩
  · exact ⟨g, hrows, fun s => (hedits s).moves⟩
  · rcases hcause hopened with ⟨d, ho⟩ | ⟨s, hs, hpending⟩
    · exact absurd ho (hmint d)
    · exact absurd hpending (hstarted s hs)
  · exact absurd ho (hmint d)

end Ledger

/-! ### Task rows -/

/-- What an operation adds to the steps' total of a task: the cost of a status write that is accepted. -/
def StoreOp.stepCharge (l : Ledger) (taskId : String) : StoreOp → ℚ
  | .setStepStatus t stepId _ x attemptId =>
      if t = taskId ∧ l.db.steps.rows.any (Db.isAttempt t stepId attemptId) = true then x.costUsd.getD 0 else 0
  | _ => 0

/-- What an operation records at the level of a task. -/
def StoreOp.taskCharge (taskId : String) : StoreOp → ℚ
  | .recordTaskCost t decompose aggregate => if t = taskId then decompose.getD 0 + aggregate.getD 0 else 0
  | _ => 0

/-- How an operation may rewrite a task row: the status of an opened task only when it is told so, the
costs by what it charges. -/
structure StoreOp.Updates (l : Ledger) (o : StoreOp) (row row' : TaskRow) : Prop where
  id : row'.id = row.id
  status : row'.status = row.status ∨ row.status = .planning ∨ o = .setTaskStatus row.id row'.status
  total : row'.costUsdTotal = row.costUsdTotal + o.stepCharge l row.id
  recorded : row'.decomposeCostUsd + row'.aggregateCostUsd =
    row.decomposeCostUsd + row.aggregateCostUsd + o.taskCharge row.id

theorem StoreOp.Updates.refl {l : Ledger} {o : StoreOp} {row : TaskRow} (hstep : o.stepCharge l row.id = 0)
    (htask : o.taskCharge row.id = 0) : o.Updates l row row :=
  ⟨rfl, .inl rfl, by rw [hstep, add_zero], by rw [htask, add_zero]⟩

/-- The task rows stay, some of them rewritten. -/
def StoreOp.UpdatesAll (o : StoreOp) (l l' : Ledger) : Prop :=
  ∃ g : TaskRow → TaskRow, l'.db.tasks.rows = l.db.tasks.rows.map g ∧ ∀ row ∈ l.db.tasks.rows, o.Updates l row (g row)

theorem StoreOp.UpdatesAll.of_same {o : StoreOp} {l l' : Ledger} (h : l'.db.tasks.rows = l.db.tasks.rows)
    (hstep : ∀ taskId, o.stepCharge l taskId = 0) (htask : ∀ taskId, o.taskCharge taskId = 0) : o.UpdatesAll l l' :=
  ⟨id, by simp [h], fun _ _ => .refl (hstep _) (htask _)⟩

/-- An update of the rows that match. -/
theorem StoreOp.UpdatesAll.of_update {o : StoreOp} {l l' : Ledger} {p : TaskRow → Bool} {f : TaskRow → TaskRow}
    (hrows : l'.db.tasks.rows = l.db.tasks.rows.map fun row => if p row then f row else row)
    (hhit : ∀ row ∈ l.db.tasks.rows, p row = true → o.Updates l row (f row))
    (hmiss : ∀ row ∈ l.db.tasks.rows, p row = false → o.stepCharge l row.id = 0 ∧ o.taskCharge row.id = 0) :
    o.UpdatesAll l l' := by
  refine ⟨_, hrows, fun row hrow => ?_⟩
  by_cases hp : p row = true
  · simpa only [hp, if_true] using hhit row hrow hp
  · obtain ⟨hstep, htask⟩ := hmiss row hrow (by simpa using hp)
    simpa only [hp] using .refl hstep htask

namespace Ledger

variable {rt : Runtime} {l : Ledger}

/-- A new plan hash of one task. -/
theorem updatesAll_setPlanHash {o : StoreOp} {taskId planHash : String} (l' : Ledger)
    (htasks : l'.db.tasks = (l.db.setPlanHash taskId planHash).tasks) (hstep : ∀ taskId, o.stepCharge l taskId = 0)
    (htask : ∀ taskId, o.taskCharge taskId = 0) : o.UpdatesAll l l' := by
  refine .of_update (p := fun r => decide (r.id = taskId)) (f := fun r => { r with planHash := some planHash }) ?_
    (fun row _ _ => ?_) fun row _ _ => ⟨hstep _, htask _⟩
  · rw [htasks]
    rfl
  · exact ⟨rfl, .inl rfl, by rw [hstep, add_zero], by rw [htask, add_zero]⟩

/-- What an operation does to the task rows: they stay, some of them rewritten, or a new one comes. -/
theorem tasksAfter (rt : Runtime) (l : Ledger) (o : StoreOp) : o.UpdatesAll l (o.run rt l).2 ∨
    ∃ new : TaskRow, (o.run rt l).2.db.tasks.rows = l.db.tasks.rows ++ [new] ∧ (∀ row ∈ l.db.tasks.rows, row.id ≠ new.id) ∧
      new.status = .planning ∧ new.costUsdTotal = 0 ∧ new.decomposeCostUsd = 0 ∧ new.aggregateCostUsd = 0 ∧
        (∀ taskId, o.stepCharge l taskId = 0) ∧ ∀ taskId, o.taskCharge taskId = 0 := by
  cases o with
  | createTask taskId title request assignedBy picId roomId =>
      simp only [StoreOp.run]
      cases hok : l.db.createTask taskId title request assignedBy picId roomId l.clock with
      | error msg =>
          exact .inl (.of_same rfl (fun _ => rfl) fun _ => rfl)
      | ok db =>
          right
          unfold Db.createTask at hok
          split at hok
          · cases hok
          split at hok
          · rename_i tasks hinsert
            obtain rfl := Except.ok.inj hok
            obtain ⟨hfree, hrows⟩ := Keyed.insert?_eq_some hinsert
            refine ⟨_, hrows, fun row hrow heq => hfree ?_, rfl, rfl, rfl, rfl, fun _ => rfl, fun _ => rfl⟩
            exact List.mem_map.2 ⟨row, hrow, heq⟩
          · cases hok
  | setDraftPlan taskId steps planHash =>
      left
      simp only [StoreOp.run]
      cases hok : l.db.setDraftPlan taskId steps planHash with
      | error msg =>
          exact .of_same rfl (fun _ => rfl) fun _ => rfl
      | ok db =>
          exact updatesAll_setPlanHash (l.commit db) (Db.setDraftPlan_ok hok).2.2.1 (fun _ => rfl) fun _ => rfl
  | confirmPlan taskId expectedHash =>
      left
      by_cases hok : l.db.confirmable taskId expectedHash = true
      · have hrun : ((StoreOp.confirmPlan taskId expectedHash).run rt l).2.db.tasks.rows =
            (l.db.setTaskStatus taskId .opened).tasks.rows := by
          simp [StoreOp.run, Db.confirmPlan, hok, Ledger.commit]
        refine .of_update (p := fun r => decide (r.id = taskId)) hrun (fun row hrow hp => ?_) fun _ _ _ => ⟨rfl, rfl⟩
        have hplanning : row.status = .planning := by
          unfold Db.confirmable at hok
          cases hfind : l.db.tasks.find? taskId with
          | none =>
              simp [hfind] at hok
          | some found =>
              simp only [hfind, Bool.and_eq_true, decide_eq_true_eq] at hok
              obtain ⟨hmem, hid⟩ := Keyed.find?_eq_some.1 hfind
              rw [eq_of_key l.db.tasks.nodup hrow hmem ((of_decide_eq_true hp).trans hid.symm)]
              exact hok.1
        exact ⟨rfl, .inr (.inl hplanning), (add_zero _).symm, (add_zero _).symm⟩
      · refine .of_same ?_ (fun _ => rfl) fun _ => rfl
        simp [StoreOp.run, Db.confirmPlan, hok, Ledger.commit]
  | cancelDraft taskId =>
      refine .inl (.of_update (p := fun r => decide (r.id = taskId) && decide (r.status = .planning)) rfl
        (fun row _ hp => ?_) fun _ _ _ => ⟨rfl, rfl⟩)
      simp only [Bool.and_eq_true, decide_eq_true_eq] at hp
      exact ⟨rfl, .inr (.inl hp.2), (add_zero _).symm, (add_zero _).symm⟩
  | setTaskStatus taskId status =>
      refine .inl (.of_update (p := fun r => decide (r.id = taskId)) rfl (fun row _ hp => ?_) fun _ _ _ => ⟨rfl, rfl⟩)
      obtain rfl := of_decide_eq_true hp
      exact ⟨rfl, .inr (.inr rfl), (add_zero _).symm, (add_zero _).symm⟩
  | recordTaskCost taskId decompose aggregate =>
      refine .inl (.of_update (p := fun r => decide (r.id = taskId)) rfl (fun row _ hp => ?_) fun row _ hp => ?_)
      · obtain rfl := of_decide_eq_true hp
        refine ⟨rfl, .inl rfl, (add_zero _).symm, ?_⟩
        simp only [StoreOp.taskCharge, if_true]
        exact add_add_add_comm _ _ _ _
      · have hother : taskId ≠ row.id := Ne.symm (of_decide_eq_false hp)
        exact ⟨rfl, by simp [StoreOp.taskCharge, hother]⟩
  | setStepStatus taskId stepId status x attemptId =>
      refine .inl (.of_update (p := fun r => l.db.steps.rows.any (Db.isAttempt taskId stepId attemptId) &&
        decide (r.id = taskId)) rfl (fun row _ hp => ?_) fun row _ hp => ?_)
      · simp only [Bool.and_eq_true, decide_eq_true_eq] at hp
        refine ⟨rfl, .inl rfl, ?_, (add_zero _).symm⟩
        simp only [StoreOp.stepCharge]
        rw [if_pos ⟨hp.2.symm, hp.1⟩]
      · refine ⟨?_, rfl⟩
        simp only [StoreOp.stepCharge]
        rw [if_neg]
        rintro ⟨rfl, hany⟩
        simp [hany] at hp
  | reserveStep taskId stepId =>
      left
      simp only [StoreOp.run]
      split
      · exact .of_same rfl (fun _ => rfl) fun _ => rfl
      · exact .of_same rfl (fun _ => rfl) fun _ => rfl
  | insertStep taskId d =>
      left
      simp only [StoreOp.run]
      cases hok : l.db.insertStep taskId d with
      | error msg =>
          exact .of_same rfl (fun _ => rfl) fun _ => rfl
      | ok db =>
          refine .of_same ?_ (fun _ => rfl) fun _ => rfl
          unfold Db.insertStep at hok
          split at hok
          · obtain rfl := Except.ok.inj hok
            rfl
          · cases hok
  | setAmendmentDraft taskId base new newPending oldPending =>
      left
      simp only [StoreOp.run]
      split
      · rename_i db hok
        refine .of_same ?_ (fun _ => rfl) fun _ => rfl
        simp only [Db.setAmendmentDraft] at hok
        split at hok
        · obtain rfl := Except.ok.inj hok
          rfl
        · cases hok
      · exact .of_same rfl (fun _ => rfl) fun _ => rfl
  | confirmAmendment taskId amendmentId =>
      left
      by_cases hall : ∀ r, (l.db.confirmAmendment rt taskId amendmentId).1 = .ok r → r.ok = false
      · refine .of_same ?_ (fun _ => rfl) fun _ => rfl
        show (l.db.confirmAmendment rt taskId amendmentId).2.tasks.rows = l.db.tasks.rows
        rw [Db.confirmAmendment_kept hall]
      · push Not at hall
        obtain ⟨r, hr, hok⟩ := hall
        obtain ⟨draft, -, -, hamended⟩ := Db.confirmAmendment_ok hr (by simpa using hok)
        exact updatesAll_setPlanHash ((StoreOp.confirmAmendment taskId amendmentId).run rt l).2 hamended.tasks
          (fun _ => rfl) fun _ => rfl
  | _ =>
      exact .inl (.of_same rfl (fun _ => rfl) fun _ => rfl)

end Ledger

end ProjectManager
