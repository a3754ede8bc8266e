import ProjectManager.Store.Schema

/-!
# Statements on step rows

The functions of `team_task_steps`: claiming a step, the worker's and the ticker's status writes, the
rows that a plan, a review or an amendment inserts.  `setStepStatus` is guarded by an attempt id when
one is given; `reserveStep` is not guarded at all.
-/

namespace ProjectManager

open Table

/-- The text of a refused insert into `team_steps`. -/
def stepKeyTaken : String :=
  "UNIQUE constraint failed: team_steps.task_id, team_steps.step_id"

/-! ### Inserted rows -/

/-- A row in the state in which every insert leaves it. -/
def StepIdent.pendingRow (i : StepIdent) : TeamStep where
  toStepIdent := i
  status := .pending
  outcomeRef := none
  costUsd := none
  attemptId := none
  childPid := none
  spawnedAt := none
  lastSeen := none
  leaseExpiresAt := none
  approvalId := none

/-- The row that `replace_steps` and `swap_pending_steps` insert: part of the confirmed plan. -/
def confirmedRow (taskId : String) (d : StepDict) (seq : ℕ) : TeamStep :=
  StepIdent.pendingRow
    { stepId := d.stepId
      title := d.title
      assignedTo := d.assignedTo
      deps := d.deps
      seq := seq
      taskId := taskId
      acceptance := d.acceptance
      stepType := d.stepType.getD .work
      needsReview := d.needsReview
      systemInserted := false
      parentStepId := none
      reviewRound := 0 }

/-- The row that `insert_step` appends: minted by the ticker, never itself up for review. -/
def mintedRow (taskId : String) (d : StepDict) (seq : ℕ) : TeamStep :=
  StepIdent.pendingRow
    { stepId := d.stepId
      title := d.title
      assignedTo := d.assignedTo
      deps := d.deps
      seq := seq
      taskId := taskId
      acceptance := d.acceptance
      stepType := d.stepType.getD .review
      needsReview := false
      systemInserted := true
      parentStepId := d.parentStepId
      reviewRound := d.reviewRound }

section Rows

variable (taskId : String) (d : StepDict) (n : ℕ)

@[simp] theorem confirmedRow_taskId : (confirmedRow taskId d n).taskId = taskId := rfl
@[simp] theorem confirmedRow_seq : (confirmedRow taskId d n).seq = n := rfl
@[simp] theorem confirmedRow_fields : (confirmedRow taskId d n).toStepFields = d.fields := rfl
@[simp] theorem confirmedRow_status : (confirmedRow taskId d n).status = .pending := rfl
@[simp] theorem confirmedRow_system : (confirmedRow taskId d n).systemInserted = false := rfl
@[simp] theorem mintedRow_taskId : (mintedRow taskId d n).taskId = taskId := rfl
@[simp] theorem mintedRow_seq : (mintedRow taskId d n).seq = n := rfl
@[simp] theorem mintedRow_status : (mintedRow taskId d n).status = .pending := rfl
@[simp] theorem mintedRow_system : (mintedRow taskId d n).systemInserted = true := rfl
@[simp] theorem mintedRow_stepType : (mintedRow taskId d n).stepType = d.stepType.getD .review := rfl

end Rows

namespace Db

/-- Inserts the confirmed rows of a list of steps. -/
def insertConfirmed (taskId : String) (steps : List StepDict) (table : StepTable) : Option StepTable :=
  Auto.insertAll? (confirmedRow taskId) (fun _ _ => rfl) steps table

/-- `replace_steps`: the task's rows give way to the plan's. -/
def replaceSteps (db : Db) (taskId : String) (steps : List StepDict) : Option Db :=
  (insertConfirmed taskId steps (db.steps.deleteWhere fun s => decide (s.taskId = taskId))).map fun table =>
    { db with steps := table }

/-- `insert_step`. -/
def insertStep (db : Db) (taskId : String) (d : StepDict) : Except String Db :=
  match db.steps.insert? (mintedRow taskId d) fun _ => rfl with
  | some table => .ok { db with steps := table }
  | none => .error stepKeyTaken

/-! ### Changed rows -/

/-- The row that a statement with this `WHERE` clause means. -/
def isStep (taskId stepId : String) (s : TeamStep) : Bool :=
  decide (s.taskId = taskId) && decide (s.stepId = stepId)

/-- A guarded statement also asks for the attempt. -/
def isAttempt (taskId stepId : String) (attemptId : Option AttemptId) (s : TeamStep) : Bool :=
  isStep taskId stepId s && attemptId.all fun a => decide (s.attemptId = some a)

/-- Changes the mutable columns of the rows that match. -/
def updateSteps (db : Db) (p : TeamStep → Bool) (f : TeamStep → TeamStep)
    (hf : ∀ s, (f s).toStepIdent = s.toStepIdent) : Db :=
  { db with
    steps := db.steps.updateWhere p f (fun s => congrArg StepIdent.seq (hf s))
      fun s => congrArg (fun i : StepIdent => (i.taskId, i.stepId)) (hf s) }

/-- A row as `reserve_step` leaves it. -/
def reserved (attemptId : AttemptId) (now : Time) (leaseTtl : ℕ) (s : TeamStep) : TeamStep :=
  { s with
    status := .running
    attemptId := some attemptId
    spawnedAt := some now
    lastSeen := some now
    leaseExpiresAt := some (now + leaseTtl)
    approvalId := none }

/-- `reserve_step`: always claims. -/
def reserveStep (db : Db) (taskId stepId : String) (attemptId : AttemptId) (now : Time) (leaseTtl : ℕ) : Db :=
  db.updateSteps (isStep taskId stepId) (reserved attemptId now leaseTtl) fun _ => rfl

/-- `record_spawn`. -/
def recordSpawn (db : Db) (taskId stepId : String) (pid : ℕ) (now : Time) : Db :=
  db.updateSteps (isStep taskId stepId) (fun s => { s with childPid := some pid, lastSeen := some now })
    fun _ => rfl

/-- `heartbeat`. -/
def heartbeat (db : Db) (taskId stepId : String) (now : Time) (leaseTtl : ℕ) : Db :=
  db.updateSteps (isStep taskId stepId)
    (fun s => { s with lastSeen := some now, leaseExpiresAt := some (now + leaseTtl) }) fun _ => rfl

/-- The optional columns of a status write; a missing value leaves the column (`COALESCE`). -/
structure StatusExtras where
  outcomeRef : Option String := none
  costUsd : Option ℚ := none
  approvalId : Option ℕ := none
deriving DecidableEq, Repr

/-- A row as `set_step_status` leaves it. -/
def withStatus (status : StepStatus) (x : StatusExtras) (s : TeamStep) : TeamStep :=
  { s with
    status := status
    outcomeRef := x.outcomeRef <|> s.outcomeRef
    costUsd := x.costUsd <|> s.costUsd
    approvalId := x.approvalId <|> s.approvalId }

/-- `set_step_status`: whether a row was written, and the tables after it. -/
def setStepStatus (db : Db) (taskId stepId : String) (status : StepStatus) (x : StatusExtras)
    (attemptId : Option AttemptId) : Bool × Db :=
  let written := db.steps.rows.any (isAttempt taskId stepId attemptId)
  let db' := db.updateSteps (isAttempt taskId stepId attemptId) (withStatus status x) fun _ => rfl
  (written,
    { db' with
      tasks := db'.tasks.updateWhere (fun task => written && decide (task.id = taskId))
        (fun task => { task with costUsdTotal := task.costUsdTotal + x.costUsd.getD 0 }) fun _ => rfl })

/-! ### The swap of an amendment -/

/-- The statuses that `swap_pending_steps` reads before it deletes. -/
def currentStatus (db : Db) (taskId stepId : String) : Option StepStatus :=
  (db.getStep taskId stepId).map fun s => s.status

/-- The deletions of `swap_pending_steps`: the ids it had to skip, and the table after it. -/
def swapDelete (taskId : String) (current : String → Option StepStatus) :
    List String → StepTable → List String × StepTable
  | [], table => ([], table)
  | id :: ids, table =>
      let gone := fun s : TeamStep => isStep taskId id s && decide (s.status = .pending)
      if current id = some .pending ∧ table.rows.any gone then
        swapDelete taskId current ids (table.deleteWhere gone)
      else
        let rest := swapDelete taskId current ids table
        (id :: rest.1, rest.2)

/-- `swap_pending_steps`: the skipped ids and, when there are none, the tables with the new rows. -/
def swapPendingSteps (db : Db) (taskId : String) (newPending : List StepDict) (expected : List String) :
    Except String (List String × Db) :=
  let swap := swapDelete taskId (db.currentStatus taskId) expected db.steps
  if swap.1 ≠ [] then
    .ok (swap.1.insertionSort (· ≤ ·), db)
  else
    match insertConfirmed taskId newPending swap.2 with
    | some table => .ok ([], { db with steps := table })
    | none => .error stepKeyTaken

/-! ### What the statements do -/

@[simp] theorem updateSteps_tasks {db : Db} {p : TeamStep → Bool} {f : TeamStep → TeamStep}
    {hf : ∀ s, (f s).toStepIdent = s.toStepIdent} : (db.updateSteps p f hf).tasks = db.tasks :=
  rfl

@[simp] theorem updateSteps_amendments {db : Db} {p : TeamStep → Bool} {f : TeamStep → TeamStep}
    {hf : ∀ s, (f s).toStepIdent = s.toStepIdent} : (db.updateSteps p f hf).amendments = db.amendments :=
  rfl

theorem updateSteps_rows {db : Db} {p : TeamStep → Bool} {f : TeamStep → TeamStep}
    {hf : ∀ s, (f s).toStepIdent = s.toStepIdent} :
    (db.updateSteps p f hf).steps.rows = db.steps.rows.map fun s => if p s then f s else s :=
  rfl

@[simp] theorem setStepStatus_amendments {db : Db} {taskId stepId : String} {status : StepStatus}
    {x : StatusExtras} {attemptId : Option AttemptId} :
    (db.setStepStatus taskId stepId status x attemptId).2.amendments = db.amendments :=
  rfl

theorem setStepStatus_rows {db : Db} {taskId stepId : String} {status : StepStatus} {x : StatusExtras}
    {attemptId : Option AttemptId} :
    (db.setStepStatus taskId stepId status x attemptId).2.steps.rows =
      db.steps.rows.map fun s =>
        if isAttempt taskId stepId attemptId s then withStatus status x s else s :=
  rfl

/-- The rows of a task after a change of mutable columns. -/
theorem stepsForTask_updateSteps {db : Db} {p : TeamStep → Bool} {f : TeamStep → TeamStep}
    {hf : ∀ s, (f s).toStepIdent = s.toStepIdent} (taskId : String) :
    (db.updateSteps p f hf).stepsForTask taskId =
      (db.stepsForTask taskId).map fun s => if p s then f s else s := by
  unfold stepsForTask
  rw [updateSteps_rows, List.filter_map]
  congr 1
  refine List.filter_congr fun s _ => ?_
  have htask : (f s).taskId = s.taskId := congrArg StepIdent.taskId (hf s)
  by_cases hp : p s = true <;> simp [hp, htask]

/-- When `swap_pending_steps` skips nothing, it has deleted exactly the expected rows, and all of them
were pending. -/
theorem swapDelete_nil {taskId : String} {current : String → Option StepStatus} {ids : List String}
    {table : StepTable} (h : (swapDelete taskId current ids table).1 = []) :
    (∀ id ∈ ids, current id = some .pending) ∧
      (swapDelete taskId current ids table).2.last = table.last ∧
      (swapDelete taskId current ids table).2.rows =
        table.rows.filter fun s =>
          !(decide (s.taskId = taskId) && decide (s.stepId ∈ ids) && decide (s.status = .pending)) := by
  induction ids generalizing table with
  | nil =>
      simp [swapDelete]
  | cons id ids ih =>
      simp only [swapDelete] at h ⊢
      split at h
      case isTrue hpending =>
        rw [if_pos hpending]
        obtain ⟨hcurrent, hlast, hrows⟩ := ih h
        refine ⟨?_, hlast, ?_⟩
        · intro x hx
          rcases List.mem_cons.1 hx with rfl | hx
          · exact hpending.1
          · exact hcurrent x hx
        · rw [hrows, Auto.deleteWhere, List.filter_filter]
          refine List.filter_congr fun s _ => ?_
          simp only [isStep, List.mem_cons]
          by_cases htask : s.taskId = taskId <;> by_cases hid : s.stepId = id <;>
            by_cases hin : s.stepId ∈ ids <;> by_cases hst : s.status = .pending <;>
            simp_all
      case isFalse =>
        simp at h

/-- What `insert_step` has done when it has not raised. -/
theorem insertStep_ok {db db' : Db} {taskId : String} {d : StepDict} (h : db.insertStep taskId d = .ok db') :
    db'.steps.rows = db.steps.rows ++ [mintedRow taskId d (db.steps.last + 1)] ∧ db'.steps.last = db.steps.last + 1 ∧
      db'.tasks = db.tasks := by
  unfold Db.insertStep at h
  split at h
  · rename_i table hinsert
    obtain rfl := Except.ok.inj h
    obtain ⟨-, hrows, hlast⟩ := Auto.insert?_eq_some hinsert
    exact ⟨hrows, hlast, rfl⟩
  · cases h

/-- The rows of a task after a row was minted. -/
theorem stepsForTask_insertStep {db db' : Db} {taskId : String} {d : StepDict} (h : db.insertStep taskId d = .ok db')
    (t : String) : db'.stepsForTask t =
      db.stepsForTask t ++ if taskId = t then [mintedRow taskId d (db.steps.last + 1)] else [] := by
  unfold stepsForTask
  rw [(insertStep_ok h).1, List.filter_append]
  congr 1
  by_cases ht : taskId = t
  · simp [ht]
  · simp [ht]

/-- A minted row is refused exactly when its id is taken. -/
theorem insertStep_taken {db : Db} {taskId : String} {d : StepDict} :
    (∃ msg, db.insertStep taskId d = .error msg) ↔ ∃ row ∈ db.steps.rows, row.taskId = taskId ∧ row.stepId = d.stepId := by
  have hkey : (mintedRow taskId d (db.steps.last + 1)).key ∈ db.steps.rows.map TeamStep.key ↔
      ∃ row ∈ db.steps.rows, row.taskId = taskId ∧ row.stepId = d.stepId := by
    rw [List.mem_map]
    constructor
    · rintro ⟨row, hrow, hkey⟩
      exact ⟨row, hrow, congrArg Prod.fst hkey, congrArg Prod.snd hkey⟩
    · rintro ⟨row, hrow, htask, hid⟩
      exact ⟨row, hrow, Prod.ext htask hid⟩
  unfold Db.insertStep
  cases hinsert : db.steps.insert? (mintedRow taskId d) fun _ => rfl with
  | none =>
      simp only [Except.error.injEq, exists_eq', true_iff]
      exact hkey.1 (Auto.insert?_eq_none.1 hinsert)
  | some table =>
      simp only [reduceCtorEq, exists_false, false_iff]
      exact fun htaken => (Auto.insert?_eq_some hinsert).1 (hkey.2 htaken)

end Db

end ProjectManager
