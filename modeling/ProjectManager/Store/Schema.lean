import Mathlib.Algebra.Ring.Rat
import Mathlib.Data.List.Sort
import ProjectManager.Lib.Table

/-!
# The tables of the team-task store

`team_tasks`, `team_steps` and `team_task_amendments`.  A step row splits into the columns that are
written once, when the row is inserted (`StepIdent`), and those that the ticker and the workers
change (`TeamStep`).  Money is exact, and the identifiers drawn from `uuid4` are numbers that are
never drawn twice.
-/

namespace ProjectManager

open Table

/-! ### Statuses -/

/-- `STEP_STATUSES`. -/
inductive StepStatus where
  | pending | running | awaitingApproval | done | failed | timeout
deriving DecidableEq, Repr

/-- `_TASK_STATUSES`; `opened` is the status `open`. -/
inductive TaskStatus where
  | planning | opened | running | done | cancelled | stalled
deriving DecidableEq, Repr

/-- The values of the column `step_type`. -/
inductive StepType where
  | work | review | rework
deriving DecidableEq, Repr

/-- `_AMENDMENT_STATUSES`. -/
inductive AmendmentStatus where
  | draft | confirmed | cancelled | expired | stale
deriving DecidableEq, Repr

/-- The text of a status in room messages. -/
def StepStatus.text : StepStatus → String
  | .pending => "pending"
  | .running => "running"
  | .awaitingApproval => "awaiting_approval"
  | .done => "done"
  | .failed => "failed"
  | .timeout => "timeout"

/-- `_DISPATCHABLE_TASK_STATUSES`. -/
def TaskStatus.dispatchable : TaskStatus → Bool
  | .opened => true
  | .running => true
  | _ => false

/-- The ticker may have seen the task: it has been opened at some time. -/
def TaskStatus.everOpened : TaskStatus → Bool
  | .planning => false
  | .cancelled => false
  | _ => true

theorem TaskStatus.everOpened_of_dispatchable {s : TaskStatus} (h : s.dispatchable = true) :
    s.everOpened = true := by
  cases s <;> simp_all [dispatchable, everOpened]

/-! ### Rows -/

/-- A lease token (`uuid4().hex`). -/
abbrev AttemptId := ℕ

/-- A moment, in seconds. -/
abbrev Time := ℕ

/-- What the plan hash reads of a step. -/
structure StepFields where
  stepId : String
  title : String
  assignedTo : String
  deps : List String
deriving DecidableEq, Repr

/-- The columns of a step row that no statement changes once the row is inserted. -/
structure StepIdent extends StepFields where
  seq : ℕ
  taskId : String
  acceptance : String
  stepType : StepType
  needsReview : Bool
  systemInserted : Bool
  parentStepId : Option String
  reviewRound : ℕ
deriving DecidableEq, Repr

/-- A row of `team_steps`. -/
structure TeamStep extends StepIdent where
  status : StepStatus
  outcomeRef : Option String
  costUsd : Option ℚ
  attemptId : Option AttemptId
  childPid : Option ℕ
  spawnedAt : Option Time
  lastSeen : Option Time
  leaseExpiresAt : Option Time
  approvalId : Option ℕ
deriving DecidableEq, Repr

/-- The unique key of `team_steps`. -/
def TeamStep.key (s : TeamStep) : String × String :=
  (s.taskId, s.stepId)

/-- A row of `team_tasks`. -/
structure TaskRow where
  id : String
  title : String
  originalRequest : String
  status : TaskStatus
  createdAt : Time
  assignedBy : String
  costUsdTotal : ℚ
  planHash : Option String
  decomposeCostUsd : ℚ
  aggregateCostUsd : ℚ
  picId : String
  roomId : String
deriving DecidableEq, Repr

/-- `TeamTask`: a task row with its step rows in `seq` order, as one read of the store returns it. -/
structure TeamTask extends TaskRow where
  steps : List TeamStep
deriving DecidableEq, Repr

/-- The dict that describes one step to insert, with the defaults of its `get` calls. -/
structure StepDict where
  stepId : String
  title : String := ""
  assignedTo : String := ""
  deps : List String := []
  acceptance : String := ""
  stepType : Option StepType := none
  needsReview : Bool := false
  parentStepId : Option String := none
  reviewRound : ℕ := 0
deriving DecidableEq, Repr

/-- What the plan hash reads of the row that a dict makes. -/
def StepDict.fields (d : StepDict) : StepFields where
  stepId := d.stepId
  title := d.title
  assignedTo := d.assignedTo
  deps := d.deps

/-- A row of `team_task_amendments`. -/
structure AmendmentDraft where
  amendmentId : ℕ
  taskId : String
  basePlanHash : String
  newPlanHash : String
  newPendingSteps : List StepDict
  oldPendingStepIds : List String
  status : AmendmentStatus
  createdAt : Time
deriving DecidableEq, Repr

/-- The step table. -/
abbrev StepTable :=
  Auto TeamStep (String × String) (fun s => s.seq) TeamStep.key

/-- The store's three tables. -/
structure Db where
  tasks : Keyed TaskRow String TaskRow.id
  steps : StepTable
  amendments : Keyed AmendmentDraft ℕ AmendmentDraft.amendmentId

/-- The store before its first task. -/
def Db.empty : Db where
  tasks := .empty
  steps := .empty
  amendments := .empty

/-! ### Reads -/

namespace Db

/-- `steps_for_task`: the rows of a task in `seq` order. -/
def stepsForTask (db : Db) (taskId : String) : List TeamStep :=
  db.steps.rows.filter fun s => decide (s.taskId = taskId)

/-- `TeamTaskStore.get`. -/
def get (db : Db) (taskId : String) : Option TeamTask :=
  (db.tasks.find? taskId).map fun row => ⟨row, db.stepsForTask taskId⟩

/-- `get_step`. -/
def getStep (db : Db) (taskId stepId : String) : Option TeamStep :=
  db.steps.find? (taskId, stepId)

/-- `list_dispatchable`: the tasks the ticker may act on, oldest first. -/
def listDispatchable (db : Db) : List TeamTask :=
  ((db.tasks.rows.filter fun row : TaskRow => row.status.dispatchable).insertionSort
    fun a b => a.createdAt ≤ b.createdAt).filterMap fun row => db.get row.id

/-- `sum_cost`: the money recorded for a task. -/
def sumCost (db : Db) (taskId : String) : ℚ :=
  match db.get taskId with
  | none => 0
  | some task =>
      (task.steps.map fun s => s.costUsd.getD 0).sum + task.decomposeCostUsd + task.aggregateCostUsd

/-- `lease_expired`. -/
def leaseExpired (db : Db) (taskId stepId : String) (now : Time) : Bool :=
  match db.getStep taskId stepId with
  | none => true
  | some s =>
      match s.leaseExpiresAt with
      | none => true
      | some expires => decide (expires ≤ now)

/-- `verify_attempt`: the step is running under exactly this lease. -/
def verifyAttempt (db : Db) (taskId stepId : String) (attemptId : AttemptId) : Bool :=
  match db.getStep taskId stepId with
  | none => false
  | some s => decide (s.status = .running) && decide (s.attemptId = some attemptId)

theorem mem_stepsForTask {db : Db} {taskId : String} {s : TeamStep} :
    s ∈ db.stepsForTask taskId ↔ s ∈ db.steps.rows ∧ s.taskId = taskId := by
  simp [stepsForTask]

theorem getStep_eq_some {db : Db} {taskId stepId : String} {s : TeamStep} :
    db.getStep taskId stepId = some s ↔ s ∈ db.steps.rows ∧ s.taskId = taskId ∧ s.stepId = stepId := by
  simp [getStep, Auto.find?_eq_some, TeamStep.key]

theorem get_eq_some {db : Db} {taskId : String} {task : TeamTask} :
    db.get taskId = some task ↔
      task.toTaskRow ∈ db.tasks.rows ∧ task.id = taskId ∧ task.steps = db.stepsForTask taskId := by
  unfold get
  rw [Option.map_eq_some_iff]
  constructor
  · rintro ⟨row, hrow, rfl⟩
    obtain ⟨hmem, hid⟩ := Keyed.find?_eq_some.1 hrow
    exact ⟨hmem, hid, rfl⟩
  · rintro ⟨hmem, hid, hsteps⟩
    refine ⟨task.toTaskRow, Keyed.find?_eq_some.2 ⟨hmem, hid⟩, ?_⟩
    cases task
    simp_all

theorem mem_listDispatchable {db : Db} {task : TeamTask} :
    task ∈ db.listDispatchable ↔ db.get task.id = some task ∧ task.status.dispatchable = true := by
  simp only [listDispatchable, List.mem_filterMap, List.mem_insertionSort, List.mem_filter]
  constructor
  · rintro ⟨row, ⟨hmem, hstatus⟩, hget⟩
    obtain ⟨hrow, hid, hsteps⟩ := get_eq_some.1 hget
    have hsame : task.toTaskRow = row := eq_of_key db.tasks.nodup hrow hmem hid
    subst hsame
    exact ⟨hget, hstatus⟩
  · rintro ⟨hget, hstatus⟩
    exact ⟨task.toTaskRow, ⟨(get_eq_some.1 hget).1, hstatus⟩, hget⟩

/-- Two rows of one task with one step id are the same row. -/
theorem step_unique {db : Db} {s t : TeamStep} (hs : s ∈ db.steps.rows) (ht : t ∈ db.steps.rows)
    (htask : s.taskId = t.taskId) (hstep : s.stepId = t.stepId) : s = t :=
  eq_of_key db.steps.nodup hs ht (by simp [TeamStep.key, htask, hstep])

end Db

end ProjectManager
