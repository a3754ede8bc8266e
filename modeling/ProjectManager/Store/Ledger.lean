import ProjectManager.Plan.Amend

/-!
# The store under its operations

A `Ledger` is the three tables with the sources of fresh identifiers and the clock.  `StoreOp` lists
the operations of `TeamTaskStore` that the office uses; each runs as one atomic step.  `StoreOp.Pre` is
what the callers of an operation keep to: plans are validated before they are stored, the ticker and
the workers write only to tasks that have been opened, and a stored draft is one that a preview made
from a snapshot it had read.  `Ledger.Step` lets any operation happen at any time.
-/

namespace ProjectManager

open Table

/-- `DEFAULT_LEASE_TTL_S`. -/
def defaultLeaseTtl : ℕ := 600

/-- The tables, the clock and the next fresh identifiers.  No operation reads the two last fields:
they record the snapshots handed out and the rows ever inserted. -/
structure Ledger where
  db : Db
  clock : Time
  nextAttempt : AttemptId
  nextAmendment : ℕ
  seen : List TeamTask
  ever : List StepIdent

/-- The empty store. -/
def Ledger.empty (now : Time) : Ledger where
  db := .empty
  clock := now
  nextAttempt := 1
  nextAmendment := 1
  seen := []
  ever := []

namespace Ledger

/-- The ledger with changed tables; rows above the last number are new. -/
def commit (l : Ledger) (db : Db) : Ledger :=
  { l with
    db := db
    ever := l.ever ++
      (db.steps.rows.filter fun s => decide (l.db.steps.last < s.seq)).map fun s => s.toStepIdent }

/-- The ledger after a read has handed out snapshots. -/
def handOut (l : Ledger) (tasks : List TeamTask) : Ledger :=
  { l with seen := l.seen ++ tasks }

end Ledger

/-! ### Operations -/

/-- The operations of the store. -/
inductive StoreOp where
  | createTask (taskId title originalRequest assignedBy picId roomId : String)
  | setDraftPlan (taskId : String) (steps : List StepDict) (planHash : String)
  | confirmPlan (taskId expectedHash : String)
  | cancelDraft (taskId : String)
  | get (taskId : String)
  | getStep (taskId stepId : String)
  | listDispatchable
  | setTaskStatus (taskId : String) (status : TaskStatus)
  | recordTaskCost (taskId : String) (decompose aggregate : Option ℚ)
  | sumCost (taskId : String)
  | reserveStep (taskId stepId : String)
  | leaseExpired (taskId stepId : String) (now : Time)
  | verifyAttempt (taskId stepId : String) (attemptId : AttemptId)
  | recordSpawn (taskId stepId : String) (pid : ℕ)
  | heartbeat (taskId stepId : String)
  | setStepStatus (taskId stepId : String) (status : StepStatus) (x : Db.StatusExtras)
      (attemptId : Option AttemptId)
  | insertStep (taskId : String) (step : StepDict)
  | setAmendmentDraft (taskId basePlanHash newPlanHash : String) (newPendingSteps : List StepDict)
      (oldPendingStepIds : List String)
  | cancelAmendmentDraft (amendmentId : ℕ)
  | confirmAmendment (taskId : String) (amendmentId : ℕ)
  | cleanupStaleDrafts
deriving DecidableEq

namespace StoreOp

/-- `mark_done`. -/
def markDone (taskId stepId : String) (outcomeRef : Option String) (costUsd : Option ℚ)
    (attemptId : Option AttemptId) : StoreOp :=
  .setStepStatus taskId stepId .done { outcomeRef := outcomeRef, costUsd := costUsd } attemptId

/-- `mark_failed`. -/
def markFailed (taskId stepId : String) (attemptId : Option AttemptId) : StoreOp :=
  .setStepStatus taskId stepId .failed {} attemptId

/-- `mark_timeout`. -/
def markTimeout (taskId stepId : String) (attemptId : Option AttemptId) : StoreOp :=
  .setStepStatus taskId stepId .timeout {} attemptId

/-- `mark_awaiting_approval`. -/
def markAwaitingApproval (taskId stepId : String) (attemptId : Option AttemptId)
    (approvalId : Option ℕ) : StoreOp :=
  .setStepStatus taskId stepId .awaitingApproval { approvalId := approvalId } attemptId

/-- What an operation answers; a raised exception is an error. -/
@[reducible] def Resp : StoreOp → Type
  | createTask .. => Except String Unit
  | setDraftPlan .. => Except String Unit
  | confirmPlan .. => Bool
  | cancelDraft .. => Bool
  | get .. => Option TeamTask
  | getStep .. => Option TeamStep
  | listDispatchable => List TeamTask
  | setTaskStatus .. => Unit
  | recordTaskCost .. => Unit
  | sumCost .. => ℚ
  | reserveStep .. => Except String AttemptId
  | leaseExpired .. => Bool
  | verifyAttempt .. => Bool
  | recordSpawn .. => Unit
  | heartbeat .. => Unit
  | setStepStatus .. => Bool
  | insertStep .. => Except String Unit
  | setAmendmentDraft .. => Except String ℕ
  | cancelAmendmentDraft .. => Bool
  | confirmAmendment .. => Except String Db.ConfirmAmendmentResult
  | cleanupStaleDrafts => ℕ

/-- A checked change of the tables: an exception leaves them alone. -/
def checked (l : Ledger) : Except String Db → Except String Unit × Ledger
  | .ok db => (.ok (), l.commit db)
  | .error msg => (.error msg, l)

/-- The text of the exception of `reserve_step` on an unknown step. -/
def cannotReserve (rt : Runtime) (taskId stepId : String) : String :=
  s!"cannot reserve unknown team step ({rt.repr taskId}, {rt.repr stepId})"

/-- Runs an operation. -/
def run (rt : Runtime) : (o : StoreOp) → Ledger → o.Resp × Ledger
  | createTask taskId title request assignedBy picId roomId, l =>
      checked l (l.db.createTask taskId title request assignedBy picId roomId l.clock)
  | setDraftPlan taskId steps planHash, l => checked l (l.db.setDraftPlan taskId steps planHash)
  | confirmPlan taskId expectedHash, l =>
      ((l.db.confirmPlan taskId expectedHash).1, l.commit (l.db.confirmPlan taskId expectedHash).2)
  | cancelDraft taskId, l => ((l.db.cancelDraft taskId).1, l.commit (l.db.cancelDraft taskId).2)
  | get taskId, l => (l.db.get taskId, l.handOut (l.db.get taskId).toList)
  | getStep taskId stepId, l => (l.db.getStep taskId stepId, l)
  | listDispatchable, l => (l.db.listDispatchable, l.handOut l.db.listDispatchable)
  | setTaskStatus taskId status, l => ((), l.commit (l.db.setTaskStatus taskId status))
  | recordTaskCost taskId decompose aggregate, l =>
      ((), l.commit (l.db.recordTaskCost taskId decompose aggregate))
  | sumCost taskId, l => (l.db.sumCost taskId, l)
  | reserveStep taskId stepId, l =>
      match l.db.getStep taskId stepId with
      | none => (.error (cannotReserve rt taskId stepId), { l with nextAttempt := l.nextAttempt + 1 })
      | some _ =>
          (.ok l.nextAttempt,
            { l.commit (l.db.reserveStep taskId stepId l.nextAttempt l.clock defaultLeaseTtl) with
              nextAttempt := l.nextAttempt + 1 })
  | leaseExpired taskId stepId now, l => (l.db.leaseExpired taskId stepId now, l)
  | verifyAttempt taskId stepId attemptId, l => (l.db.verifyAttempt taskId stepId attemptId, l)
  | recordSpawn taskId stepId pid, l => ((), l.commit (l.db.recordSpawn taskId stepId pid l.clock))
  | heartbeat taskId stepId, l =>
      ((), l.commit (l.db.heartbeat taskId stepId l.clock defaultLeaseTtl))
  | setStepStatus taskId stepId status x attemptId, l =>
      ((l.db.setStepStatus taskId stepId status x attemptId).1,
        l.commit (l.db.setStepStatus taskId stepId status x attemptId).2)
  | insertStep taskId step, l => checked l (l.db.insertStep taskId step)
  | setAmendmentDraft taskId base new newPending oldPending, l =>
      match l.db.setAmendmentDraft l.nextAmendment taskId base new newPending oldPending l.clock with
      | .ok db => (.ok l.nextAmendment, { l.commit db with nextAmendment := l.nextAmendment + 1 })
      | .error msg => (.error msg, { l with nextAmendment := l.nextAmendment + 1 })
  | cancelAmendmentDraft amendmentId, l =>
      ((l.db.cancelAmendmentDraft amendmentId).1, l.commit (l.db.cancelAmendmentDraft amendmentId).2)
  | confirmAmendment taskId amendmentId, l =>
      ((l.db.confirmAmendment rt taskId amendmentId).1,
        l.commit (l.db.confirmAmendment rt taskId amendmentId).2)
  | cleanupStaleDrafts, l =>
      ((l.db.cleanupStaleDrafts l.clock Db.draftTtl).1,
        l.commit (l.db.cleanupStaleDrafts l.clock Db.draftTtl).2)

end StoreOp

/-! ### What the callers keep to -/

/-- The task exists and has been opened at some time. -/
def Ledger.Opened (l : Ledger) (taskId : String) : Prop :=
  ∃ row ∈ l.db.tasks.rows, row.id = taskId ∧ row.status.everOpened = true

/-- The task exists and has never been opened. -/
def Ledger.Unopened (l : Ledger) (taskId : String) : Prop :=
  ∃ row ∈ l.db.tasks.rows, row.id = taskId ∧ row.status.everOpened = false

/-- What the callers of an operation keep to. -/
def StoreOp.Pre (rt : Runtime) : StoreOp → Ledger → Prop
  | setDraftPlan taskId steps planHash, l =>
      l.Unopened taskId ∧ ∃ plan : DecomposedTask, steps = plan.steps.map TeamStepPlan.toDict ∧
        planHash = decompositionContentHash rt (plan.steps.map fun s => s.toStepFields)
  | setTaskStatus taskId status, l => l.Opened taskId ∧ status.everOpened = true
  | reserveStep taskId _, l => l.Opened taskId
  | setStepStatus taskId _ status _ _, l => l.Opened taskId ∧ status ≠ .pending
  | insertStep taskId step, l =>
      l.Opened taskId ∧ (step.stepType = some .review ∨ step.stepType = some .rework)
  | setAmendmentDraft taskId base new newPending oldPending, l =>
      ∃ task ∈ l.seen, task.id = taskId ∧ ∃ staff complete p,
        previewAdjust rt task staff complete = .ok p ∧ base = p.basePlanHash ∧ new = p.newPlanHash ∧
          newPending = p.newPendingSteps ∧ oldPending = p.oldPendingStepIds
  | _, _ => True

/-- One atomic step of the store: an operation of one of its users, or time passing. -/
inductive Ledger.Step (rt : Runtime) : Ledger → Ledger → Prop where
  | op {l : Ledger} (o : StoreOp) (h : o.Pre rt l) : Step rt l (o.run rt l).2
  | time {l : Ledger} (now : Time) : Step rt l { l with clock := now }

/-- The ledgers that the operations reach from the empty store, in any order. -/
inductive Ledger.Reach (rt : Runtime) : Ledger → Prop where
  | empty (now : Time) : Reach rt (.empty now)
  | step {l l' : Ledger} (h : Reach rt l) (hstep : Ledger.Step rt l l') : Reach rt l'

end ProjectManager
