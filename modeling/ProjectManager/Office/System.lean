import ProjectManager.Office.Ticker
import ProjectManager.Office.Worker

/-!
# The office as a system of processes

One ticker at a time and any number of workers, each started by a spawn of the ticker.  In between,
the users of the store go on (plans are drafted and confirmed, amendments drafted and applied), and
everything that the processes ask about may change.  Processes may die at any call.

`TickObeys` and `WorkerObeys` are what the two programs keep to, call by call, in terms of what they
have read themselves; the modules on the two contracts prove it of the programs.
-/

namespace ProjectManager

open Process

/-! ### Processes -/

/-- The parties of the office. -/
inductive OfficeParty where
  | ticker
  | worker (s : Spawn)
deriving DecidableEq

/-- A pool of the office. -/
abbrev OfficePool :=
  Pool Office OfficeParty OfficeCall OfficeCall.Resp

/-- The operations of the store's other users. -/
def StoreOp.client : StoreOp → Bool
  | setTaskStatus .. => false
  | reserveStep .. => false
  | recordSpawn .. => false
  | heartbeat .. => false
  | setStepStatus .. => false
  | insertStep .. => false
  | _ => true

/-- What changes by itself: the clock, the answers to questions, and the store by its other users. -/
inductive Office.Changes (cfg : OfficeConfig) (staffOk : List (String × String) → Prop) : Office → Office → Prop where
  | env {w : Office} (env : (q : Query) → q.Resp) (h : staffOk (env .assignableStaff)) :
      Changes cfg staffOk w { w with env := env }
  | client {w : Office} (o : StoreOp) (hclient : o.client = true) (hpre : o.Pre cfg.rt w.ledger) :
      Changes cfg staffOk w { w with ledger := (o.run cfg.rt w.ledger).2 }
  | time {w : Office} (now : Time) : Changes cfg staffOk w { w with ledger := { w.ledger with clock := now } }

/-- The ticker, as a process. -/
def tickerProg (cfg : OfficeConfig) : OfficeProg Unit := do
  let _ ← runTeamTick cfg
  return ()

/-- The process that a call starts. -/
def officeForks (cfg : OfficeConfig) : OfficeCall → Option (OfficeParty × OfficeProg Unit)
  | .spawnStep s => some (.worker s, stepWorker cfg s)
  | _ => none

/-- The office; `staffOk` is what is assumed of the roster, `allows` of the run. -/
def officeSystem (cfg : OfficeConfig) (staffOk : List (String × String) → Prop)
    (allows : OfficePool → OfficeParty → OfficeCall → Prop) :
    System Office OfficeParty OfficeCall OfficeCall.Resp where
  handle := OfficeCall.handle cfg.rt
  forks := officeForks cfg
  starts := fun pool p prog =>
    p = .ticker ∧ prog = tickerProg cfg ∧ ∀ q ∈ pool.procs, q.party ≠ .ticker
  ext := Office.Changes cfg staffOk
  allows := allows

/-- The office before anything has happened. -/
def Office.opening (now : Time) (env : (q : Query) → q.Resp) : Office where
  ledger := .empty now
  files := fun _ => none
  retries := fun _ => 0
  spawned := []
  env := env

/-- Runs begin with an empty store, no artifact and no process. -/
def officeInit (staffOk : List (String × String) → Prop) (pool : OfficePool) : Prop :=
  ∃ now env, staffOk (env .assignableStaff) ∧ pool = ⟨Office.opening now env, []⟩

/-- Everything is allowed. -/
def anyCall (_ : OfficePool) (_ : OfficeParty) (_ : OfficeCall) : Prop :=
  True

/-! ### Answers -/

/-- A snapshot as the store hands it out: the ids are unique and the task is dispatchable. -/
structure TeamTask.Listed (task : TeamTask) : Prop where
  unique : (task.steps.map fun s => s.stepId).Nodup
  dispatchable : task.status.dispatchable = true

/-- The answers that can come. -/
def Plausible (staffOk : List (String × String) → Prop) : (e : OfficeCall) → e.Resp → Prop
  | .ask .assignableStaff, staff => staffOk staff
  | .store .listDispatchable, tasks => ∀ task ∈ tasks, task.Listed
  | _, _ => True

/-- Every roster has a reviewer for everyone. -/
def Staffed (staffOk : List (String × String) → Prop) : Prop :=
  ∀ staff, staffOk staff → ∀ author, pickReviewer author staff ≠ none

/-! ### What the review rule decides -/

/-- What the review rule does about a step. -/
inductive ReviewDecision where
  | mint (d : StepDict)
  | stall
deriving DecidableEq

/-- The review rule on a finished work step. -/
def decideWork (staff : List (String × String)) (task : TeamTask) (step : TeamStep) : Option ReviewDecision :=
  if step.needsReview = true ∧ (reviewChild task step.stepId .review).isSome = false then
    (pickReviewer step.assignedTo staff).map fun reviewer => .mint (reviewDict task step reviewer 0 none)
  else
    none

/-- The review rule on a finished review of a step, given the verdict. -/
def decideVerdict (task : TeamTask) (content step : TeamStep) : Option Artifact → Option ReviewDecision
  | none =>
      if reviewChild task content.stepId .review = some step then
        some (.mint (reviewDict task content step.assignedTo step.reviewRound none))
      else
        none
  | some verdict =>
      if verdict.isPassed then none
      else if maxReviewRounds ≤ step.reviewRound then some .stall
      else if reworkThisRound task content.stepId step.reviewRound then none
      else some (.mint (reworkDict task content step.reviewRound))

/-- The review rule on a finished rework of a step. -/
def decideRework (staff : List (String × String)) (task : TeamTask) (content step : TeamStep) :
    Option ReviewDecision :=
  if reviewedInRound task content.stepId (step.reviewRound + 1) then
    none
  else
    (pickReviewer content.assignedTo staff).map fun reviewer =>
      .mint (reviewDict task content reviewer (step.reviewRound + 1) (some step.stepId))

/-- What the review rule decides for one step. -/
def reviewDecision (staff : List (String × String)) (files : ArtifactPath → Option Artifact) (task : TeamTask)
    (step : TeamStep) : Option ReviewDecision :=
  if step.status ≠ .done then
    none
  else
    match step.stepType with
    | .work => decideWork staff task step
    | .review => (step.parentStepId.bind task.step?).bind fun content =>
        decideVerdict task content step (files (reviewVerdictArtifactPath task.id content.seq step.reviewRound))
    | .rework => (step.parentStepId.bind task.step?).bind fun content => decideRework staff task content step

/-! ### The contract of the ticker -/

/-- The ticker has been handed the snapshot. -/
def Snap (log : OfficeLog) (task : TeamTask) : Prop :=
  ∃ tasks : List TeamTask, log.Has (.store .listDispatchable) tasks ∧ task ∈ tasks

/-- A step that the snapshot shows and that is not done there. -/
def Chosen (log : OfficeLog) (task : TeamTask) (step : TeamStep) : Prop :=
  Snap log task ∧ step ∈ task.steps ∧ step.status ≠ .done

/-- The calls of the ticker that change nothing another process looks at. -/
def OfficeCall.calm : OfficeCall → Bool
  | .store (.get _) => true
  | .store .listDispatchable => true
  | .store (.sumCost _) => true
  | .store (.leaseExpired ..) => true
  | .store (.recordTaskCost ..) => true
  | .store .cleanupStaleDrafts => true
  | .store _ => false
  | .writeArtifact .. => false
  | .setRetries .. => false
  | .spawnStep _ => false
  | _ => true

/-- The calm calls after the snapshot. -/
def OfficeCall.idle : OfficeCall → Bool
  | .store .listDispatchable => false
  | e => e.calm

/-- So far the ticker has only looked. -/
def Calm (log : OfficeLog) : Prop :=
  ∀ x ∈ log, x.1.calm = true

/-- Every finished step that is up for review has a review. -/
def UnderReview (task : TeamTask) : Prop :=
  ∀ c ∈ task.steps, c.status = .done → c.stepType = .work → c.needsReview = true →
    (reviewChild task c.stepId .review).isSome = true

/-- A snapshot that the ticker may deliver: all is done, nothing was touched, and the newest review of
each step that is up for review reads as passed. -/
structure Gate (staffOk : List (String × String) → Prop) (log : OfficeLog) (task : TeamTask) : Prop where
  allDone : task.allDone = true
  calm : Calm log
  passed : Staffed staffOk → ∀ c ∈ task.steps, c.stepType = .work → c.needsReview = true →
    ∃ r v, reviewChild task c.stepId .review = some r ∧
      log.Has (.readArtifact (reviewVerdictArtifactPath task.id c.seq r.reviewRound)) (some v) ∧ v.isPassed = true

/-- A spawn: of a chosen step, under the lease that was just drawn for it. -/
structure Launch (staffOk : List (String × String) → Prop) (log : OfficeLog) (s : Spawn) (task : TeamTask)
    (step : TeamStep) : Prop where
  chosen : Chosen log task step
  taskId : s.taskId = task.id
  stepId : s.stepId = step.stepId
  agent : s.agent = step.assignedTo
  leased : ∃ before, log = before ++ [⟨.store (.reserveStep task.id step.stepId), .ok s.attemptId⟩]
  ready : step.status = .pending → step ∈ readyPendingSteps task
  underReview : Staffed staffOk → UnderReview task

/-- The row that the review rule mints for a step, with the verdict that it has read. -/
def Mints (log : OfficeLog) (task : TeamTask) (step : TeamStep) (d : StepDict) : Prop :=
  ∃ staff files, reviewDecision staff files task step = some (.mint d) ∧
    ∀ content, step.stepType = .review → step.parentStepId.bind task.step? = some content →
      log.Has (.readArtifact (reviewVerdictArtifactPath task.id content.seq step.reviewRound))
        (files (reviewVerdictArtifactPath task.id content.seq step.reviewRound))

/-- The call mints a row. -/
def OfficeCall.mints : OfficeCall → Bool
  | .store (.insertStep ..) => true
  | _ => false

/-- The ticker has not minted a row yet. -/
def Unminted (log : OfficeLog) : Prop :=
  ∀ x ∈ log, x.1.mints = false

/-- A chosen step; a pending one is ready, and one that waits for an approval has an approval id. -/
structure Picked (log : OfficeLog) (task : TeamTask) (step : TeamStep) : Prop where
  chosen : Chosen log task step
  ready : step.status = .pending → step ∈ readyPendingSteps task
  polled : step.status = .awaitingApproval → step.approvalId ≠ none
  unminted : Unminted log

/-- How often the ticker has claimed a step of the task. -/
def claims (log : OfficeLog) (taskId : String) : ℕ :=
  log.countP fun x => match x.1 with
    | .store (.reserveStep t _) => decide (t = taskId)
    | _ => false

/-- What it takes to claim a step: it is picked, its assignee is on the roster, a pending one gets a free
slot, and another one runs or has got its approval. -/
structure Claim (k : ℕ) (log : OfficeLog) (task : TeamTask) (step : TeamStep) : Prop where
  picked : Picked log task step
  roster : ∃ staff : List (String × String), log.Has (.ask .assignableStaff) staff ∧
    step.assignedTo ∈ staff.map Prod.fst
  slot : step.status = .pending → runningCount task + claims log task.id < k
  resumed : step.status ≠ .pending → step.status = .running ∨ step.status = .awaitingApproval ∧
    ∃ id, step.approvalId = some id ∧ log.Has (.ask (.approvalStatus id)) (some .approved)

/-- What the ticker keeps to, with `k` slots. -/
def TickObeys (k : ℕ) (staffOk : List (String × String) → Prop) (log : OfficeLog) : OfficeCall → Prop
  | .store .listDispatchable => log = []
  | .store (.insertStep taskId d) =>
      Calm log ∧ ∃ task step, Snap log task ∧ task.id = taskId ∧ step ∈ task.steps ∧ Mints log task step d
  | .store (.reserveStep taskId stepId) =>
      ∃ task step, Claim k log task step ∧ taskId = task.id ∧ stepId = step.stepId
  | .store (.setStepStatus taskId stepId status x _) =>
      (status = .failed ∨ status = .timeout) ∧
        ∃ task step, Picked log task step ∧ taskId = task.id ∧ stepId = step.stepId ∧ x = {}
  | .store (.setTaskStatus taskId status) =>
      ∃ task, Snap log task ∧ taskId = task.id ∧
        (status = .stalled ∨ status = .done ∧ Gate staffOk log task)
  | .spawnStep s => ∃ task step, Launch staffOk log s task step
  | .store (.recordSpawn ..) => True
  | .setRetries .. => True
  | e => e.calm = true

/-! ### The contract of a worker -/

/-- The calls of a worker that write neither a status nor a file. -/
def OfficeCall.quiet : OfficeCall → Bool
  | .store (.verifyAttempt ..) => true
  | .store (.getStep ..) => true
  | .store (.get _) => true
  | .store (.heartbeat ..) => true
  | .readArtifact _ => true
  | .ask _ => true
  | .note _ => true
  | _ => false

/-- The worker has not recorded an outcome yet. -/
def Unsettled (log : OfficeLog) : Prop :=
  ∀ taskId stepId status x attemptId r, ¬ log.Has (.store (.setStepStatus taskId stepId status x attemptId)) r

/-- The files that a worker may write: a verdict, a file without a result, or the result of the step that
it has read. -/
def Writes (s : Spawn) (log : OfficeLog) (path : ArtifactPath) (a : Artifact) : Prop :=
  (∃ n round, path = reviewVerdictArtifactPath s.taskId n round) ∨
    (∃ n, path = stepArtifactPath s.taskId n ∧ a.resultText = none) ∨
    ∃ step, log.Has (.store (.getStep s.taskId s.stepId)) (some step) ∧ step.stepType ≠ .review ∧
      path = stepArtifactPath s.taskId step.seq ∧ a.version = some s.attemptId

/-- The last file that the worker has written is the result of the step with this number. -/
def Standing (s : Spawn) (log : OfficeLog) (n : ℕ) : Prop :=
  ∃ before a after, log = before ++ ⟨.writeArtifact (stepArtifactPath s.taskId n) a, ()⟩ :: after ∧
    a.version = some s.attemptId ∧ ∀ x ∈ after, x.1.quiet = true

/-- The worker may finish: the result of the step that it has read stands, unless it was a review. -/
def Finished (s : Spawn) (log : OfficeLog) : Prop :=
  ∃ step, log.Has (.store (.getStep s.taskId s.stepId)) (some step) ∧
    (step.stepType ≠ .review → Standing s log step.seq)

/-- The worker has not recorded that the step is done. -/
def Undone (log : OfficeLog) : Prop :=
  ∀ taskId stepId x attemptId r, ¬ log.Has (.store (.setStepStatus taskId stepId .done x attemptId)) r

/-- The one outcome that a worker records; it names no approval. -/
structure Settles (s : Spawn) (log : OfficeLog) (status : StepStatus) (x : Db.StatusExtras) : Prop where
  outcome : status = .done ∨ status = .failed ∨ status = .awaitingApproval
  ungated : x.approvalId = none
  finished : status = .done → Finished s log
  unsettled : Unsettled log

/-- What a worker keeps to. -/
def WorkerObeys (s : Spawn) (log : OfficeLog) : OfficeCall → Prop
  | .store (.setStepStatus taskId stepId status x attemptId) =>
      taskId = s.taskId ∧ stepId = s.stepId ∧ attemptId = some s.attemptId ∧ Settles s log status x
  | .writeArtifact path a => Writes s log path a ∧ Undone log
  | e => e.quiet = true

end ProjectManager
