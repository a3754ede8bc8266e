import ProjectManager.Actions.Gateway
import ProjectManager.Inbox.Answers

/-!
# Assigned tasks

The work of an agent that lives for days: the rows of `task_store.py`, the tick `run_tasks` over the open ones, and
the cancelling of a task by the operator, as programs over the statements of the store, the checks and the posts.
-/

namespace ProjectManager

open Process

/-! ### Rows -/

/-- The statuses of an assigned task; `opened` is the status `open`. -/
inductive AssignedStatus where
  | opened | running | done | cancelled | stalled
deriving DecidableEq

namespace AssignedStatus

/-- `_OPEN_STATUSES`. -/
def isOpen : AssignedStatus → Bool
  | opened => true
  | running => true
  | _ => false

/-- The text of a status. -/
def text : AssignedStatus → String
  | opened => "open"
  | running => "running"
  | done => "done"
  | cancelled => "cancelled"
  | stalled => "stalled"

end AssignedStatus

/-- `HistoryEntry`. -/
structure HistoryEntry where
  ts : String
  summary : String
  costUsd : Option ℚ

/-- `Task`. -/
structure AssignedTask where
  id : ℕ
  kind : String
  params : Action
  status : AssignedStatus
  createdAt : String
  failStreak : ℕ
  history : List HistoryEntry

/-- `MAX_OPEN_TASKS`. -/
def maxOpenTasks : ℕ :=
  10

/-- `STALL_AFTER`. -/
def stallAfter : ℕ :=
  3

/-- `DEFAULT_DEADLINE_DAYS`. -/
def defaultDeadlineDays : ℤ :=
  14

/-! ### Calls -/

/-- `WatchResult`. -/
structure WatchResult where
  done : Bool
  reason : String
  remind : Bool

/-- The notices that a tick posts. -/
inductive TaskNotice where
  | finished (id : ℕ) (reason : String)
  | reminder (id : ℕ) (day reason : String)
  | expired (id : ℕ) (msg : String)
  | stalled (id streak : ℕ)

namespace TaskNotice

/-- The text of the post. -/
def text : TaskNotice → String
  | finished _ reason => "✅ " ++ reason
  | reminder _ _ reason => reason
  | expired _ msg => "✅ " ++ msg
  | stalled id streak =>
      "⚠️ Việc #" ++ toString id ++ " bị treo sau " ++ toString streak ++ " lần kiểm tra lỗi — cần xem lại."

/-- The `dedup_hint` of the post. -/
def dedup : TaskNotice → String
  | finished id _ => "watch-task-done:" ++ toString id
  | reminder id day _ => "watch-task-remind:" ++ toString id ++ ":" ++ day
  | expired id _ => "recurring-task-done:" ++ toString id
  | stalled id _ => "watch-task-stalled:" ++ toString id

end TaskNotice

/-- The action that posts a notice. -/
def noticeAction (channel : String) (notice : TaskNotice) : Action :=
  [("type", .str "mcp_tool"), ("server", .str "slack"), ("tool", .str "post_message"),
    ("args", .dict [("channel", .str channel), ("text", .str notice.text)]), ("dedup_hint", .str notice.dedup)]

/-- The calls that leave the programs. -/
inductive TaskCall where
  | listOpen
  | get (id : ℕ)
  | setStatus (id : ℕ) (status : AssignedStatus)
  | setFailStreak (id streak : ℕ)
  /-- the update of `append_history` -/
  | setHistory (id : ℕ) (history : List HistoryEntry)
  | checkPrWatch (task : AssignedTask) (repo : String)
  | runReportTask (task : AssignedTask)
  | runQaTask (task : AssignedTask)
  /-- `gateway.execute` -/
  | post (notice : TaskNotice) (action : Action)
  /-- the line of the log that a task is held for retry -/
  | logHeld (id : ℕ)
  /-- the line of the log that the check of a task has failed -/
  | logFailed (id : ℕ)

/-- The answers; a check and a post may raise. -/
abbrev TaskCall.Resp : TaskCall → Type
  | .listOpen => List AssignedTask
  | .get _ => Option AssignedTask
  | .checkPrWatch _ _ => Except AnswerError WatchResult
  | .runReportTask _ => Except AnswerError (String × Option ℚ)
  | .runQaTask _ => Except AnswerError (String × Option ℚ)
  | .post _ _ => Except AnswerError GatewayStatus
  | _ => Unit

/-- Programs over these calls, which may raise. -/
abbrev TaskM :=
  ExceptT AnswerError (Prog TaskCall TaskCall.Resp)

namespace TaskM

variable {α β : Type}

/-- A call that answers. -/
def ask (c : TaskCall) : TaskM c.Resp :=
  ExceptT.lift (.ask c)

/-- The value of an answer, raised when it is an error. -/
def orRaise (x : Except AnswerError α) : TaskM α :=
  ExceptT.mk (.ret x)

/-- `try`: what the program comes to. -/
def attempt (p : TaskM α) : TaskM (Except AnswerError α) :=
  ExceptT.lift p.run

variable {x : TaskM α} {f : α → TaskM β}

@[simp] theorem run_pure (a : α) : (pure a : TaskM α).run = .ret (.ok a) :=
  rfl

@[simp] theorem run_throw (e : AnswerError) : (throw e : TaskM α).run = .ret (.error e) :=
  rfl

@[simp] theorem run_orRaise (r : Except AnswerError α) : (orRaise r).run = .ret r :=
  rfl

@[simp] theorem run_ask (c : TaskCall) : (ask c).run = .call c fun r => .ret (.ok r) :=
  rfl

/-- Goes on with a value, and ends with an error. -/
def andThen (f : α → TaskM β) : Except AnswerError α → Prog TaskCall TaskCall.Resp (Except AnswerError β)
  | .ok a => (f a).run
  | .error e => .ret (.error e)

@[simp] theorem run_bind (x : TaskM α) (f : α → TaskM β) : (x >>= f).run = x.run.bind (andThen f) :=
  congrArg x.run.bind (funext fun r => by cases r <;> rfl)

@[simp] theorem run_attempt (x : TaskM α) : x.attempt.run = x.run.bind fun r => .ret (.ok r) :=
  rfl

end TaskM

open TaskM

/-! ### The tick -/

/-- What a tick takes from the profile and the settings; an empty text means that there is none. -/
structure TaskConfig where
  py : Python
  githubRepo : String
  slackReportChannel : String
  writeDisabled : Bool

/-- The time of a tick: its stamp, its day, the stamp of failures, and which tasks are past their deadline. -/
structure TaskClock where
  iso : String
  today : String
  failedIso : String
  deadlinePassed : String → ℤ → Bool

/-- `int(value)`. -/
def Val.toInt (py : Python) : Val → Except AnswerError ℤ
  | .int n => .ok n
  | .bool b => .ok (if b then 1 else 0)
  | .float q => .ok (q.num.tdiv q.den)
  | .str s => ((py.parseInt s).map Except.ok).getD (.error (.other "ValueError"))
  | _ => .error (.other "TypeError")

/-- `append_history`. -/
def appendHistory (id : ℕ) (entry : HistoryEntry) : TaskM Unit := do
  match ← ask (.get id) with
  | none => return ()
  | some task => ask (.setHistory id (task.history ++ [entry]))

section Runner

variable (cfg : TaskConfig) (clock : TaskClock)

/-- `_post`. -/
def postNotice (notice : TaskNotice) : TaskM Bool :=
  if cfg.slackReportChannel = "" then
    return false
  else do
    let status ← orRaise (← ask (.post notice (noticeAction cfg.slackReportChannel notice)))
    return decide (status = .executed ∨ status = .pendingApproval)

/-- `_run_watch`. -/
def runWatch (task : AssignedTask) : TaskM Bool :=
  if cfg.py.str ((task.params.get "target" .none).orElse (.str "pr")) ≠ "pr" then
    throw (.other "ValueError")
  else if cfg.githubRepo = "" then
    throw (.other "ValueError")
  else do
    let result ← orRaise (← ask (.checkPrWatch task cfg.githubRepo))
    ask (.setFailStreak task.id 0)
    if result.done then
      ask (.setStatus task.id .done)
      appendHistory task.id ⟨clock.iso, result.reason, none⟩
      let _ ← postNotice cfg (.finished task.id result.reason)
      return true
    else if result.remind then
      appendHistory task.id ⟨clock.iso, result.reason, none⟩
      postNotice cfg (.reminder task.id clock.today result.reason)
    else
      return false

/-- `_ran_today`. -/
def ranToday (task : AssignedTask) : Bool :=
  task.history.any fun entry => Text.startsWith entry.ts clock.today

/-- The end of a recurring task that is past its deadline. -/
def expiredText (task : AssignedTask) (deadlineDays : ℤ) : String :=
  "Việc định kỳ #" ++ toString task.id ++ " (" ++ task.kind ++ ") hết hạn sau " ++ toString deadlineDays ++
    " ngày, mình dừng."

/-- The work of a recurring task. -/
def runRecurringWork (task : AssignedTask) : TaskM (String × Option ℚ) := do
  if task.kind = "report" then
    orRaise (← ask (.runReportTask task))
  else
    orRaise (← ask (.runQaTask task))

/-- `_run_recurring`. -/
def runRecurring (task : AssignedTask) : TaskM Bool := do
  let deadlineDays ← orRaise (((task.params.get "deadline_days" .none).orElse (.int defaultDeadlineDays)).toInt cfg.py)
  if clock.deadlinePassed task.createdAt deadlineDays then
    ask (.setStatus task.id .done)
    appendHistory task.id ⟨clock.iso, expiredText task deadlineDays, none⟩
    let _ ← postNotice cfg (.expired task.id (expiredText task deadlineDays))
    return true
  else if ranToday clock task then
    return false
  else
    let (summary, cost) ← runRecurringWork task
    ask (.setFailStreak task.id 0)
    appendHistory task.id ⟨clock.iso, summary, cost⟩
    return true

/-- `_run_one`. -/
def runOne (task : AssignedTask) : TaskM Bool :=
  if task.kind = "watch" then
    runWatch cfg clock task
  else if task.kind = "report" ∨ task.kind = "qa" then
    runRecurring cfg clock task
  else
    return false

/-- `_record_failure`. -/
def recordFailure (task : AssignedTask) : TaskM Unit := do
  let streak := task.failStreak + 1
  ask (.setFailStreak task.id streak)
  appendHistory task.id ⟨clock.failedIso, "kiểm tra lỗi (lần " ++ toString streak ++ ")", none⟩
  if stallAfter ≤ streak then
    ask (.setStatus task.id .stalled)
    let _ ← postNotice cfg (.stalled task.id streak)
    return ()
  else
    return ()

/-- How the loop goes on after a task. -/
inductive TaskEnd where
  | checked (didPost : Bool)
  | failed
  /-- the loop ends -/
  | held

/-- The body of the loop. -/
def tryTask (task : AssignedTask) : TaskM TaskEnd := do
  match ← attempt (runOne cfg clock task) with
  | .ok didPost => return .checked didPost
  | .error e =>
      if e ∈ infraErrors then
        ask (.logHeld task.id)
        return .held
      else
        ask (.logFailed task.id)
        recordFailure cfg clock task
        return .failed

/-- The loop over the open tasks. -/
def taskLoop : List AssignedTask → ℕ → Bool → TaskM (ℕ × Bool)
  | [], checked, delivered => return (checked, delivered)
  | task :: rest, checked, delivered => do
      match ← tryTask cfg clock task with
      | .checked didPost => taskLoop rest (checked + 1) (delivered || didPost)
      | .failed => taskLoop rest checked delivered
      | .held => return (checked, delivered)

/-- What a tick returns to the worker. -/
structure TaskTick where
  status : String
  checked : ℕ
  delivered : Bool

/-- `run_tasks`. -/
def runTasks : TaskM TaskTick := do
  let openTasks ← ask .listOpen
  if openTasks.isEmpty then
    return ⟨"no_tasks", 0, false⟩
  else if cfg.writeDisabled then
    return ⟨"writes_disabled", 0, false⟩
  else
    let (checked, delivered) ← taskLoop cfg clock openTasks 0 false
    return ⟨"checked_" ++ toString checked, checked, delivered⟩

end Runner

/-! ### Cancelling -/

/-- `_run_cancel_task`, for the texts of its two slots. -/
def runCancelTask (py : Python) (agentId : String) (taskId : String) : TaskM String :=
  match py.parseInt taskId with
  | none => throw (.other "ValueError")
  | some n => do
      -- no row has a negative number
      let row : Option AssignedTask ← if n < 0 then pure none else ask (.get n.toNat)
      match row with
      | none => throw (.other "ValueError")
      | some task =>
          if task.status.isOpen then
            ask (.setStatus n.toNat .cancelled)
            return "Đã huỷ việc #" ++ toString n ++ " của '" ++ agentId ++ "'."
          else
            return "Việc #" ++ toString n ++ " đã ở trạng thái '" ++ task.status.text ++ "', không cần huỷ."

end ProjectManager
