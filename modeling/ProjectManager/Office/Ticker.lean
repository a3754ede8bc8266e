import ProjectManager.Office.World
import ProjectManager.Store.Agreement

/-!
# The coordinator's ticker

`run_team_tick`: one snapshot of the dispatchable tasks, at most one action, exit.  The review rule
(`review_insert`) mints review and rework rows; the actions (`tick_actions`) poll, dispatch and deliver;
`actOnTask` (`coordinator_graph`) tries them in order.  Every decision is taken on the snapshot, while
the calls go to the store as it is by then.
-/

namespace ProjectManager

open Process OfficeProg

/-! ### The roster -/

/-- `_REVIEWER_ID_HINTS`. -/
def reviewerIdHints : List String :=
  ["kiem", "qa", "review"]

/-- An agent id in lower case; ids are ASCII. -/
def lowerId (id : String) : String :=
  String.ofList (id.toList.map Char.toLower)

/-- `pick_reviewer`. -/
def pickReviewer (authorId : String) (roster : List (String × String)) : Option String :=
  let peers := ((roster.map Prod.fst).filter fun a => decide (a ≠ authorId)).dedup.insertionSort (· ≤ ·)
  let preferred := peers.filter fun p => reviewerIdHints.any fun hint => Text.contains (lowerId p) hint
  preferred.head? <|> peers.head?

/-- `is_assignable`. -/
def isAssignable (agentId : String) : OfficeProg Bool := do
  let staff ← query .assignableStaff
  return staff.any fun x => decide (x.1 = agentId)

/-! ### Results and room events -/

/-- The values of `TickResult.action`. -/
inductive TickAction where
  | none | spawned | failed | timeoutEscalated | aggregated | capExceeded | stalled
  | reviewInserted | reworkInserted
deriving DecidableEq, Repr

/-- `TickResult`. -/
structure TickResult where
  taskId : Option String
  action : TickAction
  detail : String := ""
deriving DecidableEq, Repr

/-- The result, when it is an action. -/
def TickResult.acting (r : TickResult) : Option TickResult :=
  if r.action = .none then Option.none else some r

/-- A milestone in the task's room. -/
def milestone (task : TeamTask) (kind message : String) : OfficeProg Unit :=
  note (.room task.id "coordinator" "milestone"
    [("task_id", task.id), ("task_title", task.title), ("milestone", kind), ("message", message)])

/-- A `step_status` event of the coordinator. -/
def coordinatorStepStatus (task : TeamTask) (step : TeamStep) (status : String) : OfficeProg Unit :=
  note (.room task.id "coordinator" "step_status"
    [("task_title", task.title), ("step_title", step.title), ("status", status),
      ("assigned_to", step.assignedTo)])

/-- `escalate`. -/
def escalate (task : TeamTask) (step : Option TeamStep) (eventKind message : String) : OfficeProg Unit :=
  note (.escalate task.id (step.map fun s => s.stepId) eventKind message)

/-! ### Reviews and reworks -/

/-- `MAX_REVIEW_ROUNDS`. -/
def maxReviewRounds : ℕ := 2

/-- The children of a step, in `seq` order. -/
def childrenOf (steps : List TeamStep) (contentStepId : String) (stepType : StepType) : List TeamStep :=
  steps.filter fun s => decide (s.stepType = stepType) && decide (s.parentStepId = some contentStepId)

/-- `_review_child`: the newest child of a step. -/
def reviewChild (task : TeamTask) (contentStepId : String) (stepType : StepType) : Option TeamStep :=
  (childrenOf task.steps contentStepId stepType).getLast?

/-- The step of a snapshot with an id. -/
def TeamTask.step? (task : TeamTask) (stepId : String) : Option TeamStep :=
  task.steps.find? fun s => decide (s.stepId = stepId)

/-- The row that `_insert_review_step` mints. -/
def reviewDict (task : TeamTask) (content : TeamStep) (reviewer : String) (reviewRound : ℕ)
    (sourceStepId : Option String) : StepDict :=
  let lockedOn := (sourceStepId.filter fun s => decide (s ≠ "")).getD content.stepId
  let mintCount := (childrenOf task.steps content.stepId .review).length
  { stepId := content.stepId ++ "-review-" ++ reviewRound.repr ++ "-" ++ mintCount.repr
    title := "Soát chéo: " ++ content.title
    assignedTo := reviewer
    deps := [lockedOn]
    stepType := some .review
    parentStepId := some content.stepId
    reviewRound := reviewRound }

/-- The row that `_insert_rework_step` mints. -/
def reworkDict (task : TeamTask) (content : TeamStep) (reviewRound : ℕ) : StepDict where
  stepId := content.stepId ++ "-rework-" ++ reviewRound.repr
  title := content.title
  assignedTo := content.assignedTo
  deps := [((reviewChild task content.stepId .review).map fun s => s.stepId).getD content.stepId]
  stepType := some .rework
  parentStepId := some content.stepId
  reviewRound := reviewRound

/-- `insert_step` on the task; the exception goes through. -/
def insertStep (task : TeamTask) (d : StepDict) : OfficeProg Unit := do
  let r ← store (.insertStep task.id d)
  Prog.ofExcept r

/-- `maybe_insert_review`. -/
def maybeInsertReview (task : TeamTask) (doneStep : TeamStep) : OfficeProg Bool :=
  if doneStep.stepType ≠ .work ∨ doneStep.needsReview = false then
    return false
  else if (reviewChild task doneStep.stepId .review).isSome then
    return false
  else do
    let staff ← query .assignableStaff
    match pickReviewer doneStep.assignedTo staff with
    | none => do
        milestone task "review_skipped"
          s!"Bỏ qua kiểm định cho bước '{doneStep.title}' — không có đồng nghiệp phù hợp để soát chéo."
        return false
    | some reviewer => do
        insertStep task (reviewDict task doneStep reviewer 0 none)
        return true

/-- A rework of this round was minted before. -/
def reworkThisRound (task : TeamTask) (contentStepId : String) (reviewRound : ℕ) : Bool :=
  task.steps.any fun s =>
    decide (s.stepType = .rework) && decide (s.parentStepId = some contentStepId) &&
      decide (s.reviewRound = reviewRound)

/-- What `maybe_handle_review_done` does with the verdict that it has read. -/
def actOnVerdict (task : TeamTask) (content reviewStep : TeamStep) : Option Artifact → OfficeProg Bool
  | none =>
      if reviewChild task content.stepId .review = some reviewStep then do
        insertStep task (reviewDict task content reviewStep.assignedTo reviewStep.reviewRound none)
        return true
      else
        return false
  | some verdict =>
      if verdict.isPassed then
        return false
      else if maxReviewRounds ≤ reviewStep.reviewRound then do
        store (.setTaskStatus task.id .stalled)
        escalate task (some content) "review_rounds_exhausted"
          (s!"Việc '{task.title}' bị dừng: bước '{content.title}' soát chéo " ++
            s!"không đạt sau {maxReviewRounds + 1} lượt sửa — cần CEO xem lại.")
        return true
      else if reworkThisRound task content.stepId reviewStep.reviewRound then
        return false
      else do
        insertStep task (reworkDict task content reviewStep.reviewRound)
        return true

/-- `maybe_handle_review_done`. -/
def maybeHandleReviewDone (task : TeamTask) (reviewStep : TeamStep) : OfficeProg Bool :=
  match reviewStep.stepType, reviewStep.parentStepId with
  | .review, some contentStepId =>
      match task.step? contentStepId with
      | none => return false
      | some content => do
          let verdict ← read (reviewVerdictArtifactPath task.id content.seq reviewStep.reviewRound)
          actOnVerdict task content reviewStep verdict
  | _, _ => return false

/-- The newest review of the step already belongs to the round. -/
def reviewedInRound (task : TeamTask) (contentStepId : String) (nextRound : ℕ) : Bool :=
  (reviewChild task contentStepId .review).any fun r => decide (nextRound ≤ r.reviewRound)

/-- `maybe_insert_review_after_rework`. -/
def maybeInsertReviewAfterRework (task : TeamTask) (reworkStep : TeamStep) : OfficeProg Bool :=
  match reworkStep.stepType, reworkStep.parentStepId with
  | .rework, some contentStepId =>
      match task.step? contentStepId with
      | none => return false
      | some content =>
          let nextRound := reworkStep.reviewRound + 1
          if reviewedInRound task contentStepId nextRound then
            return false
          else do
            let staff ← query .assignableStaff
            match pickReviewer content.assignedTo staff with
            | none => do
                milestone task "review_skipped"
                  (s!"Bỏ qua kiểm định vòng {nextRound} cho bước " ++
                    s!"'{content.title}' — không có đồng nghiệp phù hợp.")
                return false
            | some reviewer => do
                insertStep task (reviewDict task content reviewer nextRound (some reworkStep.stepId))
                return true
  | _, _ => return false

/-- What `_maybe_insert_review_rows` reports after a review was acted on; nothing when the task had been
stalled before. -/
def reviewHandled (task : TeamTask) (step : TeamStep) (refreshed : Option TeamTask) : Option TickResult :=
  let stalled := refreshed.any fun t => decide (t.status = .stalled)
  if stalled && decide (task.status = .stalled) then
    none
  else
    some ⟨some task.id, if stalled then .stalled else .reworkInserted, step.stepId⟩

/-- `_maybe_insert_review_rows`, for one step of the snapshot. -/
def reviewRule (task : TeamTask) (step : TeamStep) : OfficeProg (Option TickResult) :=
  if step.status ≠ .done then
    return none
  else do
    let inserted ← maybeInsertReview task step
    if inserted then
      return some ⟨some task.id, .reviewInserted, step.stepId⟩
    else do
      let handled ← maybeHandleReviewDone task step
      if handled then do
        let refreshed ← store (.get task.id)
        return reviewHandled task step refreshed
      else do
        let inserted ← maybeInsertReviewAfterRework task step
        if inserted then
          return some ⟨some task.id, .reviewInserted, step.stepId⟩
        else
          return none

/-- `_maybe_insert_review_rows`. -/
def maybeInsertReviewRows (task : TeamTask) : OfficeProg (Option TickResult) :=
  Prog.firstSome (reviewRule task) task.steps

/-! ### Money -/

/-- `step_cost_estimate_usd`. -/
def stepCostEstimateUsd (capUsd : ℚ) (maxSteps : ℕ) : ℚ :=
  if maxSteps = 0 then capUsd else capUsd / maxSteps

/-- The number of steps of a snapshot that run. -/
def runningCount (task : TeamTask) : ℕ :=
  task.steps.countP fun s => decide (s.status = .running)

/-- `spawn_headroom_usd`. -/
def spawnHeadroomUsd (task : TeamTask) (capUsd stepEstimateUsd : ℚ) : OfficeProg ℚ := do
  let spent ← store (.sumCost task.id)
  return capUsd - spent - runningCount task * stepEstimateUsd

/-- `cost_warn_ratio`, for a spend within the cap. -/
def costWarn (spent capUsd : ℚ) : Bool :=
  decide (0 < capUsd) && decide (4 / 5 ≤ spent / capUsd)

/-- `_maybe_warn_cost_cap`. -/
def maybeWarnCostCap (cfg : OfficeConfig) (task : TeamTask) (spent : ℚ) : OfficeProg Unit :=
  if costWarn spent cfg.costCapUsd then
    milestone task "cost_warn"
      (s!"Việc '{task.title}' đã dùng ${fixed 4 spent} / " ++
        s!"${fixed 2 cfg.costCapUsd} — gần chạm trần chi phí.")
  else
    return ()

/-! ### Actions on one step -/

/-- `MAX_STEP_RETRIES`. -/
def maxStepRetries : ℕ := 1

/-- The key of a step in the retry sidecar. -/
def retryKey (task : TeamTask) (step : TeamStep) : String :=
  task.id ++ "/" ++ step.stepId

/-- `ready_pending_steps`. -/
def readyPendingSteps (task : TeamTask) : List TeamStep :=
  let doneIds := (task.steps.filter fun s => decide (s.status = .done)).map fun s => s.stepId
  task.steps.filter fun s => decide (s.status = .pending) && s.deps.all fun dep => decide (dep ∈ doneIds)

/-- `reserve_and_spawn`. -/
def reserveAndSpawn (task : TeamTask) (step : TeamStep) : OfficeProg TickResult := do
  let rosterOk ← isAssignable step.assignedTo
  if rosterOk then do
    let reservation ← store (.reserveStep task.id step.stepId)
    let attemptId ← Prog.ofExcept reservation
    let pid ← Prog.ask (OfficeCall.spawnStep ⟨task.id, step.stepId, step.assignedTo, attemptId⟩)
    store (.recordSpawn task.id step.stepId pid)
    coordinatorStepStatus task step "started"
    return ⟨some task.id, .spawned, s!"{step.stepId} attempt={attemptId} pid={pid}"⟩
  else do
    let _ ← store (.markFailed task.id step.stepId none)
    escalate task (some step) "step_assignee_unauthorized"
      (s!"Bước '{step.title}' của việc '{task.title}' bị dừng: người được giao " ++
        s!"'{step.assignedTo}' không còn hợp lệ (đã bị xoá/vô hiệu hoá) — cần CEO xem lại.")
    return ⟨some task.id, .failed, step.stepId⟩

/-- The branch of `poll_running_step` for a dead process that left no outcome. -/
def retryOrFail (task : TeamTask) (step : TeamStep) : OfficeProg TickResult := do
  let retries ← Prog.ask (OfficeCall.getRetries (retryKey task step))
  if maxStepRetries ≤ retries then do
    let _ ← store (.markFailed task.id step.stepId step.attemptId)
    Prog.ask (OfficeCall.setRetries (retryKey task step) 0)
    escalate task (some step) "step_failed"
      (s!"Bước '{step.title}' của việc '{task.title}' thất bại sau " ++
        s!"{maxStepRetries + 1} lần thử (tiến trình chết, không có kết quả).")
    return ⟨some task.id, .failed, step.stepId⟩
  else do
    Prog.ask (OfficeCall.setRetries (retryKey task step) (retries + 1))
    reserveAndSpawn task step

/-- `DEFAULT_STEP_TIMEOUT_S`. -/
def defaultStepTimeout : ℕ := 600

/-- `kill_pid` on the process of a step. -/
def killStep (step : TeamStep) : OfficeProg Unit :=
  match step.childPid, step.attemptId with
  | some pid, some attemptId => note (.killPid pid attemptId)
  | _, _ => return ()

/-- The branch of `poll_running_step` for an expired lease. -/
def expire (task : TeamTask) (step : TeamStep) : OfficeProg TickResult := do
  killStep step
  let _ ← store (.markTimeout task.id step.stepId step.attemptId)
  coordinatorStepStatus task step "failed"
  escalate task (some step) "step_timeout"
    (s!"Bước '{step.title}' của việc '{task.title}' quá thời hạn " ++
      s!"({defaultStepTimeout}s) — đã dừng tiến trình, cần CEO xem lại.")
  return ⟨some task.id, .timeoutEscalated, step.stepId⟩

/-- Whether the process of a step is gone. -/
def pidDead (step : TeamStep) : OfficeProg Bool :=
  match step.childPid with
  | none => return true
  | some pid => do
      let alive ← query (.pidAlive pid)
      return !alive

/-- `poll_running_step`. -/
def pollRunningStep (task : TeamTask) (step : TeamStep) : OfficeProg TickResult := do
  let dead ← pidDead step
  let now ← Prog.ask OfficeCall.now
  let leaseExpired ← store (.leaseExpired task.id step.stepId now)
  if dead && step.outcomeRef.isNone then
    retryOrFail task step
  else if leaseExpired then
    expire task step
  else
    return ⟨some task.id, .none, s!"{step.stepId} still running"⟩

/-- `poll_awaiting_approval_step`, for a step with an approval id. -/
def pollAwaitingApprovalStep (task : TeamTask) (step : TeamStep) (approvalId : ℕ) :
    OfficeProg TickResult := do
  let decision ← query (.approvalStatus approvalId)
  match decision with
  | some .approved => reserveAndSpawn task step
  | some .rejected => do
      let _ ← store (.markFailed task.id step.stepId step.attemptId)
      escalate task (some step) "step_approval_rejected"
        s!"Bước '{step.title}' của việc '{task.title}' bị từ chối phê duyệt — đã dừng."
      return ⟨some task.id, .failed, step.stepId⟩
  | _ => return ⟨some task.id, .none, s!"{step.stepId} awaiting_approval (id={approvalId})"⟩

/-- The loop of `dispatch_ready_steps`; `spawned` holds this tick's results so far. -/
def dispatchLoop (task : TeamTask) (capUsd estimate : ℚ) (slots : ℕ) :
    List TeamStep → List TickResult → OfficeProg (List TickResult)
  | [], spawned => return spawned
  | step :: ready, spawned =>
      if slots ≤ spawned.length then
        return spawned
      else do
        let headroom ← spawnHeadroomUsd task capUsd estimate
        if headroom - spawned.length * estimate < estimate then
          return spawned
        else do
          let result ← reserveAndSpawn task step
          dispatchLoop task capUsd estimate slots ready (spawned ++ [result])

/-- `dispatch_ready_steps`. -/
def dispatchReadySteps (cfg : OfficeConfig) (task : TeamTask) (ready : List TeamStep) :
    OfficeProg (List TickResult) :=
  let slots := cfg.concurrency - runningCount task
  if slots = 0 then
    return []
  else
    dispatchLoop task cfg.costCapUsd (stepCostEstimateUsd cfg.costCapUsd maxSteps) slots ready []

/-! ### Completion -/

/-- The first characters of a text. -/
def clip (n : ℕ) (s : String) : String :=
  String.ofList (s.toList.take n)

/-- The part of one step in the summary of `make_aggregate`. -/
def aggregatePart (step : TeamStep) (artifact : Option Artifact) : String :=
  let text := match artifact with
    | none => ""
    | some a =>
        if a.text ≠ "" then a.text else a.status.getD ""
  let snippet := if text = "" then "(không có kết quả)" else clip 500 text
  s!"- {step.title}: {snippet}"

/-- The parts of all steps. -/
def aggregateParts (task : TeamTask) : List TeamStep → OfficeProg (List String)
  | [] => return []
  | step :: steps => do
      let artifact ← read (stepArtifactPath task.id step.seq)
      let parts ← aggregateParts task steps
      return aggregatePart step artifact :: parts

/-- `make_aggregate`: the model's summary, or the joined parts. -/
def aggregate (cfg : OfficeConfig) (task : TeamTask) : OfficeProg (String × Option ℚ) := do
  let parts ← aggregateParts task (task.steps.insertionSort fun a b => a.seq ≤ b.seq)
  let fallback := s!"Việc '{task.title}' đã hoàn tất:\n" ++ "\n".intercalate parts
  if cfg.hasApiKey then do
    let result ← query (.complete (.aggregate task.title parts))
    match result with
    | .error _ => return (fallback, none)
    | .ok result => return (if result.content = "" then fallback else result.content, result.costUsd)
  else
    return (fallback, none)

/-- `record_task_cost`, when there is a cost. -/
def recordAggregateCost (task : TeamTask) : Option ℚ → OfficeProg Unit
  | none => return ()
  | some cost => store (.recordTaskCost task.id none (some cost))

/-- `aggregate_and_deliver`. -/
def aggregateAndDeliver (cfg : OfficeConfig) (task : TeamTask) : OfficeProg TickResult := do
  let summary ← aggregate cfg task
  recordAggregateCost task summary.2
  milestone task "done" summary.1
  store (.setTaskStatus task.id .done)
  return ⟨some task.id, .aggregated, clip 80 summary.1⟩

/-- The steps of a snapshot that can never be done. -/
def deadSteps (task : TeamTask) : List TeamStep :=
  task.steps.filter fun s => decide (s.status = .failed) || decide (s.status = .timeout)

/-- Some step of the snapshot is running or waits for an approval. -/
def inFlight (task : TeamTask) : Bool :=
  task.steps.any fun s => decide (s.status = .running) || decide (s.status = .awaitingApproval)

/-- `_dead_end_result`. -/
def deadEndResult (task : TeamTask) : OfficeProg (Option TickResult) :=
  if (deadSteps task).isEmpty || inFlight task then
    return none
  else do
    let names := ", ".intercalate ((deadSteps task).map fun s => "'" ++ s.title ++ "'")
    store (.setTaskStatus task.id .stalled)
    escalate task none "task_stalled_dead_step"
      (s!"Việc '{task.title}' bị dừng: (các) bước {names} thất bại/quá hạn và không " ++
        "còn được thử lại — cần CEO xem lại.")
    return some ⟨some task.id, .stalled, s!"dead step(s): {names}"⟩

/-! ### One tick -/

/-- `_combine_spawn_results`. -/
def combineSpawnResults (task : TeamTask) (first : TickResult) (rest : List TickResult) : TickResult :=
  let all := first :: rest
  ⟨some task.id, if all.any (fun r => decide (r.action = .spawned)) then .spawned else first.action,
    "; ".intercalate (all.map fun r => r.detail)⟩

/-- The steps of a snapshot with a status. -/
def TeamTask.withStatus (task : TeamTask) (status : StepStatus) : List TeamStep :=
  task.steps.filter fun s => decide (s.status = status)

/-- Whether every step of a snapshot is done; false without steps. -/
def TeamTask.allDone (task : TeamTask) : Bool :=
  !task.steps.isEmpty && task.steps.all fun s => decide (s.status = .done)

/-- The last part of `_act_on_task`: all done, a dead end, or nothing. -/
def finish (cfg : OfficeConfig) (task : TeamTask) : OfficeProg TickResult :=
  if task.allDone then
    aggregateAndDeliver cfg task
  else do
    let deadEnd ← deadEndResult task
    return deadEnd.getD ⟨some task.id, .none, "nothing actionable"⟩

/-- The dispatch of `_act_on_task`, and what follows when nothing was dispatched. -/
def dispatchOrFinish (cfg : OfficeConfig) (task : TeamTask) : OfficeProg TickResult :=
  match readyPendingSteps task with
  | [] => finish cfg task
  | ready => do
      let spawned ← dispatchReadySteps cfg task ready
      match spawned with
      | [] => finish cfg task
      | first :: rest => return combineSpawnResults task first rest

/-- The polls of `_act_on_task`. -/
def pollSteps (task : TeamTask) : OfficeProg (Option TickResult) := do
  let polled ← Prog.firstSome
    (fun step => do
      let result ← pollRunningStep task step
      return result.acting)
    (task.withStatus .running)
  match polled with
  | some result => return some result
  | none =>
      Prog.firstSome
        (fun step =>
          match step.approvalId with
          | some approvalId =>
              -- `approval_id` 0 counts as none
              if approvalId = 0 then
                return none
              else do
                let result ← pollAwaitingApprovalStep task step approvalId
                return result.acting
          | none => return none)
        (task.withStatus .awaitingApproval)

/-- `_act_on_task`, once the plan hash is verified and the spend is within the cap. -/
def actWithinCap (cfg : OfficeConfig) (task : TeamTask) : OfficeProg TickResult := do
  let reviewed ← maybeInsertReviewRows task
  match reviewed with
  | some result => return result
  | none => do
      let polled ← pollSteps task
      match polled with
      | some result => return result
      | none => dispatchOrFinish cfg task

/-- `_act_on_task`. -/
def actOnTask (cfg : OfficeConfig) (task : TeamTask) : OfficeProg TickResult :=
  if task.planVerified cfg.rt then do
    let spent ← store (.sumCost task.id)
    if spent ≤ cfg.costCapUsd then do
      maybeWarnCostCap cfg task spent
      actWithinCap cfg task
    else do
      let amounts := s!"${fixed 4 spent} > ${fixed 2 cfg.costCapUsd}"
      store (.setTaskStatus task.id .stalled)
      escalate task none "cost_cap_exceeded"
        s!"Việc '{task.title}' vượt trần chi phí ({amounts}) — đã dừng, cần CEO xem lại."
      return ⟨some task.id, .capExceeded, amounts⟩
  else do
    store (.setTaskStatus task.id .stalled)
    escalate task none "plan_hash_mismatch"
      (s!"Việc '{task.title}' bị dừng: kế hoạch trên đĩa không khớp kế hoạch đã được " ++
        "CEO xác nhận — cần CEO xem lại.")
    return ⟨some task.id, .stalled, "plan_hash mismatch"⟩

/-- `run_one_tick`. -/
def runOneTick (cfg : OfficeConfig) : OfficeProg TickResult := do
  let openTasks ← store .listDispatchable
  let result ← Prog.firstSome
    (fun task => do
      let result ← actOnTask cfg task
      return result.acting)
    openTasks
  return result.getD
    ⟨none, .none, if openTasks.isEmpty then "no open tasks" else "no actionable step in any open task"⟩

/-- `run_team_tick`: a tick, and then the expired drafts. -/
def runTeamTick (cfg : OfficeConfig) : OfficeProg TickResult := do
  let result ← runOneTick cfg
  let _ ← store .cleanupStaleDrafts
  return result

end ProjectManager
