import ProjectManager.Office.World

/-!
# The step workers

A worker runs one step under one lease: `run_team_step` verifies the lease, runs the review
(`review_graph`) or the step graph (`team_task_graph`), and records the outcome; `stepWorker` adds the
fallback artifact of `worker.py`.  The graph runs node by node, as its edges route it, and heartbeats
after every node.
-/

namespace ProjectManager

open Process OfficeProg

/-! ### The state of the step graph -/

/-- `MAX_REWORK`. -/
def maxRework : ℕ := 2

/-- `MAX_CONSULTS`. -/
def maxConsults : ℕ := 2

/-- `MAX_RECOVER`. -/
def maxRecover : ℕ := 1

/-- The graph library's default limit on the nodes of one run. -/
def recursionLimit : ℕ := 25

/-- How the graph has ended. -/
inductive StepOutcome where
  | done | awaitingApproval
deriving DecidableEq, Repr

/-- `TeamStepState`; the defaults are those of the nodes' `get` calls. -/
structure TeamStepState where
  stepTitle : String
  acceptance : String
  attemptId : AttemptId
  handoffContext : String := ""
  resultText : String := ""
  costUsd : Option ℚ := none
  roomMessage : String := ""
  delivered : Bool := false
  status : Option StepOutcome := none
  reworkCount : ℕ := 0
  maxRework : ℕ := ProjectManager.maxRework
  selfCheckPassed : Bool := false
  checkFailures : List String := []
  checkConfidence : ℚ := 0
  checkReasons : List String := []
  selfCheckFailed : Bool := false
  consultCount : ℕ := 0
  consultLog : List String := []
  consultContext : String := ""
  workError : String := ""
  recoverCount : ℕ := 0
  recoverHint : String := ""

/-- What the nodes know of the step they run. -/
structure StepContext where
  cfg : OfficeConfig
  spawn : Spawn
  taskTitle : String
  step : TeamStep

/-! ### Perceive -/

/-- The text that one dependency hands on. -/
def depHandoff (taskId depStepId : String) : OfficeProg (Option String) := do
  let depStep ← store (.getStep taskId depStepId)
  match depStep with
  | none => return none
  | some depStep => do
      let artifact ← read (stepArtifactPath taskId depStep.seq)
      return (artifact.map Artifact.text).filter fun text => decide (text ≠ "")

/-- The texts of all dependencies, in order. -/
def depHandoffs (taskId : String) : List String → OfficeProg (List String)
  | [] => return []
  | dep :: deps => do
      let part ← depHandoff taskId dep
      let parts ← depHandoffs taskId deps
      return part.toList ++ parts

/-- `_read_deps_handoff`. -/
def readDepsHandoff (taskId : String) (stepDeps : List String) : OfficeProg String := do
  let parts ← depHandoffs taskId stepDeps
  return "\n\n".intercalate parts

/-- The node `perceive`. -/
def perceive (c : StepContext) (s : TeamStepState) : OfficeProg TeamStepState := do
  let handoff ← readDepsHandoff c.spawn.taskId c.step.deps
  return { s with handoffContext := handoff }

/-! ### Consults -/

/-- `_append_step_phase_event`. -/
def phaseEvent (c : StepContext) (phase : String) : OfficeProg Unit :=
  note (.room c.spawn.taskId c.step.assignedTo "step_status"
    [("task_title", c.taskTitle), ("step_title", c.step.title), ("status", "started"),
      ("assigned_to", c.step.assignedTo), ("phase", phase), ("attempt_id", c.spawn.attemptId.repr)])

/-- What the consults of one node have given. -/
structure Consults where
  count : ℕ
  log : List String
  context : String
  cost : ℚ

/-- Two blocks with a blank line between them. -/
def joinBlocks (a b : String) : String :=
  if a = "" then b else a ++ "\n\n" ++ b

/-- The consults with one more answer. -/
def Consults.answered (x : Consults) (colleague question answer : String) (cost : ℚ) : Consults :=
  let y := { x with count := x.count + 1, cost := x.cost + cost }
  if answer = "" then
    y
  else
    { y with
      log := x.log ++ [s!"Hỏi {colleague}: {question} -> {answer}"]
      context := joinBlocks x.context s!"[Tham vấn {colleague}] {answer}" }

/-- The questions of `work`, one after the other; a question that fails is skipped. -/
def consultLoop (agent : String) : List (String × String) → Consults → OfficeProg Consults
  | [], x => return x
  | (colleague, question) :: rest, x => do
      let reply ← query (.askColleague agent colleague question)
      match reply with
      | .error _ => consultLoop agent rest x
      | .ok (answer, cost) => consultLoop agent rest (x.answered colleague question answer cost)

/-- The proposals, none when the call fails. -/
def proposeConsults (agent title handoff : String) : OfficeProg (List (String × String)) := do
  let proposals ← query (.proposeConsults agent title handoff)
  match proposals with
  | .error _ => return []
  | .ok proposals => return proposals

/-- The consult part of `work`: off for a step without an assignee and on a retry. -/
def preWorkConsult (c : StepContext) (s : TeamStepState) : OfficeProg Consults :=
  let start : Consults := ⟨s.consultCount, s.consultLog, s.consultContext, 0⟩
  if c.step.assignedTo ≠ "" ∧ s.recoverCount = 0 ∧ s.consultCount < maxConsults then do
    let proposals ← proposeConsults c.step.assignedTo s.stepTitle s.handoffContext
    consultLoop c.step.assignedTo (proposals.take (maxConsults - s.consultCount)) start
  else
    return start

/-! ### Work -/

/-- An amount, none when it is zero. -/
def paid (q : ℚ) : Option ℚ :=
  if q = 0 then none else some q

/-- `_run_work`: the search is best effort. -/
def runWork (agent title handoff : String) : OfficeProg (Except String (String × Option ℚ)) := do
  let found ← query (.search agent title)
  let searchText := match found with
    | .error _ => ""
    | .ok text => text
  let result ← query (.complete (.work agent title handoff searchText))
  return result.map fun r => (r.content, r.costUsd)

/-- One line of an exception's text. -/
def squash (msg : String) : String :=
  let words := (msg.toList.splitOnP Text.isSpace).filter fun w => !w.isEmpty
  let line := String.ofList ((" ".intercalate (words.map String.ofList)).toList.take 200)
  if line = "" then "lỗi không rõ" else line

/-- The node `work`. -/
def work (c : StepContext) (s : TeamStepState) : OfficeProg TeamStepState := do
  phaseEvent c "dang-lam"
  let consults ← preWorkConsult c s
  let handoff := if consults.context = "" then s.handoffContext else joinBlocks s.handoffContext consults.context
  let handoff := if s.recoverHint = "" then handoff else joinBlocks handoff s.recoverHint
  let consulted := { s with
    consultCount := consults.count, consultLog := consults.log, consultContext := consults.context }
  let result ← runWork c.step.assignedTo s.stepTitle handoff
  match result with
  | .error msg =>
      if maxRecover ≤ s.recoverCount then
        Prog.raise msg
      else
        return { consulted with workError := squash msg, costUsd := paid (s.costUsd.getD 0 + consults.cost) }
  | .ok (text, cost) =>
      return { consulted with
        resultText := text
        costUsd := paid (s.costUsd.getD 0 + cost.getD 0 + consults.cost)
        workError := "" }

/-- The question of `recover`, to the first proposal only. -/
def recoverConsult (agent : String) (s : TeamStepState) : List (String × String) → OfficeProg TeamStepState
  | [] => return { s with recoverHint := "" }
  | (colleague, question) :: _ => do
      let reply ← query (.askColleague agent colleague question)
      match reply with
      | .error _ => return { s with recoverHint := "" }
      | .ok (answer, cost) =>
          let asked := { s with
            consultCount := s.consultCount + 1, costUsd := paid (s.costUsd.getD 0 + cost), recoverHint := "" }
          if answer = "" then
            return asked
          else
            return { asked with
              consultLog := s.consultLog ++ [s!"Gỡ kẹt, hỏi {colleague}: {question} -> {answer}"]
              recoverHint := s!"[Gợi ý gỡ kẹt từ {colleague}] {answer}" }

/-- The node `recover`. -/
def recover (c : StepContext) (s : TeamStepState) : OfficeProg TeamStepState := do
  phaseEvent c "nho-tro-giup"
  let retried := { s with recoverCount := s.recoverCount + 1, workError := "", costUsd := paid (s.costUsd.getD 0) }
  if c.step.assignedTo ≠ "" ∧ s.consultCount < maxConsults then do
    let proposals ← proposeConsults c.step.assignedTo
      s!"{s.stepTitle} — ĐANG BỊ KẸT, lỗi hệ thống: {s.workError}" s.handoffContext
    recoverConsult c.step.assignedTo retried proposals
  else
    return { retried with recoverHint := "" }

/-! ### Self-check, rework and delivery -/

/-- `_run_self_check`: without a rubric, and when the check itself breaks, the result passes. -/
def runSelfCheck (c : StepContext) (resultText criteria : String) : OfficeProg CheckVerdict :=
  if Text.strip criteria = "" then
    return ⟨true, [], 1⟩
  else do
    let result ← query (.complete (.selfCheck c.step.assignedTo resultText criteria))
    match result.bind fun r => c.cfg.parseCheckVerdict r.content with
    | .error _ => return ⟨true, [], 0⟩
    | .ok verdict => return verdict

/-- The node `self_check`. -/
def selfCheck (c : StepContext) (s : TeamStepState) : OfficeProg TeamStepState := do
  phaseEvent c "tu-soat"
  let verdict ← runSelfCheck c s.resultText s.acceptance
  return { s with
    selfCheckPassed := verdict.passed
    checkFailures := verdict.failures
    checkConfidence := verdict.confidence
    checkReasons := s.checkReasons ++ verdict.failures
    selfCheckFailed := !verdict.passed && decide (s.maxRework ≤ s.reworkCount) }

/-- The node `rework`. -/
def rework (c : StepContext) (s : TeamStepState) : OfficeProg TeamStepState := do
  phaseEvent c "dang-sua"
  let result ← query (.complete (.rework c.step.assignedTo s.stepTitle s.resultText s.checkFailures))
  let result ← Prog.ofExcept result
  let prior := s.costUsd.getD 0
  let cost := result.costUsd.getD 0
  return { s with
    resultText := result.content
    costUsd := if prior = 0 ∧ cost = 0 then none else some (prior + cost)
    reworkCount := s.reworkCount + 1 }

/-- `_room_message`. -/
def roomMessage (stepTitle resultText : String) : String :=
  let snippet := (Text.strip resultText).toList.map fun c => if c = '\n' then ' ' else c
  let snippet := if 200 < snippet.length then String.ofList (snippet.take 197) ++ "..." else String.ofList snippet
  if snippet = "" then s!"[{stepTitle}] (không có nội dung)" else s!"[{stepTitle}] {snippet}"

/-- The handoff artifact of a finished step. -/
def handoffArtifact (c : StepContext) (s : TeamStepState) : Artifact where
  status := some "done"
  resultText := some s.resultText
  stepTitle := some c.step.title
  attempt := some s.attemptId
  version := some s.attemptId
  selfCheckFailed := some s.selfCheckFailed

/-- `_deliver`: writes the handoff artifact. -/
def deliverStep (c : StepContext) (s : TeamStepState) : OfficeProg TeamStepState := do
  Prog.ask (OfficeCall.writeArtifact (stepArtifactPath c.spawn.taskId c.step.seq) (handoffArtifact c s))
  return { s with
    status := some .done, delivered := true, roomMessage := roomMessage c.step.title s.resultText }

/-- The node `deliver`. -/
def deliver (c : StepContext) (s : TeamStepState) : OfficeProg TeamStepState :=
  if c.cfg.external c.step.assignedTo then do
    let answer ← query (.externalWrite c.step.assignedTo s.resultText)
    let proceed ← Prog.ofExcept answer
    if proceed then
      deliverStep c s
    else
      return { s with status := some .awaitingApproval, delivered := false, roomMessage := "" }
  else
    deliverStep c s

/-! ### The graph -/

/-- The nodes. -/
inductive GraphNode where
  | perceive | work | selfCheck | rework | recover | deliver
deriving DecidableEq, Repr

/-- What a node does. -/
def GraphNode.prog (c : StepContext) : GraphNode → TeamStepState → OfficeProg TeamStepState
  | perceive, s => ProjectManager.perceive c s
  | work, s => ProjectManager.work c s
  | selfCheck, s => ProjectManager.selfCheck c s
  | rework, s => ProjectManager.rework c s
  | recover, s => ProjectManager.recover c s
  | deliver, s => ProjectManager.deliver c s

/-- The edges, `route_after_work` and `route_after_check` among them. -/
def GraphNode.route : GraphNode → TeamStepState → Option GraphNode
  | perceive, _ => some work
  | work, s => if s.workError ≠ "" then some recover else some selfCheck
  | recover, _ => some work
  | selfCheck, s =>
      if s.selfCheckPassed then some deliver
      else if s.reworkCount < s.maxRework then some rework
      else some deliver
  | rework, _ => some selfCheck
  | deliver, _ => none

/-- Runs the graph from a node on; the step heartbeats after every node. -/
def stream (c : StepContext) : ℕ → GraphNode → TeamStepState → OfficeProg TeamStepState
  | 0, _, _ =>
      Prog.raise s!"Recursion limit of {recursionLimit} reached without hitting a stop condition."
  | n + 1, node, s => do
      let s ← node.prog c s
      store (.heartbeat c.spawn.taskId c.spawn.stepId)
      match node.route s with
      | none => return s
      | some next => stream c n next s

/-! ### Outcomes -/

/-- What `_run_graph` and `_run_review` return to `run_team_step`. -/
structure StepResult where
  awaitingApproval : Bool
  costUsd : Option ℚ
  delivered : Bool
  roomMessage : String
  passed : Option Bool := none
  failures : List String := []
deriving DecidableEq, Repr

/-- `_run_graph`. -/
def runGraph (c : StepContext) : OfficeProg StepResult := do
  let s ← stream c recursionLimit .perceive
    { stepTitle := c.step.title, acceptance := c.step.acceptance, attemptId := c.spawn.attemptId }
  return ⟨decide (s.status = some .awaitingApproval), s.costUsd, s.delivered, s.roomMessage, none, []⟩

/-! ### Reviews -/

/-- The result `stale_artifact`. -/
def staleArtifact : StepResult :=
  ⟨false, none, false, "", none, []⟩

/-- `_rework_handoff_text`. -/
def reworkHandoffText (priorOutput : String) (failures : List String) : String :=
  let failuresText :=
    if failures.isEmpty then "(không có chi tiết)"
    else "\n".intercalate (failures.map fun f => "- " ++ f)
  Text.strip priorOutput ++ "\n\nDanh sách lỗi cần sửa:\n" ++ failuresText

/-- The verdict artifact of a review. -/
def verdictArtifact (verdict : ReviewVerdict) (lockedVersion : Option AttemptId) (reviewRound : ℕ)
    (resultText : String) : Artifact where
  passed := some verdict.passed
  failures := some verdict.failures
  reviewedVersion := lockedVersion
  round := some reviewRound
  resultText := some (reworkHandoffText resultText verdict.failures)

/-- `ReviewStepInput`. -/
structure ReviewStepInput where
  gradedSeq : ℕ
  verdictSeq : ℕ
  lockedVersion : Option AttemptId
  acceptance : String
  stepTitle : String

/-- The artifact is there and has the version that the review was locked on. -/
def graded (artifact : Option Artifact) (lockedVersion : Option AttemptId) : Option Artifact :=
  artifact.filter fun a => a.lockedVersion.isSome && decide (a.lockedVersion = lockedVersion)

/-- `run_review_step`. -/
def runReviewStep (c : StepContext) (input : ReviewStepInput) : OfficeProg StepResult := do
  let artifact ← read (stepArtifactPath c.spawn.taskId input.gradedSeq)
  match graded artifact input.lockedVersion with
  | none => return staleArtifact
  | some artifact => do
      let answer ← query (.complete (.review c.step.assignedTo artifact.text input.acceptance))
      let result ← Prog.ofExcept answer
      let verdict ← Prog.ofExcept (c.cfg.parseReviewVerdict result.content)
      Prog.ask (OfficeCall.writeArtifact
        (reviewVerdictArtifactPath c.spawn.taskId input.verdictSeq c.step.reviewRound)
        (verdictArtifact verdict input.lockedVersion c.step.reviewRound artifact.text))
      let label := if verdict.passed then "đạt" else s!"cần sửa ({verdict.failures.length} lỗi)"
      return ⟨false, result.costUsd, true, s!"Soát chéo [{input.stepTitle}]: {label}", some verdict.passed,
        verdict.failures⟩

/-- `_run_review`, once the reviewed step is found. -/
def runReviewOf (c : StepContext) (content : TeamStep) : OfficeProg StepResult := do
  let depStep ← store (.getStep c.spawn.taskId (c.step.deps.head?.getD content.stepId))
  runReviewStep c
    { gradedSeq := (depStep.map fun s => s.seq).getD content.seq
      verdictSeq := content.seq
      lockedVersion := depStep.bind fun s => s.attemptId
      acceptance := content.acceptance
      stepTitle := content.title }

/-- `_run_review`. -/
def runReview (c : StepContext) : OfficeProg StepResult :=
  match c.step.parentStepId with
  | none => return staleArtifact
  | some parentStepId => do
      let content ← store (.getStep c.spawn.taskId parentStepId)
      match content with
      | none => return staleArtifact
      | some content => runReviewOf c content

/-! ### The run of one step -/

/-- `_append_step_event` and `_append_review_event` after a finished step. -/
def doneEvent (c : StepContext) (result : StepResult) : OfficeProg Unit :=
  if c.step.stepType = .review then
    match result.passed with
    | none => return ()
    | some passed =>
        note (.room c.spawn.taskId c.step.assignedTo "review"
          [("task_title", c.taskTitle), ("step_title", c.step.title),
            ("verdict", if passed then "passed" else "needs_rework"),
            ("failure_count", result.failures.length.repr), ("assigned_to", c.step.assignedTo)])
  else
    note (.room c.spawn.taskId c.step.assignedTo "handoff"
      [("task_title", c.taskTitle), ("step_title", c.step.title), ("status", "done"),
        ("assigned_to", c.step.assignedTo), ("message", result.roomMessage)])

/-- The values of `status` that `run_team_step` returns. -/
inductive RunStatus where
  | done | rejected | paused
deriving DecidableEq, Repr

/-- The body of the step, by its type. -/
def runBody (c : StepContext) : OfficeProg StepResult :=
  if c.step.stepType = .review then runReview c else runGraph c

/-- The part of `run_team_step` after the lease is verified and the rows are read. -/
def runLeased (c : StepContext) : OfficeProg RunStatus := do
  let result ← runBody c
  if result.awaitingApproval then do
    let _ ← store (.markAwaitingApproval c.spawn.taskId c.spawn.stepId (some c.spawn.attemptId) none)
    return .paused
  else do
    let _ ← store (.markDone c.spawn.taskId c.spawn.stepId
      (some s!"team-tasks/{c.spawn.taskId}/step-{c.step.seq}.json") result.costUsd (some c.spawn.attemptId))
    doneEvent c result
    return .done

/-- The failure path of `run_team_step`. -/
def failLeased (c : StepContext) (msg : String) : OfficeProg RunStatus := do
  let _ ← store (.markFailed c.spawn.taskId c.spawn.stepId (some c.spawn.attemptId))
  note (.room c.spawn.taskId c.step.assignedTo "step_status"
    [("task_title", c.taskTitle), ("step_title", c.step.title), ("status", "failed"),
      ("assigned_to", c.step.assignedTo)])
  Prog.raise msg

/-- `run_team_step`. -/
def runTeamStep (cfg : OfficeConfig) (s : Spawn) : OfficeProg RunStatus := do
  let verified ← store (.verifyAttempt s.taskId s.stepId s.attemptId)
  if verified then do
    let step ← store (.getStep s.taskId s.stepId)
    let task ← store (.get s.taskId)
    match step, task with
    | some step, some task =>
        (runLeased ⟨cfg, s, task.title, step⟩).catchWith (failLeased ⟨cfg, s, task.title, step⟩)
    | _, _ => return .rejected
  else
    return .rejected

/-- `_write_outcome`: the artifact of a step that never reached `deliver`. -/
def writeOutcome (s : Spawn) (status : String) (error : Option String) : OfficeProg Unit := do
  let step ← store (.getStep s.taskId s.stepId)
  match step with
  | none => return ()
  | some step =>
      Prog.ask (OfficeCall.writeArtifact (stepArtifactPath s.taskId step.seq)
        { status := some status, stepTitle := some step.title, error := error })

/-- `_run_team_step_kind`, as a process. -/
def stepWorker (cfg : OfficeConfig) (s : Spawn) : OfficeProg Unit :=
  Prog.catchWith
    (do
      let status ← runTeamStep cfg s
      if status = .paused then
        writeOutcome s "awaiting_approval" none
      else
        return ())
    fun msg => writeOutcome s "failed" (if msg = "" then none else some msg)

end ProjectManager
