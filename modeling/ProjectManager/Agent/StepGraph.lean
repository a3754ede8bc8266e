import ProjectManager.Lib.NodeGraph
import ProjectManager.Office.Worker

/-!
# The graph of a step

`team_task_graph` over any collaborators: what `TeamTaskDeps` injects is a call that may answer anything of its type
or raise, and only the hooks that are wired are called.  The nodes read and write the state as the source does, the
edges are those of `GraphNode.route`, and `node` shows which node is run on which state.
-/

namespace ProjectManager

open Process

/-! ### Collaborators -/

/-- An exception: its text, and whether `except Exception` catches it. -/
structure Raised where
  text : String
  ordinary : Bool

/-- `TeamTaskDeps`: the optional hooks that are wired. -/
structure TeamTaskDeps where
  askColleague : Bool
  proposeConsults : Bool
  setAttemptId : Bool
  externalWrite : Bool

/-- The calls of the nodes, and the node that is run. -/
inductive StepCall where
  | node (node : GraphNode) (s : TeamStepState)
  /-- the stream writer -/
  | phase (tag : String)
  | readHandoff
  | setAttemptId (attemptId : AttemptId)
  | proposeConsults (brief handoff : String)
  | askColleague (colleague question : String)
  | runWork (title handoff : String)
  | runSelfCheck (resultText criteria : String)
  | runRework (brief priorOutput : String) (failures : List String)
  | externalWrite (resultText : String)
  | deliverStep (resultText : String) (version : AttemptId) (selfCheckFailed : Bool)

/-- The answers. -/
abbrev StepCall.Resp : StepCall → Type
  | .node _ _ => Unit
  | .phase _ => Unit
  | .readHandoff => Except Raised String
  | .setAttemptId _ => Except Raised Unit
  | .proposeConsults _ _ => Except Raised (List (String × String))
  | .askColleague _ _ => Except Raised (String × Option ℚ)
  | .runWork _ _ => Except Raised (String × Option ℚ)
  | .runSelfCheck _ _ => Except Raised CheckVerdict
  | .runRework _ _ _ => Except Raised (String × Option ℚ)
  | .externalWrite _ => Except Raised Bool
  | .deliverStep _ _ _ => Except Raised (Bool × String)

/-- Programs of the nodes. -/
abbrev StepProg :=
  Prog StepCall StepCall.Resp

/-- Issues one call. -/
def collaborate (c : StepCall) : StepProg c.Resp :=
  .ask c

/-- An exception that nobody catches. -/
def orRaise {α : Type} : Except Raised α → StepProg α
  | .ok a => .ret a
  | .error exc => .raise exc.text

namespace TeamTaskDeps

variable (deps : TeamTaskDeps)

/-! ### Consults -/

/-- Both hooks of a consult are wired. -/
def consults : Bool :=
  deps.askColleague && deps.proposeConsults

/-- `set_attempt_id`, when it is wired. -/
def tellAttempt (s : TeamStepState) : StepProg Unit := do
  if deps.setAttemptId then
    orRaise (← collaborate (.setAttemptId s.attemptId))

/-- `propose_consults`; without an answer there are no proposals. -/
def propose (brief handoff : String) : StepProg (List (String × String)) := do
  match ← collaborate (.proposeConsults brief handoff) with
  | .ok proposals => return proposals
  | .error exc => if exc.ordinary then return [] else Prog.raise exc.text

/-- The loop over the proposals: a question that fails is skipped. -/
def askEach (answered : Consults → String → String → String → ℚ → Consults) :
    List (String × String) → Consults → StepProg Consults
  | [], x => return x
  | (colleague, question) :: rest, x => do
      match ← collaborate (.askColleague colleague question) with
      | .ok (answer, cost) => askEach answered rest (answered x colleague question answer (cost.getD 0))
      | .error exc => if exc.ordinary then askEach answered rest x else Prog.raise exc.text

/-- The consult part of `work`: off on a retry. -/
def consultBefore (s : TeamStepState) : StepProg Consults := do
  let start : Consults := ⟨s.consultCount, s.consultLog, s.consultContext, 0⟩
  if deps.consults ∧ s.recoverCount = 0 then
    deps.tellAttempt s
    if s.consultCount < maxConsults then
      let proposals ← propose s.stepTitle s.handoffContext
      askEach Consults.answered (proposals.take (maxConsults - s.consultCount)) start
    else
      return start
  else
    return start

/-- The consults of `recover` with one more answer; what they leave is the hint. -/
def unblocked (x : Consults) (colleague question answer : String) (cost : ℚ) : Consults :=
  let y := { x with count := x.count + 1, cost := x.cost + cost }
  if answer = "" then
    y
  else
    { y with
      log := x.log ++ [s!"Gỡ kẹt, hỏi {colleague}: {question} -> {answer}"]
      context := s!"[Gợi ý gỡ kẹt từ {colleague}] {answer}" }

/-- The consult part of `recover`: the first proposal only. -/
def consultStuck (s : TeamStepState) : StepProg Consults := do
  let start : Consults := ⟨s.consultCount, s.consultLog, "", 0⟩
  if deps.consults ∧ s.consultCount < maxConsults then
    deps.tellAttempt s
    let proposals ← propose s!"{s.stepTitle} — ĐANG BỊ KẸT, lỗi hệ thống: {s.workError}" s.handoffContext
    askEach unblocked (proposals.take 1) start
  else
    return start

/-! ### Nodes -/

/-- The node `perceive`. -/
def perceive (s : TeamStepState) : StepProg TeamStepState := do
  let handoff ← orRaise (← collaborate .readHandoff)
  return { s with handoffContext := handoff }

/-- What `work` returns when the work is done. -/
def workDone (s : TeamStepState) (x : Consults) (text : String) (cost : Option ℚ) : TeamStepState :=
  { s with
    resultText := text
    costUsd := paid (s.costUsd.getD 0 + cost.getD 0 + x.cost)
    consultCount := x.count
    consultLog := x.log
    consultContext := x.context
    workError := "" }

/-- What `work` returns when the work has failed and may be tried again. -/
def workFailed (s : TeamStepState) (x : Consults) (exc : Raised) : TeamStepState :=
  { s with
    workError := squash exc.text
    costUsd := paid (s.costUsd.getD 0 + x.cost)
    consultCount := x.count
    consultLog := x.log
    consultContext := x.context }

/-- The node `work`. -/
def work (s : TeamStepState) : StepProg TeamStepState := do
  collaborate (.phase "dang-lam")
  let x ← deps.consultBefore s
  let handoff := if x.context = "" then s.handoffContext else joinBlocks s.handoffContext x.context
  let handoff := if s.recoverHint = "" then handoff else joinBlocks handoff s.recoverHint
  match ← collaborate (.runWork s.stepTitle handoff) with
  | .ok (text, cost) => return workDone s x text cost
  | .error exc =>
      if exc.ordinary ∧ s.recoverCount < maxRecover then
        return workFailed s x exc
      else
        Prog.raise exc.text

/-- The node `self_check`. -/
def selfCheck (s : TeamStepState) : StepProg TeamStepState := do
  collaborate (.phase "tu-soat")
  let verdict ← orRaise (← collaborate (.runSelfCheck s.resultText s.acceptance))
  return { s with
    selfCheckPassed := verdict.passed
    checkFailures := verdict.failures
    checkConfidence := verdict.confidence
    checkReasons := s.checkReasons ++ verdict.failures
    selfCheckFailed := !verdict.passed && decide (s.maxRework ≤ s.reworkCount) }

/-- The node `rework`. -/
def rework (s : TeamStepState) : StepProg TeamStepState := do
  collaborate (.phase "dang-sua")
  let (text, cost) ← orRaise (← collaborate (.runRework s.stepTitle s.resultText s.checkFailures))
  return { s with
    resultText := text
    costUsd := if s.costUsd.getD 0 = 0 ∧ cost.getD 0 = 0 then none else some (s.costUsd.getD 0 + cost.getD 0)
    reworkCount := s.reworkCount + 1 }

/-- The node `recover`. -/
def recover (s : TeamStepState) : StepProg TeamStepState := do
  collaborate (.phase "nho-tro-giup")
  let x ← deps.consultStuck s
  return { s with
    recoverCount := s.recoverCount + 1
    recoverHint := x.context
    workError := ""
    consultCount := x.count
    consultLog := x.log
    costUsd := paid (s.costUsd.getD 0 + x.cost) }

/-- `deliver_step`, and what the node makes of it. -/
def deliverDone (s : TeamStepState) : StepProg TeamStepState := do
  let (delivered, message) ← orRaise (← collaborate (.deliverStep s.resultText s.attemptId s.selfCheckFailed))
  return { s with status := some .done, delivered := delivered, roomMessage := message }

/-- The node `deliver`. -/
def deliver (s : TeamStepState) : StepProg TeamStepState := do
  if deps.externalWrite then
    let proceed ← orRaise (← collaborate (.externalWrite s.resultText))
    if proceed then
      deliverDone s
    else
      return { s with status := some .awaitingApproval, delivered := false, roomMessage := "" }
  else
    deliverDone s

/-! ### The graph -/

/-- What a node does. -/
def nodeProg : GraphNode → TeamStepState → StepProg TeamStepState
  | .perceive => perceive
  | .work => deps.work
  | .selfCheck => selfCheck
  | .rework => rework
  | .recover => deps.recover
  | .deliver => deps.deliver

/-- `build_team_task_graph`. -/
def graph : NodeGraph GraphNode TeamStepState StepCall StepCall.Resp where
  enter := .node
  run := deps.nodeProg
  next := GraphNode.route

/-- A run of the graph. -/
def runGraph (fuel : ℕ) (s : TeamStepState) : StepProg (Option TeamStepState) :=
  deps.graph.exec fuel .perceive s

end TeamTaskDeps

end ProjectManager
