import ProjectManager.Agent.StepSpending
import ProjectManager.Lib.Implementation
import ProjectManager.Lib.Text

/-!
# The default collaborators of a step

`default_team_task_deps`: the collaborators of the step graph as programs over the calls they make, the completions
of the language model among them.  Each completion comes with what it is for, and a failure that is no `Exception`
ends the run.  The cost of a work, a rework and a consult answer is handed on; that of a self-check and of a consult
proposal is not, and `step_cost_iff` says what follows for the cost of a step.
-/

namespace ProjectManager

open Process

/-! ### The collaborators -/

/-- What a completion is asked for, with what its messages are built from. -/
inductive StepRequest where
  | work (title handoff searchText : String)
  | selfCheck (resultText criteria : String)
  | rework (brief priorOutput : String) (failures : List String)
  | proposal (title handoff : String) (roster : List (String × String))
  | consult (soul project question : String)

/-- The calls of the default collaborators. -/
inductive DefaultCall where
  | node (node : GraphNode) (s : TeamStepState)
  | phase (tag : String)
  | readDepsHandoff
  | search (title : String)
  /-- the assignable staff, with their domains -/
  | assignableStaff
  /-- the same, each with a hint about the role -/
  | roleHints (roster : List (String × String))
  /-- the persona and the project of a colleague -/
  | loadProfile (agentId : String)
  | complete (request : StepRequest)
  | appendConsult (agentId question answer : String)
  | writeStepArtifact (resultText : String) (version : AttemptId) (selfCheckFailed : Bool)

/-- The answers. -/
abbrev DefaultCall.Resp : DefaultCall → Type
  | .node _ _ => Unit
  | .phase _ => Unit
  | .readDepsHandoff => Except Raised String
  | .search _ => Except Raised String
  | .assignableStaff => Except Raised (List (String × String))
  | .roleHints _ => Except Raised (List (String × String))
  | .loadProfile _ => Except Raised (String × String)
  | .complete _ => Except Raised LlmResult
  | .appendConsult _ _ _ => Except Raised Unit
  | .writeStepArtifact _ _ _ => Except Raised Unit

/-- Programs of the default collaborators. -/
abbrev DefaultProg :=
  Prog DefaultCall DefaultCall.Resp

/-- Issues one call. -/
def invoke (c : DefaultCall) : DefaultProg c.Resp :=
  .ask c

/-- An `Exception` becomes a value; anything else ends the run. -/
def caught {α : Type} : Except Raised α → DefaultProg (Except Raised α)
  | .ok a => .ret (.ok a)
  | .error exc => if exc.ordinary then .ret (.error exc) else .raise exc.text

/-- `MAX_PROPOSALS`. -/
def maxProposals : ℕ := 2

/-- What the collaborators are built from: the step, its assignee, whether there is a search, the room, and the parsers
of the model's answers, which fail with `ValueError`s. -/
structure DefaultDeps where
  stepTitle : String
  selfId : String
  searches : Bool
  roomId : String
  parseCheckVerdict : String → Except Unit CheckVerdict
  parseConsultProposal : String → Except Unit (List (String × String))

namespace DefaultDeps

variable (d : DefaultDeps)

/-- The search for a step: best effort. -/
def searchText (title : String) : DefaultProg String := do
  if d.searches then
    match ← caught (← invoke (.search title)) with
    | .ok text => return text
    | .error _ => return ""
  else
    return ""

/-- `_run_work`. -/
def runWork (title handoff : String) : DefaultProg (Except Raised (String × Option ℚ)) := do
  let searchText ← d.searchText title
  match ← caught (← invoke (.complete (.work title handoff searchText))) with
  | .ok result => return .ok (result.content, result.costUsd)
  | .error exc => return .error exc

/-- `_run_self_check`: passed without criteria, and when the check fails. -/
def runSelfCheck (resultText criteria : String) : DefaultProg (Except Raised CheckVerdict) := do
  if Text.strip criteria = "" then
    return .ok ⟨true, [], 1⟩
  else
    match ← caught (← invoke (.complete (.selfCheck resultText criteria))) with
    | .ok result =>
        match d.parseCheckVerdict result.content with
        | .ok verdict => return .ok verdict
        | .error _ => return .ok ⟨true, [], 0⟩
    | .error _ => return .ok ⟨true, [], 0⟩

/-- `_run_rework`. -/
def runRework (brief priorOutput : String) (failures : List String) : DefaultProg (Except Raised (String × Option ℚ)) := do
  match ← caught (← invoke (.complete (.rework brief priorOutput failures))) with
  | .ok result => return .ok (result.content, result.costUsd)
  | .error exc => return .error exc

/-- `propose_consult_targets`: no proposals without a roster, and when anything fails. -/
def proposeConsultTargets (title handoff : String) (roster : List (String × String)) :
    DefaultProg (List (String × String)) := do
  if roster = [] then
    return []
  else
    match ← caught (← invoke (.complete (.proposal title handoff roster))) with
    | .ok result =>
        match d.parseConsultProposal result.content with
        | .ok items =>
            return (items.take maxProposals).filter fun item =>
              roster.any (fun r => r.1 == item.1) && Text.strip item.2 != ""
        | .error _ => return []
    | .error _ => return []

/-- `_propose_consults`. -/
def proposeConsults (title handoff : String) : DefaultProg (Except Raised (List (String × String))) := do
  match ← caught (← invoke .assignableStaff) with
  | .error exc => return .error exc
  | .ok staff =>
      match ← caught (← invoke (.roleHints (staff.filter fun r => r.1 ≠ d.selfId))) with
      | .error exc => return .error exc
      | .ok roster => return .ok (← d.proposeConsultTargets title handoff roster)

/-- The answer of a colleague, blank when anything fails. -/
def consult (agentId question : String) : DefaultProg (String × ℚ) := do
  match ← caught (← invoke (.loadProfile agentId)) with
  | .error _ => return ("", 0)
  | .ok (soul, project) =>
      match ← caught (← invoke (.complete (.consult soul project question))) with
      | .ok result => return (result.content, result.costUsd.getD 0)
      | .error _ => return ("", 0)

/-- `ask_colleague`. -/
def askColleague (agentId question : String) : DefaultProg (Except Raised (String × Option ℚ)) := do
  if agentId = d.selfId then
    return .ok ("", some 0)
  else
    match ← caught (← invoke .assignableStaff) with
    | .error exc => return .error exc
    | .ok staff =>
        if !staff.any (fun r => r.1 == agentId) then
          return .ok ("", some 0)
        else
          let (answer, cost) ← consult agentId question
          if d.roomId ≠ "" then
            -- a failure to append is logged only
            let _ ← caught (← invoke (.appendConsult agentId question answer))
            return .ok (answer, some cost)
          else
            return .ok (answer, some cost)

/-- `_deliver`, with the message for the room. -/
def deliver (resultText : String) (version : AttemptId) (selfCheckFailed : Bool) :
    DefaultProg (Except Raised (Bool × String)) := do
  match ← caught (← invoke (.writeStepArtifact resultText version selfCheckFailed)) with
  | .ok _ => return .ok (true, roomMessage d.stepTitle resultText)
  | .error exc => return .error exc

/-- The hooks that are wired: those of a consult need the assignee. -/
def hooks : TeamTaskDeps :=
  ⟨d.selfId != "", d.selfId != "", d.selfId != "", false⟩

/-- `default_team_task_deps`. -/
def answer : (c : StepCall) → DefaultProg c.Resp
  | .node node s => invoke (.node node s)
  | .phase tag => invoke (.phase tag)
  | .readHandoff => do caught (← invoke .readDepsHandoff)
  | .setAttemptId _ => .ret (.ok ())
  | .proposeConsults title handoff => d.proposeConsults title handoff
  | .askColleague agentId question => d.askColleague agentId question
  | .runWork title handoff => d.runWork title handoff
  | .runSelfCheck resultText criteria => d.runSelfCheck resultText criteria
  | .runRework brief priorOutput failures => runRework brief priorOutput failures
  | .externalWrite _ => .ret (.ok true)
  | .deliverStep resultText version selfCheckFailed => d.deliver resultText version selfCheckFailed

/-- A run of the step graph with the default collaborators. -/
def runStep (fuel : ℕ) (acceptance : String) (attemptId : AttemptId) (m : ℕ) : DefaultProg (Option TeamStepState) :=
  (d.hooks.runStep fuel d.stepTitle acceptance attemptId m).carry d.answer

end DefaultDeps

/-! ### The costs -/

/-- Whether the cost of such a completion is handed on. -/
def StepRequest.reported : StepRequest → Bool
  | .work _ _ _ | .rework _ _ _ | .consult _ _ _ => true
  | .selfCheck _ _ | .proposal _ _ _ => false

/-- The known cost of a completion. -/
def completionCost : Except Raised LlmResult → ℚ
  | .ok result => result.costUsd.getD 0
  | .error _ => 0

/-- What a call has cost, if it is a completion of a kind. -/
def DefaultCall.cost (kind : StepRequest → Bool) : (c : DefaultCall) → c.Resp → ℚ
  | .complete request, r => if kind request then completionCost r else 0
  | _, _ => 0

/-- What the completions of a kind have cost. -/
def costOf (kind : StepRequest → Bool) (log : Log DefaultCall DefaultCall.Resp) : ℚ :=
  (log.map fun entry => entry.1.cost kind entry.2).sum

/-- What all completions have cost. -/
def totalCost (log : Log DefaultCall DefaultCall.Resp) : ℚ :=
  costOf (fun _ => true) log

/-- What the self-checks and the consult proposals have cost. -/
def droppedCost (log : Log DefaultCall DefaultCall.Resp) : ℚ :=
  costOf (fun request => !request.reported) log

section

variable {kind : StepRequest → Bool} {log : Log DefaultCall DefaultCall.Resp}

theorem costOf_concat (c : DefaultCall) (r : c.Resp) : costOf kind (log ++ [⟨c, r⟩]) = costOf kind log + c.cost kind r := by
  simp [costOf]

theorem costOf_free {c : DefaultCall} {r : c.Resp} (h : c.cost kind r = 0) :
    costOf kind (log ++ [⟨c, r⟩]) = costOf kind log := by
  rw [costOf_concat, h, add_zero]

/-- Every completion is reported or dropped. -/
theorem totalCost_eq (log : Log DefaultCall DefaultCall.Resp) :
    totalCost log = costOf StepRequest.reported log + droppedCost log := by
  unfold totalCost droppedCost costOf
  rw [← List.sum_map_add]
  congr 1
  refine List.map_congr_left fun entry _ => ?_
  obtain ⟨c, r⟩ := entry
  cases c with
  | complete request =>
      cases request <;> simp [DefaultCall.cost, StepRequest.reported]
  | _ =>
      exact (add_zero 0).symm

/-- Whatever is answered, the program returns with `Q` of what has been reported. -/
abbrev Reports {α : Type} (Q : ℚ → α → Prop) (prog : DefaultProg α) (log : Log DefaultCall DefaultCall.Resp) : Prop :=
  prog.Follows (fun _ _ => True) (fun _ _ => True) (fun log' a => Q (costOf StepRequest.reported log') a) (fun _ _ => True) log

theorem caught_follows {α β : Type} {Q : Log DefaultCall DefaultCall.Resp → β → Prop} {x : Except Raised α}
    {f : Except Raised α → DefaultProg β}
    (h : (f x).Follows (fun _ _ => True) (fun _ _ => True) Q (fun _ _ => True) log) :
    ((caught x).bind f).Follows (fun _ _ => True) (fun _ _ => True) Q (fun _ _ => True) log := by
  cases x with
  | ok a =>
      exact h
  | error exc =>
      obtain ⟨_, _ | _⟩ := exc
      · trivial
      · exact h

variable {d : DefaultDeps}

theorem searchText_reports (title : String) :
    Reports (fun q _ => q = costOf StepRequest.reported log) (d.searchText title) log := by
  unfold DefaultDeps.searchText
  split
  · refine ⟨trivial, fun r _ => caught_follows ?_⟩
    cases r with
    | ok text =>
        exact costOf_free rfl
    | error exc =>
        exact costOf_free rfl
  · rfl

theorem runWork_reports (title handoff : String) : Reports
    (fun q r => q = costOf StepRequest.reported log + answerCost r) (d.runWork title handoff) log := by
  refine (searchText_reports title).bind fun log₁ text h₁ => ⟨trivial, fun r _ => caught_follows ?_⟩
  cases r with
  | ok result =>
      change costOf _ (log₁ ++ _) = _
      rw [costOf_concat, h₁]
      rfl
  | error exc =>
      change costOf _ (log₁ ++ _) = _
      rw [costOf_concat, h₁]
      rfl

theorem runSelfCheck_reports (resultText criteria : String) : Reports
    (fun q _ => q = costOf StepRequest.reported log) (d.runSelfCheck resultText criteria) log := by
  unfold DefaultDeps.runSelfCheck
  split
  · rfl
  · refine ⟨trivial, fun r _ => caught_follows ?_⟩
    cases r with
    | ok result =>
        change Prog.Follows _ _ _ _ (match d.parseCheckVerdict result.content with | .ok _ => _ | .error _ => _) _
        split
        · exact costOf_free rfl
        · exact costOf_free rfl
    | error exc =>
        exact costOf_free rfl

theorem runRework_reports (brief priorOutput : String) (failures : List String) : Reports
    (fun q r => q = costOf StepRequest.reported log + answerCost r) (DefaultDeps.runRework brief priorOutput failures) log := by
  refine ⟨trivial, fun r _ => caught_follows ?_⟩
  cases r with
  | ok result =>
      exact costOf_concat _ _
  | error exc =>
      exact costOf_concat _ _

theorem proposeConsultTargets_reports (title handoff : String) (roster : List (String × String)) : Reports
    (fun q _ => q = costOf StepRequest.reported log) (d.proposeConsultTargets title handoff roster) log := by
  unfold DefaultDeps.proposeConsultTargets
  split
  · rfl
  · refine ⟨trivial, fun r _ => caught_follows ?_⟩
    cases r with
    | ok result =>
        change Prog.Follows _ _ _ _ (match d.parseConsultProposal result.content with | .ok _ => _ | .error _ => _) _
        split
        · exact costOf_free rfl
        · exact costOf_free rfl
    | error exc =>
        exact costOf_free rfl

theorem proposeConsults_reports (title handoff : String) : Reports
    (fun q _ => q = costOf StepRequest.reported log) (d.proposeConsults title handoff) log := by
  refine ⟨trivial, fun r _ => caught_follows ?_⟩
  cases r with
  | error exc =>
      exact costOf_free rfl
  | ok staff =>
      refine ⟨trivial, fun r _ => caught_follows ?_⟩
      cases r with
      | error exc =>
          exact (costOf_free rfl).trans (costOf_free rfl)
      | ok roster =>
          refine (proposeConsultTargets_reports title handoff roster).bind fun log₁ proposals h₁ => ?_
          exact (h₁.trans (costOf_free rfl)).trans (costOf_free rfl)

theorem consult_reports (agentId question : String) : Reports
    (fun q r => q = costOf StepRequest.reported log + r.2) (DefaultDeps.consult agentId question) log := by
  refine ⟨trivial, fun r _ => caught_follows ?_⟩
  cases r with
  | error exc =>
      exact costOf_concat _ _
  | ok profile =>
      refine ⟨trivial, fun r _ => caught_follows ?_⟩
      cases r with
      | error exc =>
          change costOf _ (log ++ _ ++ _) = _
          rw [costOf_concat, costOf_free rfl]
          rfl
      | ok result =>
          change costOf _ (log ++ _ ++ _) = _
          rw [costOf_concat, costOf_free rfl]
          rfl

theorem askColleague_reports (agentId question : String) : Reports
    (fun q r => q = costOf StepRequest.reported log + answerCost r) (d.askColleague agentId question) log := by
  unfold DefaultDeps.askColleague
  split
  · exact (add_zero _).symm
  · refine ⟨trivial, fun r _ => caught_follows ?_⟩
    cases r with
    | error exc =>
        exact costOf_concat _ _
    | ok staff =>
        change Prog.Follows _ _ _ _ (if _ then _ else _) _
        split
        · exact costOf_concat _ _
        · refine (consult_reports agentId question).bind fun log₁ r₁ h₁ => ?_
          rw [costOf_free rfl] at h₁
          change Prog.Follows _ _ _ _ (if _ then _ else _) _
          split
          · refine ⟨trivial, fun r _ => caught_follows ?_⟩
            exact (costOf_free rfl).trans h₁
          · exact h₁

theorem deliver_reports (resultText : String) (version : AttemptId) (selfCheckFailed : Bool) : Reports
    (fun q _ => q = costOf StepRequest.reported log) (d.deliver resultText version selfCheckFailed) log := by
  refine ⟨trivial, fun r _ => caught_follows ?_⟩
  cases r with
  | ok _ =>
      exact costOf_free rfl
  | error exc =>
      exact costOf_free rfl

/-- Each collaborator says what its reported completions have cost. -/
theorem answer_reports (c : StepCall) : Reports
    (fun q r => q = costOf StepRequest.reported log + c.cost r) (d.answer c) log := by
  have hsame {q : ℚ} (h : q = costOf StepRequest.reported log) : q = costOf StepRequest.reported log + 0 :=
    h.trans (add_zero _).symm
  cases c with
  | node node s =>
      exact ⟨trivial, fun r _ => costOf_concat _ _⟩
  | phase tag =>
      exact ⟨trivial, fun r _ => costOf_concat _ _⟩
  | readHandoff =>
      refine ⟨trivial, fun r _ => ?_⟩
      cases r with
      | ok handoff =>
          exact costOf_concat _ _
      | error exc =>
          obtain ⟨_, _ | _⟩ := exc
          · trivial
          · exact costOf_concat _ _
  | setAttemptId attemptId =>
      exact hsame rfl
  | proposeConsults title handoff =>
      exact (proposeConsults_reports title handoff).mono (fun _ _ h => hsame h) fun _ _ h => h
  | askColleague agentId question =>
      exact askColleague_reports agentId question
  | runWork title handoff =>
      exact runWork_reports title handoff
  | runSelfCheck resultText criteria =>
      exact (runSelfCheck_reports resultText criteria).mono (fun _ _ h => hsame h) fun _ _ h => h
  | runRework brief priorOutput failures =>
      exact runRework_reports brief priorOutput failures
  | externalWrite resultText =>
      exact hsame rfl
  | deliverStep resultText version selfCheckFailed =>
      exact (deliver_reports resultText version selfCheckFailed).mono (fun _ _ h => hsame h) fun _ _ h => h

/-- Whatever is answered, the cost of a step is what its completions of the reported kinds have cost. -/
theorem runStep_reports (fuel : ℕ) (acceptance : String) (attemptId : AttemptId) (m : ℕ) : Reports
    (fun q (out : Option TeamStepState) => ∀ s' ∈ out, s'.costUsd.getD 0 = q) (d.runStep fuel acceptance attemptId m) [] := by
  refine ((runStep_spends fuel d.stepTitle acceptance attemptId m).carry
    (R := fun log log' => costOf StepRequest.reported log' = spent log) rfl fun c log log' _ hR => ?_).mono ?_ fun _ _ h => h
  · refine (answer_reports c).mono (fun log'' r hr => ⟨trivial, ?_⟩) fun _ _ h => h
    change _ = _ at hr
    rw [hr, hR, spent_concat]
  · rintro log' out ⟨log, hR, h⟩ s' hs'
    rw [h s' hs', hR]

end

/-! ### The cost of a step -/

/-- **The cost of a step covers the works, the reworks and the consults.**  Where a run has delivered, the cost is that of
all completions exactly when those that are not handed on, the self-checks and the consult proposals, have cost nothing
together. -/
theorem step_cost_iff (d : DefaultDeps) (fuel : ℕ) (acceptance : String) (attemptId : AttemptId) (m : ℕ) {W : Type}
    (services : (c : DefaultCall) → W → c.Resp × W) (w : W) {s' : TeamStepState}
    (hrun : ((d.runStep fuel acceptance attemptId m).run services w).1 = .ok (some s')) :
    s'.costUsd.getD 0 = totalCost ((d.runStep fuel acceptance attemptId m).trace services w) ↔
      droppedCost ((d.runStep fuel acceptance attemptId m).trace services w) = 0 := by
  have hends := Prog.ends_trace services (d.runStep fuel acceptance attemptId m) w
  rw [hrun] at hends
  have hreported : s'.costUsd.getD 0 = costOf StepRequest.reported _ := Prog.Follows.ends
    (E := fun log out => ∀ s' : TeamStepState, out = .ok (some s') → s'.costUsd.getD 0 = costOf StepRequest.reported log)
    ((runStep_reports fuel acceptance attemptId m).mono (fun log out hout s' h => hout s' (Except.ok.inj h))
      fun log msg _ s' h => nomatch h) hends s' rfl
  rw [hreported, totalCost_eq]
  constructor
  · intro h
    exact left_eq_add.mp h
  · intro h
    rw [h, add_zero]
    rfl

/-- A step of `lan`, who may ask `minh`. -/
def sampleDefaults : DefaultDeps where
  stepTitle := "Report"
  selfId := "lan"
  searches := false
  roomId := "task-7"
  parseCheckVerdict := fun content => .ok ⟨content == "passed", [], 1⟩
  parseConsultProposal := fun _ => .ok [("minh", "Which week?")]

/-- Services that know how many works have been asked for: the first fails, and its rework passes the check.  A
self-check and a proposal cost `cost`. -/
def sampleServices (cost : Option ℚ) : (c : DefaultCall) → ℕ → c.Resp × ℕ
  | .node _ _, n => ((), n)
  | .phase _, n => ((), n)
  | .readDepsHandoff, n => (.ok "", n)
  | .search _, n => (.ok "", n)
  | .assignableStaff, n => (.ok [("minh", "data")], n)
  | .roleHints roster, n => (.ok roster, n)
  | .loadProfile _, n => (.ok ("", ""), n)
  | .complete (.work _ _ _), n => (if n = 0 then .error ⟨"timeout", true⟩ else .ok ⟨"draft", some 5⟩, n + 1)
  | .complete (.rework _ _ _), n => (.ok ⟨"report", some 3⟩, n)
  | .complete (.consult _ _ _), n => (.ok ⟨"Week 19.", some 2⟩, n)
  | .complete (.selfCheck resultText _), n => (.ok ⟨if resultText = "report" then "passed" else "", cost⟩, n)
  | .complete (.proposal _ _ _), n => (.ok ⟨"", cost⟩, n)
  | .appendConsult _ _ _, n => (.ok (), n)
  | .writeStepArtifact _ _ _, n => (.ok (), n)

/-- A run under `sampleServices`. -/
def sampleDefaultRun : DefaultProg (Option TeamStepState) :=
  sampleDefaults.runStep 10 "Has figures" 1 2

/-- What the run has delivered, with its cost. -/
def sampleDelivery (cost : Option ℚ) : Option TeamStepState :=
  ((sampleDefaultRun.run (sampleServices cost) 0).1.toOption).join

theorem sampleDefaultRun_costs : ((sampleDelivery none).map (·.costUsd) = some (some 12) ∧
      totalCost (sampleDefaultRun.trace (sampleServices none) 0) = 12) ∧
    (sampleDelivery (some 1)).map (·.costUsd) = some (some 12) ∧
      totalCost (sampleDefaultRun.trace (sampleServices (some 1)) 0) = 16 := by
  decide +kernel

theorem sampleDelivery_run {cost : Option ℚ} {s' : TeamStepState} (h : sampleDelivery cost = some s') :
    (sampleDefaultRun.run (sampleServices cost) 0).1 = .ok (some s') := by
  unfold sampleDelivery at h
  generalize (sampleDefaultRun.run (sampleServices cost) 0).1 = out at h
  obtain _ | out := out
  · cases h
  · exact congrArg Except.ok h

/-- A step that recovers and is reworked, where what is not handed on costs nothing. -/
theorem step_cost_iff_recovered : ∃ s', (sampleDefaultRun.run (sampleServices none) 0).1 = .ok (some s') ∧
    s'.costUsd = some 12 ∧
    (s'.costUsd.getD 0 = totalCost (sampleDefaultRun.trace (sampleServices none) 0) ↔
      droppedCost (sampleDefaultRun.trace (sampleServices none) 0) = 0) := by
  obtain ⟨s', hs', hcost⟩ := Option.map_eq_some_iff.mp sampleDefaultRun_costs.1.1
  have hrun := sampleDelivery_run hs'
  exact ⟨s', hrun, hcost, step_cost_iff sampleDefaults 10 "Has figures" 1 2 (sampleServices none) 0 hrun⟩

/-- The same step, where a self-check and a proposal cost something: two of each are missing. -/
theorem step_cost_drops_checks : ∃ s', (sampleDefaultRun.run (sampleServices (some 1)) 0).1 = .ok (some s') ∧
    s'.costUsd.getD 0 ≠ totalCost (sampleDefaultRun.trace (sampleServices (some 1)) 0) := by
  obtain ⟨s', hs', hcost⟩ := Option.map_eq_some_iff.mp sampleDefaultRun_costs.2.1
  refine ⟨s', sampleDelivery_run hs', ?_⟩
  rw [sampleDefaultRun_costs.2.2, hcost]
  decide +kernel

end ProjectManager
