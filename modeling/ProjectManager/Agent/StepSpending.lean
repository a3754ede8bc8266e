import Mathlib.Tactic.Ring
import ProjectManager.Agent.StepBudgets

/-!
# What a step has spent

Whatever collaborators a step has, `cost_usd` is the sum of the costs that `run_work`, `run_rework` and `ask_colleague`
have answered (`runStep_spends`): each node adds what its own calls have cost to what it finds, also on the way through
`recover`.
-/

namespace ProjectManager

open Process

/-- The cost in an answer. -/
def answerCost : Except Raised (String × Option ℚ) → ℚ
  | .ok (_, cost) => cost.getD 0
  | .error _ => 0

/-- What the answer of a call says that it has cost. -/
def StepCall.cost : (c : StepCall) → c.Resp → ℚ
  | .runWork _ _, r => answerCost r
  | .runRework _ _ _, r => answerCost r
  | .askColleague _ _, r => answerCost r
  | _, _ => 0

/-- What the answers of a log say that they have cost. -/
def spent (log : Log StepCall StepCall.Resp) : ℚ :=
  (log.map fun entry => entry.1.cost entry.2).sum

theorem spent_concat (log : Log StepCall StepCall.Resp) (c : StepCall) (r : c.Resp) :
    spent (log ++ [⟨c, r⟩]) = spent log + c.cost r := by
  simp [spent]

theorem spent_free {log : Log StepCall StepCall.Resp} {c : StepCall} {r : c.Resp} (h : c.cost r = 0) :
    spent (log ++ [⟨c, r⟩]) = spent log := by
  rw [spent_concat, h, add_zero]

/-- Whatever is answered, the program returns with `Q` of what has been spent. -/
abbrev Spends {α : Type} (Q : ℚ → α → Prop) (prog : StepProg α) (log : Log StepCall StepCall.Resp) : Prop :=
  prog.Follows (fun _ _ => True) (fun _ _ => True) (fun log' a => Q (spent log') a) (fun _ _ => True) log

theorem paid_getD (q : ℚ) : (paid q).getD 0 = q := by
  unfold paid
  split
  case isTrue h =>
    exact h.symm
  case isFalse =>
    rfl

section

variable {deps : TeamTaskDeps} {s : TeamStepState} {log : Log StepCall StepCall.Resp}

/-! ### The consults -/

theorem tellAttempt_spends : Spends (fun q _ => q = spent log) (deps.tellAttempt s) log := by
  unfold TeamTaskDeps.tellAttempt
  split
  · refine ⟨trivial, fun r _ => ?_⟩
    have hsame : spent (log ++ [⟨.setAttemptId s.attemptId, r⟩]) = spent log := spent_free rfl
    cases r with
    | ok _ =>
        exact hsame
    | error _ =>
        trivial
  · rfl

theorem propose_spends (brief handoff : String) : Spends (fun q _ => q = spent log) (TeamTaskDeps.propose brief handoff) log := by
  refine ⟨trivial, fun r _ => ?_⟩
  have hsame : spent (log ++ [⟨.proposeConsults brief handoff, r⟩]) = spent log := spent_free rfl
  cases r with
  | ok _ =>
      exact hsame
  | error exc =>
      obtain ⟨_, _ | _⟩ := exc
      · trivial
      · exact hsame

/-- The cost of every answer is added once. -/
theorem askEach_spends {answered : Consults → String → String → String → ℚ → Consults}
    (hcost : ∀ x colleague question answer cost, (answered x colleague question answer cost).cost = x.cost + cost)
    (proposals : List (String × String)) (x : Consults) :
    Spends (fun q y => q = spent log + (y.cost - x.cost)) (TeamTaskDeps.askEach answered proposals x) log := by
  induction proposals generalizing x log with
  | nil =>
      change spent log = spent log + (x.cost - x.cost)
      ring
  | cons proposal rest ih =>
      refine ⟨trivial, fun r _ => ?_⟩
      cases r with
      | ok answer =>
          refine (ih _).mono (fun log' y hy => ?_) fun _ _ h => h
          change _ = spent (log ++ _) + _ at hy
          rw [hy, spent_concat, hcost]
          change spent log + answer.2.getD 0 + _ = _
          ring
      | error exc =>
          obtain ⟨_, _ | _⟩ := exc
          · trivial
          · refine (ih x).mono (fun log' y hy => ?_) fun _ _ h => h
            change _ = spent (log ++ _) + _ at hy
            rw [hy, spent_free rfl]

theorem answered_cost (x : Consults) (colleague question answer : String) (cost : ℚ) :
    (x.answered colleague question answer cost).cost = x.cost + cost := by
  unfold Consults.answered
  split
  · rfl
  · rfl

theorem unblocked_cost (x : Consults) (colleague question answer : String) (cost : ℚ) :
    (TeamTaskDeps.unblocked x colleague question answer cost).cost = x.cost + cost := by
  unfold TeamTaskDeps.unblocked
  split
  · rfl
  · rfl

theorem consultBefore_spends : Spends (fun q y => q = spent log + y.cost) (deps.consultBefore s) log := by
  have hnone : spent log = spent log + 0 := (add_zero _).symm
  unfold TeamTaskDeps.consultBefore
  split
  · refine tellAttempt_spends.bind fun log₁ _ h₁ => ?_
    split
    · refine (propose_spends _ _).bind fun log₂ proposals h₂ => ?_
      refine (askEach_spends answered_cost _ _).mono (fun log₃ y hy => ?_) fun _ _ h => h
      rw [hy, h₂, h₁, sub_zero]
    · exact h₁.trans hnone
  · exact hnone

theorem consultStuck_spends : Spends (fun q y => q = spent log + y.cost) (deps.consultStuck s) log := by
  unfold TeamTaskDeps.consultStuck
  split
  · refine tellAttempt_spends.bind fun log₁ _ h₁ => ?_
    refine (propose_spends _ _).bind fun log₂ proposals h₂ => ?_
    refine (askEach_spends unblocked_cost _ _).mono (fun log₃ y hy => ?_) fun _ _ h => h
    rw [hy, h₂, h₁, sub_zero]
  · exact (add_zero _).symm

/-! ### The nodes -/

theorem deliverDone_spends (h : s.costUsd.getD 0 = spent log) :
    Spends (fun q s' => s'.costUsd.getD 0 = q) (TeamTaskDeps.deliverDone s) log := by
  refine ⟨trivial, fun r _ => ?_⟩
  cases r with
  | ok answer =>
      change s.costUsd.getD 0 = spent (log ++ _)
      rw [spent_free rfl, h]
  | error exc =>
      trivial

/-- What a node leaves in the state is what has been spent. -/
theorem node_spends (node : GraphNode) (h : s.costUsd.getD 0 = spent log) :
    Spends (fun q s' => s'.costUsd.getD 0 = q) (deps.nodeProg node s) log := by
  cases node with
  | perceive =>
      refine ⟨trivial, fun r _ => ?_⟩
      cases r with
      | ok handoff =>
          change s.costUsd.getD 0 = spent (log ++ _)
          rw [spent_free rfl, h]
      | error exc =>
          trivial
  | work =>
      refine ⟨trivial, fun _ _ => ?_⟩
      refine consultBefore_spends.bind fun log₁ x hx => ⟨trivial, fun r _ => ?_⟩
      rw [spent_free rfl] at hx
      cases r with
      | ok result =>
          obtain ⟨text, cost⟩ := result
          change (paid (s.costUsd.getD 0 + cost.getD 0 + x.cost)).getD 0 = spent (log₁ ++ _)
          rw [paid_getD, spent_concat, hx, h]
          change _ = spent log + x.cost + cost.getD 0
          ring
      | error exc =>
          change Prog.Follows _ _ _ _ (if exc.ordinary ∧ s.recoverCount < maxRecover then _ else _) _
          split
          · change (paid (s.costUsd.getD 0 + x.cost)).getD 0 = spent (log₁ ++ _)
            rw [paid_getD, spent_free rfl, hx, h]
          · trivial
  | selfCheck =>
      refine ⟨trivial, fun _ _ => ⟨trivial, fun r _ => ?_⟩⟩
      cases r with
      | ok verdict =>
          change s.costUsd.getD 0 = spent (log ++ _ ++ _)
          rw [spent_free rfl, spent_free rfl, h]
      | error exc =>
          trivial
  | rework =>
      refine ⟨trivial, fun _ _ => ⟨trivial, fun r _ => ?_⟩⟩
      cases r with
      | ok result =>
          obtain ⟨text, cost⟩ := result
          change (if s.costUsd.getD 0 = 0 ∧ cost.getD 0 = 0 then none else some _ : Option ℚ).getD 0 = spent (log ++ _ ++ _)
          rw [spent_concat, spent_free rfl, ← h]
          change _ = s.costUsd.getD 0 + cost.getD 0
          split
          case isTrue hzero =>
            rw [hzero.1, hzero.2, add_zero]
            rfl
          case isFalse =>
            rfl
      | error exc =>
          trivial
  | recover =>
      refine ⟨trivial, fun _ _ => ?_⟩
      refine consultStuck_spends.bind fun log₁ x hx => ?_
      rw [spent_free rfl] at hx
      change (paid (s.costUsd.getD 0 + x.cost)).getD 0 = spent log₁
      rw [paid_getD, hx, h]
  | deliver =>
      change Prog.Follows _ _ _ _ (deps.deliver s) _
      unfold TeamTaskDeps.deliver
      split
      · refine ⟨trivial, fun r _ => ?_⟩
        match r with
        | .ok true =>
            apply deliverDone_spends
            rw [spent_free rfl, h]
        | .ok false =>
            change s.costUsd.getD 0 = spent (log ++ _)
            rw [spent_free rfl, h]
        | .error exc =>
            trivial
      · exact deliverDone_spends h

/-- **A step knows what it has spent.**  Where a run ends, the cost is the sum of what its collaborators have said. -/
theorem runStep_spends (fuel : ℕ) (stepTitle acceptance : String) (attemptId : AttemptId) (m : ℕ) :
    Spends (fun q (out : Option TeamStepState) => ∀ s' ∈ out, s'.costUsd.getD 0 = q) (deps.runStep fuel stepTitle acceptance attemptId m) [] := by
  refine NodeGraph.exec_holds (Q := fun log (s' : TeamStepState) => s'.costUsd.getD 0 = spent log)
    (fun _ (s : TeamStepState) log => s.costUsd.getD 0 = spent log) (fun node s log h => ⟨trivial, fun r _ => ?_⟩) rfl
  refine (node_spends node ?_).mono (fun log' s' hs' => ?_) fun _ _ h => h
  · change s.costUsd.getD 0 = spent (log ++ _)
    rw [spent_free rfl, h]
  · cases deps.graph.next node s' with
    | none =>
        exact hs'
    | some node' =>
        exact hs'

end

end ProjectManager
