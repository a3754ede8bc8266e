import ProjectManager.Agent.StepGraph
import ProjectManager.Lib.Execution

/-!
# The budgets of a step

What the calls of a run of the step graph come to is counted in a `Tally`.  `Begins` ties the counts to the fields of
the state where a node begins, and every node makes it hold again where the next one begins, with fewer nodes left to
run.
-/

namespace ProjectManager

open Process

/-! ### Counting the calls -/

/-- What the calls so far come to. -/
structure Tally where
  works : ℕ := 0
  reworks : ℕ := 0
  checks : ℕ := 0
  /-- the questions that a colleague has answered -/
  answers : ℕ := 0
  /-- the text of the last `run_work` or `run_rework` that has succeeded -/
  text : Option String := none
  /-- what the last self-check has said -/
  passed : Option Bool := none
  /-- the text and the flag with which `deliver` was run -/
  delivered : List (String × Bool) := []
  /-- the texts that `external_write` has got -/
  offered : List String := []
  /-- the texts and flags that `deliver_step` has got -/
  handed : List (String × Bool) := []

/-- One more call. -/
def Tally.after (t : Tally) : (c : StepCall) → c.Resp → Tally
  | .node .deliver s, _ => { t with delivered := t.delivered ++ [(s.resultText, s.selfCheckFailed)] }
  | .askColleague _ _, .ok _ => { t with answers := t.answers + 1 }
  | .runWork _ _, .ok (text, _) => { t with works := t.works + 1, text := some text }
  | .runWork _ _, .error _ => { t with works := t.works + 1 }
  | .runSelfCheck _ _, .ok verdict => { t with checks := t.checks + 1, passed := some verdict.passed }
  | .runSelfCheck _ _, .error _ => { t with checks := t.checks + 1 }
  | .runRework _ _ _, .ok (text, _) => { t with reworks := t.reworks + 1, text := some text }
  | .runRework _ _ _, .error _ => { t with reworks := t.reworks + 1 }
  | .externalWrite text, _ => { t with offered := t.offered ++ [text] }
  | .deliverStep text _ failed, _ => { t with handed := t.handed ++ [(text, failed)] }
  | _, _ => t

/-- The calls of a log. -/
def tally (log : Log StepCall StepCall.Resp) : Tally :=
  log.foldl (fun t c => t.after c.1 c.2) {}

theorem tally_concat (log : Log StepCall StepCall.Resp) (c : StepCall) (r : c.Resp) :
    tally (log ++ [⟨c, r⟩]) = (tally log).after c r := by
  unfold tally
  rw [List.foldl_append]
  rfl

/-- The budgets of a step, with at most `m` reworks. -/
structure Tally.Within (t : Tally) (m : ℕ) : Prop where
  works : t.works ≤ 2
  reworks : t.reworks ≤ m
  checks : t.checks ≤ m + 1
  answers : t.answers ≤ maxConsults

/-- Delivered once: the last text, flagged when the last self-check has failed; nobody has got anything else. -/
structure Tally.Delivers (t : Tally) (external : Bool) (s : TeamStepState) : Prop where
  text : t.text = some s.resultText
  passed : t.passed = some !s.selfCheckFailed
  delivered : t.delivered = [(s.resultText, s.selfCheckFailed)]
  offered : t.offered = if external then [s.resultText] else []
  handed : t.handed = if s.status = some .done then [(s.resultText, s.selfCheckFailed)] else []
  status : s.status = some .done ∨ external = true ∧ s.status = some .awaitingApproval

/-! ### The counts and the state -/

/-- The state that a run begins in. -/
def TeamStepState.fresh (stepTitle acceptance : String) (attemptId : AttemptId) (m : ℕ) : TeamStepState :=
  { stepTitle := stepTitle, acceptance := acceptance, attemptId := attemptId, maxRework := m }

/-- What the counts are where a node begins. -/
def GraphNode.Counts (m : ℕ) (s : TeamStepState) (t : Tally) : GraphNode → Prop
  | perceive => s.recoverCount = 0 ∧ s.reworkCount = 0 ∧ t.works = 0 ∧ t.checks = 0
  | work => s.recoverCount ≤ maxRecover ∧ s.reworkCount = 0 ∧ t.works = s.recoverCount ∧ t.checks = 0
  | recover => s.recoverCount = 0 ∧ s.reworkCount = 0 ∧ t.works = 1 ∧ t.checks = 0
  | selfCheck => s.reworkCount ≤ m ∧ t.works ≤ 2 ∧ t.checks = s.reworkCount ∧ t.text = some s.resultText
  | rework => s.reworkCount < m ∧ t.works ≤ 2 ∧ t.checks = s.reworkCount + 1
  | deliver =>
      s.reworkCount ≤ m ∧ t.works ≤ 2 ∧ t.checks = s.reworkCount + 1 ∧ t.text = some s.resultText ∧
        t.passed = some !s.selfCheckFailed

/-- Where a node begins, the state and the calls agree, and nothing has been delivered. -/
structure Begins (m : ℕ) (node : GraphNode) (s : TeamStepState) (t : Tally) : Prop where
  limit : s.maxRework = m
  answers : t.answers = s.consultCount
  consults : s.consultCount ≤ maxConsults
  reworks : t.reworks = s.reworkCount
  undelivered : t.delivered = [] ∧ t.offered = [] ∧ t.handed = []
  counts : node.Counts m s t

/-- The nodes that a run can still go through after this one. -/
def GraphNode.left (m : ℕ) (s : TeamStepState) : GraphNode → ℕ
  | perceive => 2 * m + 5
  | work => 2 * m + 2 + 2 * (maxRecover - s.recoverCount)
  | recover => 2 * m + 3
  | selfCheck => 2 * (m - s.reworkCount) + 1
  | rework => 2 * (m - s.reworkCount)
  | deliver => 0

/-- What a node leaves: the next node begins, with fewer nodes left, or the step is delivered. -/
inductive Leads (m : ℕ) (external : Bool) (node : GraphNode) (s : TeamStepState) (t : Tally) (s' : TeamStepState) :
    Prop where
  | next {node' : GraphNode} (hroute : node.route s' = some node') (hbegins : Begins m node' s' t)
      (hleft : node'.left m s' < node.left m s)
  | finish (hroute : node.route s' = none) (hwithin : t.Within m) (hdelivers : t.Delivers external s')

/-- Whatever is answered, the program returns with `Q` of the calls so far, and raises with `X` of them. -/
abbrev Attains {α : Type} (Q : Tally → α → Prop) (X : Tally → Prop) (prog : StepProg α)
    (log : Log StepCall StepCall.Resp) : Prop :=
  prog.Follows (fun _ _ => True) (fun _ _ => True) (fun log' a => Q (tally log') a) (fun log' _ => X (tally log')) log

/-! ### The consults -/

/-- So many more answers. -/
def Tally.more (t : Tally) (k : ℕ) : Tally :=
  { t with answers := t.answers + k }

/-- The consults of a node have only been counted, within their budget. -/
def Consulted (s : TeamStepState) (t₀ t : Tally) (count : ℕ) : Prop :=
  ∃ k, t = t₀.more k ∧ count = s.consultCount + k ∧ count ≤ maxConsults

section Consults

variable {deps : TeamTaskDeps} {s : TeamStepState} {log : Log StepCall StepCall.Resp}

theorem tellAttempt_attains : Attains (fun t _ => t = tally log) (fun t => t = tally log) (deps.tellAttempt s) log := by
  unfold TeamTaskDeps.tellAttempt
  split
  · refine ⟨trivial, fun r _ => ?_⟩
    cases r with
    | ok _ =>
        exact tally_concat log _ _
    | error _ =>
        exact tally_concat log _ _
  · rfl

theorem propose_attains (brief handoff : String) :
    Attains (fun t _ => t = tally log) (fun t => t = tally log) (TeamTaskDeps.propose brief handoff) log := by
  refine ⟨trivial, fun r _ => ?_⟩
  cases r with
  | ok _ =>
      exact tally_concat log _ _
  | error exc =>
      obtain ⟨_, _ | _⟩ := exc
      · exact tally_concat log _ _
      · exact tally_concat log _ _

/-- Every answer is counted once, by the node and in the tally. -/
theorem askEach_attains {answered : Consults → String → String → String → ℚ → Consults}
    (hcount : ∀ x colleague question answer cost, (answered x colleague question answer cost).count = x.count + 1)
    (proposals : List (String × String)) (x : Consults) :
    Attains (fun t y => ∃ k ≤ proposals.length, t = (tally log).more k ∧ y.count = x.count + k)
      (fun t => ∃ k ≤ proposals.length, t = (tally log).more k) (TeamTaskDeps.askEach answered proposals x) log := by
  induction proposals generalizing x log with
  | nil =>
      exact ⟨0, le_rfl, rfl, rfl⟩
  | cons proposal rest ih =>
      refine ⟨trivial, fun r _ => ?_⟩
      cases r with
      | ok answer =>
          refine (ih _).mono (fun log' y hy => ?_) fun log' _ hlog' => ?_
          · obtain ⟨k, hk, ht, hy⟩ := hy
            refine ⟨k + 1, Nat.succ_le_succ hk, ?_, ?_⟩
            · rw [ht, tally_concat, Tally.more, Tally.more, Tally.after]
              simp only [Nat.add_assoc, Nat.add_comm]
            · rw [hy, hcount]
              omega
          · obtain ⟨k, hk, ht⟩ := hlog'
            refine ⟨k + 1, Nat.succ_le_succ hk, ?_⟩
            rw [ht, tally_concat, Tally.more, Tally.more, Tally.after]
            simp only [Nat.add_assoc, Nat.add_comm]
      | error exc =>
          have hsame : tally (log ++ [⟨.askColleague proposal.1 proposal.2, .error exc⟩]) = tally log :=
            tally_concat log _ _
          obtain ⟨_, _ | _⟩ := exc
          · exact ⟨0, Nat.zero_le _, hsame⟩
          · refine (ih x).mono (fun log' y hy => ?_) fun log' _ hlog' => ?_
            · obtain ⟨k, hk, hy⟩ := hy
              rw [hsame] at hy
              exact ⟨k, Nat.le_succ_of_le hk, hy⟩
            · obtain ⟨k, hk, ht⟩ := hlog'
              rw [hsame] at ht
              exact ⟨k, Nat.le_succ_of_le hk, ht⟩

/-- Without a consult, nothing is counted. -/
theorem Consulted.refl (hs : s.consultCount ≤ maxConsults) (t : Tally) : Consulted s t t s.consultCount :=
  ⟨0, rfl, rfl, hs⟩

/-- Proposals that the budget has room for. -/
theorem askTaken_attains {answered : Consults → String → String → String → ℚ → Consults}
    (hcount : ∀ x colleague question answer cost, (answered x colleague question answer cost).count = x.count + 1)
    (proposals : List (String × String)) {n : ℕ} (hroom : s.consultCount + n ≤ maxConsults) {x : Consults}
    (hx : x.count = s.consultCount) :
    Attains (fun t y => Consulted s (tally log) t y.count) (fun t => ∃ count, Consulted s (tally log) t count)
      (TeamTaskDeps.askEach answered (proposals.take n) x) log := by
  have htaken : (proposals.take n).length ≤ n := List.length_take_le n proposals
  refine (askEach_attains hcount (proposals.take n) x).mono (fun log' y hy => ?_) fun log' _ hlog' => ?_
  · obtain ⟨k, hk, ht, hy⟩ := hy
    refine ⟨k, ht, ?_, ?_⟩
    · rw [hy, hx]
    · omega
  · obtain ⟨k, hk, ht⟩ := hlog'
    refine ⟨s.consultCount + k, k, ht, rfl, ?_⟩
    omega

theorem answered_count (x : Consults) (colleague question answer : String) (cost : ℚ) :
    (x.answered colleague question answer cost).count = x.count + 1 := by
  unfold Consults.answered
  split
  · rfl
  · rfl

theorem unblocked_count (x : Consults) (colleague question answer : String) (cost : ℚ) :
    (TeamTaskDeps.unblocked x colleague question answer cost).count = x.count + 1 := by
  unfold TeamTaskDeps.unblocked
  split
  · rfl
  · rfl

theorem consultBefore_attains (hs : s.consultCount ≤ maxConsults) :
    Attains (fun t y => Consulted s (tally log) t y.count) (fun t => ∃ count, Consulted s (tally log) t count)
      (deps.consultBefore s) log := by
  unfold TeamTaskDeps.consultBefore
  split
  · refine (tellAttempt_attains.mono (fun _ _ h => h) fun _ _ h => ?_).bind fun log₁ _ h₁ => ?_
    · rw [h]
      exact ⟨_, .refl hs _⟩
    · split
      · refine ((propose_attains _ _).mono (fun _ _ h => h) fun _ _ h => ?_).bind fun log₂ proposals h₂ => ?_
        · rw [h, h₁]
          exact ⟨_, .refl hs _⟩
        · rw [← h₁, ← h₂]
          exact askTaken_attains answered_count proposals (by omega) rfl
      · rw [← h₁]
        exact .refl hs _
  · exact .refl hs _

theorem consultStuck_attains (hs : s.consultCount ≤ maxConsults) :
    Attains (fun t y => Consulted s (tally log) t y.count) (fun t => ∃ count, Consulted s (tally log) t count)
      (deps.consultStuck s) log := by
  unfold TeamTaskDeps.consultStuck
  split
  case isTrue hroom =>
    refine (tellAttempt_attains.mono (fun _ _ h => h) fun _ _ h => ?_).bind fun log₁ _ h₁ => ?_
    · rw [h]
      exact ⟨_, .refl hs _⟩
    · refine ((propose_attains _ _).mono (fun _ _ h => h) fun _ _ h => ?_).bind fun log₂ proposals h₂ => ?_
      · rw [h, h₁]
        exact ⟨_, .refl hs _⟩
      · rw [← h₁, ← h₂]
        exact askTaken_attains unblocked_count proposals hroom.2 rfl
  case isFalse =>
    exact .refl hs _

end Consults

/-! ### The nodes -/

/-- The budgets hold at every node. -/
theorem Begins.within {m : ℕ} {node : GraphNode} {s : TeamStepState} {t : Tally} (h : Begins m node s t) :
    t.Within m := by
  obtain ⟨-, hanswers, hconsults, hreworks, -, hcounts⟩ := h
  have hrecover : maxRecover = 1 := rfl
  cases node <;> simp only [GraphNode.Counts] at hcounts <;> exact ⟨by omega, by omega, by omega, by omega⟩

/-- The consults of a node keep within the budgets. -/
theorem Consulted.within {m count : ℕ} {s : TeamStepState} {t₀ t : Tally} (h : Consulted s t₀ t count)
    (hanswers : t₀.answers = s.consultCount) (ht₀ : t₀.Within m) : t.Within m := by
  obtain ⟨k, rfl, hcount, hle⟩ := h
  refine ⟨ht₀.works, ht₀.reworks, ht₀.checks, ?_⟩
  change t₀.answers + k ≤ maxConsults
  omega

/-- A failure has a text. -/
theorem squash_ne (msg : String) : squash msg ≠ "" := by
  simp only [squash]
  split
  · decide
  case isFalse h =>
    exact h

/-- Done work is checked. -/
theorem route_workDone (s : TeamStepState) (x : Consults) (text : String) (cost : Option ℚ) :
    GraphNode.route .work (TeamTaskDeps.workDone s x text cost) = some .selfCheck := by
  simp [GraphNode.route, TeamTaskDeps.workDone]

/-- Work that has failed is tried again after `recover`. -/
theorem route_workFailed (s : TeamStepState) (x : Consults) (exc : Raised) :
    GraphNode.route .work (TeamTaskDeps.workFailed s x exc) = some .recover := by
  simp [GraphNode.route, TeamTaskDeps.workFailed, squash_ne]

section Nodes

variable {deps : TeamTaskDeps} {m : ℕ} {external : Bool} {s : TeamStepState} {log : Log StepCall StepCall.Resp}

theorem perceive_attains (h : Begins m .perceive s (tally log)) :
    Attains (Leads m external .perceive s) (·.Within m) (TeamTaskDeps.perceive s) log := by
  obtain ⟨hrecover, hrework, hworks, hchecks⟩ := h.counts
  refine ⟨trivial, fun r _ => ?_⟩
  have hsame : tally (log ++ [⟨.readHandoff, r⟩]) = tally log := tally_concat log _ _
  cases r with
  | ok handoff =>
      change Leads m external .perceive s (tally (log ++ _)) { s with handoffContext := handoff }
      rw [hsame]
      apply Leads.next rfl
      · exact ⟨h.limit, h.answers, h.consults, h.reworks, h.undelivered,
          hrecover.trans_le (Nat.zero_le _), hrework, hworks.trans hrecover.symm, hchecks⟩
      · simp only [GraphNode.left, maxRecover]
        omega
  | error exc =>
      change (tally (log ++ _)).Within m
      rw [hsame]
      exact h.within

theorem work_attains (h : Begins m .work s (tally log)) :
    Attains (Leads m external .work s) (·.Within m) (deps.work s) log := by
  obtain ⟨hrecover, hrework, hworks, hchecks⟩ := h.counts
  obtain ⟨hundelivered, hunoffered, hunhanded⟩ := h.undelivered
  refine ⟨trivial, fun _ _ => ?_⟩
  have hphase : tally (log ++ [⟨.phase "dang-lam", ()⟩]) = tally log := tally_concat log _ _
  refine ((consultBefore_attains h.consults).mono (fun _ _ h => h) fun _ _ hraise => ?_).bind fun log₁ x hx => ?_
  · obtain ⟨count, hcount⟩ := hraise
    rw [hphase] at hcount
    exact hcount.within h.answers h.within
  · obtain ⟨k, ht, hcount, hle⟩ := hx
    rw [hphase] at ht
    have hanswers : (tally log).answers + k = x.count := by
      rw [h.answers, hcount]
    have hworked : (tally log).works + 1 ≤ 2 := by
      rw [hworks]
      exact Nat.succ_le_succ hrecover
    refine ⟨trivial, fun r _ => ?_⟩
    cases r with
    | ok result =>
        obtain ⟨text, cost⟩ := result
        change Leads m external .work s (tally (log₁ ++ _)) (TeamTaskDeps.workDone s x text cost)
        rw [tally_concat, ht]
        refine Leads.next (route_workDone s x text cost) ⟨h.limit, hanswers, hle, h.reworks, h.undelivered, ?_⟩ ?_
        · exact ⟨hrework.trans_le (Nat.zero_le m), hworked, hchecks.trans hrework.symm, rfl⟩
        · simp only [GraphNode.left, TeamTaskDeps.workDone]
          omega
    | error exc =>
        change Prog.Follows _ _ _ _ (if exc.ordinary ∧ s.recoverCount < maxRecover then _ else _) _
        split
        case isTrue hagain =>
          have hfirst : s.recoverCount = 0 := Nat.lt_one_iff.1 hagain.2
          change Leads m external .work s (tally (log₁ ++ _)) (TeamTaskDeps.workFailed s x exc)
          rw [tally_concat, ht]
          refine Leads.next (route_workFailed s x exc) ⟨h.limit, hanswers, hle, h.reworks, h.undelivered, ?_⟩ ?_
          · exact ⟨hfirst, hrework, congrArg (· + 1) (hworks.trans hfirst), hchecks⟩
          · simp only [GraphNode.left, hfirst, maxRecover]
            omega
        case isFalse =>
          change (tally (log₁ ++ _)).Within m
          rw [tally_concat, ht]
          have hwithin := h.within
          exact ⟨hworked, hwithin.reworks, hwithin.checks, hanswers.trans_le hle⟩

/-- A consult, a retry and the way back to the work. -/
theorem recover_attains (h : Begins m .recover s (tally log)) :
    Attains (Leads m external .recover s) (·.Within m) (deps.recover s) log := by
  obtain ⟨hrecover, hrework, hworks, hchecks⟩ := h.counts
  refine ⟨trivial, fun _ _ => ?_⟩
  have hphase : tally (log ++ [⟨.phase "nho-tro-giup", ()⟩]) = tally log := tally_concat log _ _
  refine ((consultStuck_attains h.consults).mono (fun _ _ h => h) fun _ _ hraise => ?_).bind fun log₁ x hx => ?_
  · obtain ⟨count, hcount⟩ := hraise
    rw [hphase] at hcount
    exact hcount.within h.answers h.within
  · obtain ⟨k, ht, hcount, hle⟩ := hx
    rw [hphase] at ht
    have hanswers : (tally log).answers + k = x.count := by
      rw [h.answers, hcount]
    change Leads m external .recover s (tally log₁) _
    rw [ht]
    refine Leads.next rfl ⟨h.limit, hanswers, hle, h.reworks, h.undelivered, ?_⟩ ?_
    · exact ⟨by simp only [hrecover, maxRecover]; rfl, hrework, hworks.trans (by rw [hrecover]), hchecks⟩
    · simp only [GraphNode.left, maxRecover]
      omega

theorem selfCheck_attains (h : Begins m .selfCheck s (tally log)) :
    Attains (Leads m external .selfCheck s) (·.Within m) (TeamTaskDeps.selfCheck s) log := by
  obtain ⟨hrework, hworks, hchecks, htext⟩ := h.counts
  refine ⟨trivial, fun _ _ => ⟨trivial, fun r _ => ?_⟩⟩
  have hphase : tally (log ++ [⟨.phase "tu-soat", ()⟩]) = tally log := tally_concat log _ _
  have hchecked : (tally log).checks + 1 = s.reworkCount + 1 := congrArg (· + 1) hchecks
  cases r with
  | ok verdict =>
      change Leads m external .selfCheck s (tally (log ++ _ ++ _)) _
      rw [tally_concat, hphase]
      obtain ⟨passed, failures, confidence⟩ := verdict
      cases passed with
      | true =>
          refine Leads.next rfl ⟨h.limit, h.answers, h.consults, h.reworks, h.undelivered, ?_⟩ ?_
          · exact ⟨hrework, hworks, hchecked, htext, rfl⟩
          · exact Nat.succ_pos _
      | false =>
          by_cases hleft : s.reworkCount < s.maxRework
          · refine Leads.next (if_pos hleft) ⟨h.limit, h.answers, h.consults, h.reworks, h.undelivered, ?_⟩ ?_
            · exact ⟨h.limit ▸ hleft, hworks, hchecked⟩
            · exact Nat.lt_succ_self _
          · refine Leads.next (if_neg hleft) ⟨h.limit, h.answers, h.consults, h.reworks, h.undelivered, ?_⟩ ?_
            · refine ⟨hrework, hworks, hchecked, htext, ?_⟩
              simp [Tally.after, Nat.le_of_not_lt hleft]
            · exact Nat.succ_pos _
  | error exc =>
      change (tally (log ++ _ ++ _)).Within m
      rw [tally_concat, hphase]
      have hwithin := h.within
      exact ⟨hwithin.works, hwithin.reworks, hchecked.trans_le (Nat.succ_le_succ hrework), hwithin.answers⟩

/-- One more rework, while there is one left. -/
theorem rework_attains (h : Begins m .rework s (tally log)) :
    Attains (Leads m external .rework s) (·.Within m) (TeamTaskDeps.rework s) log := by
  obtain ⟨hrework, hworks, hchecks⟩ := h.counts
  refine ⟨trivial, fun _ _ => ⟨trivial, fun r _ => ?_⟩⟩
  have hphase : tally (log ++ [⟨.phase "dang-sua", ()⟩]) = tally log := tally_concat log _ _
  have hreworked : (tally log).reworks + 1 = s.reworkCount + 1 := congrArg (· + 1) h.reworks
  cases r with
  | ok result =>
      change Leads m external .rework s (tally (log ++ _ ++ _)) _
      rw [tally_concat, hphase]
      obtain ⟨text, cost⟩ := result
      refine Leads.next rfl ⟨h.limit, h.answers, h.consults, hreworked, h.undelivered, ?_⟩ ?_
      · exact ⟨hrework, hworks, hchecks, rfl⟩
      · simp only [GraphNode.left]
        omega
  | error exc =>
      change (tally (log ++ _ ++ _)).Within m
      rw [tally_concat, hphase]
      have hwithin := h.within
      exact ⟨hwithin.works, hreworked.trans_le hrework, hwithin.checks, hwithin.answers⟩

/-- `deliver_step` gets the text and the flag of the state. -/
theorem deliverDone_attains (hwithin : (tally log).Within m) (htext : (tally log).text = some s.resultText)
    (hpassed : (tally log).passed = some !s.selfCheckFailed)
    (hdelivered : (tally log).delivered = [(s.resultText, s.selfCheckFailed)])
    (hoffered : (tally log).offered = if external then [s.resultText] else []) (hhanded : (tally log).handed = []) :
    Attains (Leads m external .deliver s) (·.Within m) (TeamTaskDeps.deliverDone s) log := by
  refine ⟨trivial, fun r _ => ?_⟩
  have hafter : ((tally log).after (.deliverStep s.resultText s.attemptId s.selfCheckFailed) r).Within m :=
    ⟨hwithin.works, hwithin.reworks, hwithin.checks, hwithin.answers⟩
  cases r with
  | ok answer =>
      obtain ⟨delivered, message⟩ := answer
      change Leads m external .deliver s (tally (log ++ _)) _
      rw [tally_concat]
      refine Leads.finish rfl hafter ⟨htext, hpassed, hdelivered, hoffered, ?_, .inl rfl⟩
      exact congrArg (· ++ [(s.resultText, s.selfCheckFailed)]) hhanded
  | error exc =>
      change (tally (log ++ _)).Within m
      rw [tally_concat]
      exact hafter

/-- The end of a run: `deliver` has been entered once, with what the last calls have left. -/
theorem deliver_attains {t : Tally} (h : Begins m .deliver s t)
    (hlog : tally log = { t with delivered := t.delivered ++ [(s.resultText, s.selfCheckFailed)] }) :
    Attains (Leads m deps.externalWrite .deliver s) (·.Within m) (deps.deliver s) log := by
  obtain ⟨-, -, -, htext, hpassed⟩ := h.counts
  obtain ⟨hdelivered, hoffered, hhanded⟩ := h.undelivered
  have hwithin : (tally log).Within m := by
    rw [hlog]
    exact ⟨h.within.works, h.within.reworks, h.within.checks, h.within.answers⟩
  have honce : t.delivered ++ [(s.resultText, s.selfCheckFailed)] = [(s.resultText, s.selfCheckFailed)] := by
    rw [hdelivered, List.nil_append]
  unfold TeamTaskDeps.deliver
  split
  case isTrue hexternal =>
    rw [hexternal]
    refine ⟨trivial, fun r _ => ?_⟩
    have hafter : tally (log ++ [⟨.externalWrite s.resultText, r⟩]) =
        { t with delivered := [(s.resultText, s.selfCheckFailed)], offered := [s.resultText] } := by
      rw [tally_concat, hlog, honce]
      simp only [Tally.after, hoffered, List.nil_append]
    have hwithin' : (tally (log ++ [⟨.externalWrite s.resultText, r⟩])).Within m := by
      rw [hafter]
      exact ⟨h.within.works, h.within.reworks, h.within.checks, h.within.answers⟩
    match r with
    | .ok true =>
        apply deliverDone_attains hwithin'
        all_goals rw [hafter]
        · exact htext
        · exact hpassed
        · rfl
        · exact hhanded
    | .ok false =>
        refine Leads.finish rfl hwithin' ?_
        rw [hafter]
        exact ⟨htext, hpassed, rfl, rfl, hhanded, .inr ⟨rfl, rfl⟩⟩
    | .error exc =>
        exact hwithin'
  case isFalse hinternal =>
    rw [Bool.not_eq_true] at hinternal
    rw [hinternal]
    apply deliverDone_attains hwithin
    all_goals rw [hlog]
    · exact htext
    · exact hpassed
    · exact honce
    · exact hoffered
    · exact hhanded

end Nodes

/-! ### The run -/

/-- A run on a fresh state, with at most `m` reworks. -/
def TeamTaskDeps.runStep (deps : TeamTaskDeps) (fuel : ℕ) (stepTitle acceptance : String) (attemptId : AttemptId)
    (m : ℕ) : StepProg (Option TeamStepState) :=
  deps.runGraph fuel (.fresh stepTitle acceptance attemptId m)

/-- What one node does, from where it begins. -/
theorem node_attains (deps : TeamTaskDeps) {m : ℕ} {node : GraphNode} {s : TeamStepState}
    {log : Log StepCall StepCall.Resp} (h : Begins m node s (tally log)) :
    Attains (Leads m deps.externalWrite node s) (·.Within m) (deps.nodeProg node s) (log ++ [⟨.node node s, ()⟩]) := by
  cases node with
  | perceive =>
      apply perceive_attains
      rw [tally_concat]
      exact h
  | work =>
      apply work_attains
      rw [tally_concat]
      exact h
  | selfCheck =>
      apply selfCheck_attains
      rw [tally_concat]
      exact h
  | rework =>
      apply rework_attains
      rw [tally_concat]
      exact h
  | recover =>
      apply recover_attains
      rw [tally_concat]
      exact h
  | deliver =>
      exact deliver_attains h (tally_concat log _ _)

theorem Begins.fresh (stepTitle acceptance : String) (attemptId : AttemptId) (m : ℕ) :
    Begins m .perceive (.fresh stepTitle acceptance attemptId m) {} :=
  ⟨rfl, rfl, Nat.zero_le _, rfl, ⟨rfl, rfl, rfl⟩, rfl, rfl, rfl, rfl⟩

/-- A run, whatever the collaborators do: it raises within the budgets, or delivers within them. -/
theorem runStep_attains (deps : TeamTaskDeps) (stepTitle acceptance : String) (attemptId : AttemptId) (m : ℕ) {fuel : ℕ}
    (hfuel : 2 * m + 6 ≤ fuel) :
    Attains (fun t out => ∃ s, out = some s ∧ t.Within m ∧ t.Delivers deps.externalWrite s) (·.Within m)
      (deps.runStep fuel stepTitle acceptance attemptId m) [] := by
  refine NodeGraph.exec_follows (Q := fun log s => (tally log).Within m ∧ (tally log).Delivers deps.externalWrite s)
    (fun node s log => Begins m node s (tally log)) (fun node s => node.left m s)
    (fun node s log h => ⟨trivial, fun _ _ => ?_⟩) (Begins.fresh stepTitle acceptance attemptId m) ?_
  · refine (node_attains deps h).mono (fun log' s' hleads => ?_) fun _ _ h => h
    unfold NodeGraph.After
    cases hleads with
    | next hroute hbegins hleft =>
        rw [show deps.graph.next node s' = some _ from hroute]
        exact ⟨hbegins, hleft⟩
    | finish hroute hwithin hdelivers =>
        rw [show deps.graph.next node s' = none from hroute]
        exact ⟨hwithin, hdelivers⟩
  · exact hfuel

/-- The limit on the nodes is no limit: when it lets the longest run through, raising it changes nothing. -/
theorem runStep_fuel (deps : TeamTaskDeps) (stepTitle acceptance : String) (attemptId : AttemptId) (m more : ℕ) :
    deps.runStep (2 * m + 6 + more) stepTitle acceptance attemptId m =
      deps.runStep (2 * m + 6) stepTitle acceptance attemptId m := by
  apply NodeGraph.exec_add
  refine (runStep_attains deps stepTitle acceptance attemptId m le_rfl).only fun log out hout => ?_
  obtain ⟨s, rfl, -⟩ := hout
  exact Option.some_ne_none s

/-- **A step ends within its budgets.**  Whatever the collaborators answer or raise, the run ends: it has kept to the
budgets of work, reworks, self-checks and consults, and either it raises, or it has delivered once, with the last text
and flagged exactly when the last self-check has failed. -/
theorem step_within_budgets (deps : TeamTaskDeps) (stepTitle acceptance : String) (attemptId : AttemptId) (m : ℕ)
    {fuel : ℕ} (hfuel : 2 * m + 6 ≤ fuel) {W : Type} (collaborators : (c : StepCall) → W → c.Resp × W) (w : W) :
    (tally ((deps.runStep fuel stepTitle acceptance attemptId m).trace collaborators w)).Within m ∧
      ((∃ msg, ((deps.runStep fuel stepTitle acceptance attemptId m).run collaborators w).1 = .error msg) ∨
        ∃ s, ((deps.runStep fuel stepTitle acceptance attemptId m).run collaborators w).1 = .ok (some s) ∧
          (tally ((deps.runStep fuel stepTitle acceptance attemptId m).trace collaborators w)).Delivers
            deps.externalWrite s) := by
  have hends := Prog.ends_trace collaborators (deps.runStep fuel stepTitle acceptance attemptId m) w
  refine Prog.Follows.ends (E := fun log out => (tally log).Within m ∧
      ((∃ msg, out = .error msg) ∨ ∃ s, out = .ok (some s) ∧ (tally log).Delivers deps.externalWrite s))
    ((runStep_attains deps stepTitle acceptance attemptId m hfuel).mono (fun log out hout => ?_) fun log msg hwithin =>
      ⟨hwithin, .inl ⟨msg, rfl⟩⟩) hends
  obtain ⟨s, rfl, hwithin, hdelivers⟩ := hout
  exact ⟨hwithin, .inr ⟨s, rfl, hdelivers⟩⟩

/-- Collaborators that know what they have been asked: the first work fails, and so does the first check. -/
def teamReply (t : Tally) : (c : StepCall) → c.Resp
  | .node _ _ => ()
  | .phase _ => ()
  | .readHandoff => .ok ""
  | .setAttemptId _ => .ok ()
  | .proposeConsults _ _ => .ok [("lan", "Which figures?"), ("minh", "Which week?")]
  | .askColleague _ _ => if t.answers = 0 then .ok ("Those of May.", none) else .error ⟨"away", true⟩
  | .runWork _ _ => if t.works = 0 then .error ⟨"timeout", true⟩ else .ok ("draft", none)
  | .runSelfCheck _ _ => .ok ⟨decide (0 < t.reworks), ["too short"], 1⟩
  | .runRework _ _ _ => .ok ("report", none)
  | .externalWrite _ => .ok true
  | .deliverStep _ _ _ => .ok (true, "")

/-- `teamReply`, with the calls counted. -/
def sampleTeam (c : StepCall) (t : Tally) : c.Resp × Tally :=
  (teamReply t c, t.after c (teamReply t c))

/-- A run under `sampleTeam`. -/
def sampleStepRun : StepProg (Option TeamStepState) :=
  TeamTaskDeps.runStep ⟨true, true, false, true⟩ 10 "Report" "Has figures" 1 2

/-- A step with a second try and one rework. -/
theorem step_within_budgets_retry : ((tally (sampleStepRun.trace sampleTeam {})).Within 2 ∧
      ((∃ msg, (sampleStepRun.run sampleTeam {}).1 = .error msg) ∨
        ∃ s, (sampleStepRun.run sampleTeam {}).1 = .ok (some s) ∧
          (tally (sampleStepRun.trace sampleTeam {})).Delivers true s)) ∧
    (tally (sampleStepRun.trace sampleTeam {})).works = 2 ∧
    (tally (sampleStepRun.trace sampleTeam {})).delivered = [("report", false)] :=
  ⟨step_within_budgets ⟨true, true, false, true⟩ "Report" "Has figures" 1 2 (le_refl 10) sampleTeam {},
    by decide +kernel⟩

end ProjectManager
