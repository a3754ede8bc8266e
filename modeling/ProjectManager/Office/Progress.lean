import Mathlib.Tactic.Linarith
import ProjectManager.Office.Handoff

/-!
# When a tick moves a task

`reviewDecision` is what the review rule decides for one step, as a function of what it reads; the lemmas
`run_reviewRule_*` say that the program does just that.  `acts_iff` is the result: run alone on a task
with nothing in flight, `_act_on_task` takes an action exactly when the spend is over the cap, a review
is due, a step is ready and the headroom is left for it, all is done, or a step is dead.
-/

namespace ProjectManager

open Process Process.Prog

/-! ### What the review rule does -/

section Rule

variable {rt : Runtime} {w : Office} {task : TeamTask} {step : TeamStep}

/-- A part of the review rule does what was decided: nothing, or the insertion (which may raise), or the
stall. -/
def Decided (rt : Runtime) (task : TeamTask) (p : OfficeProg Bool) (w : Office) : Option ReviewDecision → Prop
  | none => p.run (OfficeCall.handle rt) w = (.ok false, w)
  | some .stall => p.Returns (OfficeCall.handle rt) w fun handled _ => handled = true
  | some (.mint d) =>
      (∀ db, w.ledger.db.insertStep task.id d = .ok db → p.Returns (OfficeCall.handle rt) w fun handled _ => handled = true) ∧
        ∀ msg, w.ledger.db.insertStep task.id d = .error msg → p.run (OfficeCall.handle rt) w = (.error msg, w)

theorem decided_insert (d : StepDict) :
    Decided rt task ((insertStep task d).bind fun _ => ret true) w (some (.mint d)) := by
  refine ⟨fun db hok => ?_, fun msg herror => ?_⟩
  · refine ⟨true, { w with ledger := w.ledger.commit db }, ?_, rfl⟩
    simp only [insertStep, bind_eq, OfficeProg.store, ask_bind, Prog.bind, run, OfficeCall.handle, StoreOp.run, hok,
      StoreOp.checked, Prog.ofExcept]
  · simp only [insertStep, bind_eq, OfficeProg.store, ask_bind, Prog.bind, run, OfficeCall.handle, StoreOp.run, herror,
      StoreOp.checked, Prog.ofExcept]

/-- A question before the decision. -/
theorem Decided.asked {e : OfficeCall} {k : e.Resp → OfficeProg Bool} {x : Option ReviewDecision}
    (hsame : (e.handle rt w).2 = w) (h : Decided rt task (k (e.handle rt w).1) w x) : Decided rt task (call e k) w x := by
  have hrun : (call e k).run (OfficeCall.handle rt) w = (k (e.handle rt w).1).run (OfficeCall.handle rt) w := by
    show (k (e.handle rt w).1).run (OfficeCall.handle rt) (e.handle rt w).2 = _
    rw [hsame]
  rcases x with _ | ⟨d⟩ | _
  · exact hrun.trans h
  · refine ⟨fun db hok => ?_, fun msg herror => hrun.trans (h.2 msg herror)⟩
    obtain ⟨a, w', hreturn, ha⟩ := h.1 db hok
    exact ⟨a, w', hrun.trans hreturn, ha⟩
  · obtain ⟨a, w', hreturn, ha⟩ := h
    exact ⟨a, w', hrun.trans hreturn, ha⟩

theorem decided_nothing : Decided rt task (ret false) w none :=
  rfl

theorem decided_maybeInsertReview (hwork : step.stepType = .work) :
    Decided rt task (maybeInsertReview task step) w (decideWork (w.env .assignableStaff) task step) := by
  unfold maybeInsertReview decideWork
  by_cases hneeds : step.needsReview = true
  · by_cases hchild : (reviewChild task step.stepId .review).isSome = true
    · simp [hwork, hneeds, hchild, decided_nothing]
    · have hchild : (reviewChild task step.stepId .review).isSome = false := by simpa using hchild
      simp only [hwork, hneeds, hchild, ne_eq, not_true_eq_false, Bool.true_eq_false, or_self, if_false, and_self, if_true,
        Bool.false_eq_true]
      refine Decided.asked rfl ?_
      simp only [OfficeCall.handle, ret_bind]
      cases pickReviewer step.assignedTo (w.env .assignableStaff) with
      | none =>
          exact Decided.asked rfl decided_nothing
      | some reviewer =>
          exact decided_insert _
  · simp [hwork, hneeds, decided_nothing]

theorem decided_actOnVerdict (content : TeamStep) (verdict : Option Artifact) :
    Decided rt task (actOnVerdict task content step verdict) w (decideVerdict task content step verdict) := by
  cases verdict with
  | none =>
      simp only [actOnVerdict, decideVerdict]
      split
      · exact decided_insert _
      · exact decided_nothing
  | some v =>
      simp only [actOnVerdict, decideVerdict]
      split
      · exact decided_nothing
      split
      · exact ⟨true, _, rfl, rfl⟩
      split
      · exact decided_nothing
      · exact decided_insert _

theorem decided_maybeHandleReviewDone (hreview : step.stepType = .review) :
    Decided rt task (maybeHandleReviewDone task step) w ((step.parentStepId.bind task.step?).bind fun content =>
      decideVerdict task content step (w.files (reviewVerdictArtifactPath task.id content.seq step.reviewRound))) := by
  unfold maybeHandleReviewDone
  cases hparent : step.parentStepId with
  | none =>
      simp [hreview, decided_nothing]
  | some id =>
      simp only [hreview, Option.bind_some]
      cases task.step? id with
      | none =>
          exact decided_nothing
      | some content =>
          exact Decided.asked rfl (decided_actOnVerdict content _)

theorem decided_maybeInsertReviewAfterRework (hrework : step.stepType = .rework) :
    Decided rt task (maybeInsertReviewAfterRework task step) w ((step.parentStepId.bind task.step?).bind fun content =>
      decideRework (w.env .assignableStaff) task content step) := by
  unfold maybeInsertReviewAfterRework decideRework
  cases hparent : step.parentStepId with
  | none =>
      simp [hrework, decided_nothing]
  | some id =>
      simp only [hrework, Option.bind_some]
      cases hcontent : task.step? id with
      | none =>
          exact decided_nothing
      | some content =>
          simp only [Option.bind_some, (step?_eq_some hcontent).2]
          split
          · exact decided_nothing
          refine Decided.asked rfl ?_
          simp only [OfficeCall.handle, ret_bind]
          cases pickReviewer content.assignedTo (w.env .assignableStaff) with
          | none =>
              exact Decided.asked rfl decided_nothing
          | some reviewer =>
              exact decided_insert _

/-- The result of a tick is an action. -/
def Acting (r : Option TickResult) (_ : Office) : Prop :=
  ∃ result, r = some result ∧ result.action ≠ .none

/-- The review rule does what was decided and reports it. -/
def Ruled (rt : Runtime) (task : TeamTask) (p : OfficeProg (Option TickResult)) (w : Office) :
    Option ReviewDecision → Prop
  | none => p.run (OfficeCall.handle rt) w = (.ok none, w)
  | some .stall => p.Returns (OfficeCall.handle rt) w Acting
  | some (.mint d) =>
      (∀ db, w.ledger.db.insertStep task.id d = .ok db → p.Returns (OfficeCall.handle rt) w Acting) ∧
        ∀ msg, w.ledger.db.insertStep task.id d = .error msg → p.run (OfficeCall.handle rt) w = (.error msg, w)

theorem Decided.ruled {p : OfficeProg Bool} {f : Bool → OfficeProg (Option TickResult)} {x : Option ReviewDecision}
    (h : Decided rt task p w x) (htrue : ∀ w', (f true).Returns (OfficeCall.handle rt) w' Acting)
    (hfalse : (f false).run (OfficeCall.handle rt) w = (.ok none, w)) : Ruled rt task (p.bind f) w x := by
  have hacts : p.Returns (OfficeCall.handle rt) w (fun handled _ => handled = true) →
      (p.bind f).Returns (OfficeCall.handle rt) w Acting := by
    intro hreturns
    refine hreturns.bind ?_
    rintro handled w' rfl
    exact htrue w'
  rcases x with _ | ⟨d⟩ | _
  · exact (run_bind_ok h).trans hfalse
  · refine ⟨fun db hok => hacts (h.1 db hok), fun msg herror => ?_⟩
    rw [run_bind, h.2 msg herror]
  · exact hacts h

/-- The review rule on one step does what `reviewDecision` says. -/
theorem ruled_reviewRule (hlisted : task.Listed) (step : TeamStep) :
    Ruled rt task (reviewRule task step) w (reviewDecision (w.env .assignableStaff) w.files task step) := by
  have hhandled : ∀ w', ((OfficeProg.store (.get task.id)).bind fun refreshed =>
      ret (reviewHandled task step refreshed)).Returns (OfficeCall.handle rt) w' Acting := by
    intro w'
    obtain ⟨r, hr, hacts⟩ := reviewHandled_acts hlisted step (w'.ledger.db.get task.id)
    refine ⟨_, _, rfl, r, ?_, hacts⟩
    exact hr
  have hinserted : ∀ w', (ret (some ⟨some task.id, .reviewInserted, step.stepId⟩) :
      OfficeProg (Option TickResult)).Returns (OfficeCall.handle rt) w' Acting :=
    fun w' => ⟨_, w', rfl, _, rfl, by simp⟩
  unfold reviewRule reviewDecision
  by_cases hdone : step.status = .done
  · simp only [hdone, ne_eq, not_true_eq_false, if_false]
    cases htype : step.stepType with
    | work =>
        refine (decided_maybeInsertReview htype).ruled hinserted ?_
        simp [maybeHandleReviewDone, maybeInsertReviewAfterRework, htype, run]
    | review =>
        have hskip : maybeInsertReview task step = ret false := by simp [maybeInsertReview, htype]
        rw [hskip]
        refine (decided_maybeHandleReviewDone htype).ruled hhandled ?_
        simp [maybeInsertReviewAfterRework, htype, run]
    | rework =>
        have hskip : maybeInsertReview task step = ret false := by simp [maybeInsertReview, htype]
        have hskip' : maybeHandleReviewDone task step = ret false := by simp [maybeHandleReviewDone, htype]
        rw [hskip, hskip']
        exact (decided_maybeInsertReviewAfterRework htype).ruled hinserted rfl
  · simp [hdone, Ruled, run]

theorem Ruled.congr {p p' : OfficeProg (Option TickResult)} {x : Option ReviewDecision}
    (hrun : p'.run (OfficeCall.handle rt) w = p.run (OfficeCall.handle rt) w) (h : Ruled rt task p w x) :
    Ruled rt task p' w x := by
  unfold Ruled Returns at h ⊢
  rw [hrun]
  exact h

/-- A rule that asks for something is the last one. -/
theorem Ruled.first {p : OfficeProg (Option TickResult)} {f : Option TickResult → OfficeProg (Option TickResult)}
    (hf : ∀ r, f (some r) = ret (some r)) {x : ReviewDecision} (h : Ruled rt task p w (some x)) :
    Ruled rt task (p.bind f) w (some x) := by
  have hacts : p.Returns (OfficeCall.handle rt) w Acting → (p.bind f).Returns (OfficeCall.handle rt) w Acting := by
    intro hreturns
    refine hreturns.bind ?_
    rintro - w' ⟨r, rfl, hr⟩
    rw [hf]
    exact ⟨_, w', rfl, r, rfl, hr⟩
  cases x with
  | mint d =>
      refine ⟨fun db hok => hacts (h.1 db hok), fun msg herror => ?_⟩
      rw [run_bind, h.2 msg herror]
  | stall =>
      exact hacts h

/-- The review rule on all steps does what it decides for the first step that asks for something. -/
theorem ruled_maybeInsertReviewRows (hlisted : task.Listed) :
    Ruled rt task (maybeInsertReviewRows task) w
      (task.steps.findSome? (reviewDecision (w.env .assignableStaff) w.files task)) := by
  unfold maybeInsertReviewRows
  induction task.steps with
  | nil =>
      rfl
  | cons step steps ih =>
      have hstep : Ruled rt task (reviewRule task step) w _ := ruled_reviewRule hlisted step
      rw [List.findSome?_cons]
      cases hdecision : reviewDecision (w.env .assignableStaff) w.files task step with
      | none =>
          rw [hdecision] at hstep
          exact ih.congr (run_bind_ok hstep)
      | some x =>
          rw [hdecision] at hstep
          rw [Prog.firstSome]
          refine Ruled.first ?_ hstep
          intro r
          rfl

/-! ### Dispatch -/

/-- The rows of the snapshot are in the store. -/
def Stored (task : TeamTask) (w : Office) : Prop :=
  ∀ s ∈ task.steps, ∃ row ∈ w.ledger.db.steps.rows, row.taskId = task.id ∧ row.stepId = s.stepId

theorem Stored.map {w' : Office} (h : Stored task w) {g : TeamStep → TeamStep}
    (hrows : w'.ledger.db.steps.rows = w.ledger.db.steps.rows.map g)
    (hg : ∀ s, (g s).toStepIdent = s.toStepIdent) : Stored task w' := by
  intro s hs
  obtain ⟨row, hrow, htask, hid⟩ := h s hs
  refine ⟨g row, ?_, ?_, ?_⟩
  · rw [hrows]
    exact List.mem_map_of_mem hrow
  · rw [congrArg StepIdent.taskId (hg row), htask]
  · rw [congrArg (fun i : StepIdent => i.stepId) (hg row), hid]

/-- Rows that an update rewrites keep what identifies them. -/
theorem Stored.update {w' : Office} (h : Stored task w) {p : TeamStep → Bool} {f : TeamStep → TeamStep}
    (hf : ∀ s, (f s).toStepIdent = s.toStepIdent)
    (hrows : w'.ledger.db.steps.rows = w.ledger.db.steps.rows.map fun s => if p s then f s else s) :
    Stored task w' := by
  refine h.map hrows fun s => ?_
  split
  · exact hf s
  · rfl

theorem Stored.recordSpawn (h : Stored task w) (taskId stepId : String) (pid : ℕ) :
    Stored task ((OfficeCall.store (.recordSpawn taskId stepId pid)).handle rt w).2 :=
  h.update (p := Db.isStep taskId stepId)
    (f := fun s => { s with childPid := some pid, lastSeen := some w.ledger.clock }) (fun _ => rfl) rfl

/-- Claiming and spawning a stored step is an action. -/
theorem returns_reserveAndSpawn (h : Stored task w) (hstep : step ∈ task.steps) :
    (reserveAndSpawn task step).Returns (OfficeCall.handle rt) w fun r w' => r.action ≠ .none ∧ Stored task w' := by
  unfold reserveAndSpawn isAssignable
  refine Returns.bind (Q := fun _ w' => w = w') ⟨_, w, rfl, rfl⟩ ?_
  intro rosterOk w' hw
  subst hw
  cases rosterOk with
  | false =>
      refine ⟨_, _, rfl, ⟨by simp, ?_⟩⟩
      exact h.update (p := Db.isAttempt task.id step.stepId none) (f := Db.withStatus .failed {}) (fun _ => rfl) rfl
  | true =>
      obtain ⟨row, hrow, htask, hid⟩ := h step hstep
      have hget : w.ledger.db.getStep task.id step.stepId = some row := Db.getStep_eq_some.2 ⟨hrow, htask, hid⟩
      have hreserve : (OfficeCall.store (.reserveStep task.id step.stepId)).handle rt w =
          (.ok w.ledger.nextAttempt,
            { w with
              ledger := { w.ledger.commit (w.ledger.db.reserveStep task.id step.stepId w.ledger.nextAttempt
                w.ledger.clock defaultLeaseTtl) with nextAttempt := w.ledger.nextAttempt + 1 } }) := by
        simp only [OfficeCall.handle, StoreOp.run, hget]
      show Returns _ (call (OfficeCall.store (.reserveStep task.id step.stepId)) _) w _
      refine Returns.call ?_
      rw [hreserve]
      refine ⟨_, _, rfl, ⟨by simp, ?_⟩⟩
      refine Stored.recordSpawn ?_ task.id step.stepId _
      exact h.update (p := Db.isStep task.id step.stepId)
        (f := Db.reserved w.ledger.nextAttempt w.ledger.clock defaultLeaseTtl) (fun _ => rfl) rfl

/-- The dispatch loop returns, and all it adds are actions. -/
theorem returns_dispatchLoop (h : Stored task w) (capUsd estimate : ℚ) (slots : ℕ) (ready : List TeamStep)
    (hready : ∀ s ∈ ready, s ∈ task.steps) (spawned : List TickResult) (hacts : ∀ r ∈ spawned, r.action ≠ .none) :
    (dispatchLoop task capUsd estimate slots ready spawned).Returns (OfficeCall.handle rt) w fun results _ =>
      spawned <+: results ∧ ∀ r ∈ results, r.action ≠ .none := by
  induction ready generalizing w spawned with
  | nil =>
      exact ⟨_, _, rfl, List.prefix_rfl, hacts⟩
  | cons s ready ih =>
      unfold dispatchLoop
      split
      · exact ⟨_, _, rfl, List.prefix_rfl, hacts⟩
      refine Returns.bind (Q := fun _ w' => Stored task w') ⟨_, w, rfl, h⟩ fun headroom w' hw' => ?_
      split
      · exact ⟨_, _, rfl, List.prefix_rfl, hacts⟩
      refine Returns.bind (returns_reserveAndSpawn hw' (hready s (by simp))) fun r w'' hr => ?_
      refine (ih hr.2 (fun x hx => hready x (by simp [hx])) (spawned ++ [r]) fun x hx => ?_).mono ?_
      · rcases List.mem_append.1 hx with hx | hx
        · exact hacts x hx
        · rw [List.mem_singleton.1 hx]
          exact hr.1
      · intro results _ hresults
        exact ⟨(List.prefix_append _ _).trans hresults.1, hresults.2⟩

/-- One step of the plan costs a share of the cap. -/
def stepEstimate (cfg : OfficeConfig) : ℚ :=
  stepCostEstimateUsd cfg.costCapUsd maxSteps

/-- With a slot and the headroom, the first ready step is claimed. -/
theorem returns_dispatchReadySteps {cfg : OfficeConfig} (h : Stored task w) (hslots : 1 ≤ cfg.concurrency)
    (hrunning : runningCount task = 0) {s : TeamStep} {ready : List TeamStep} (hready : ∀ x ∈ s :: ready, x ∈ task.steps)
    (hroom : w.ledger.db.sumCost task.id + stepEstimate cfg ≤ cfg.costCapUsd) :
    (dispatchReadySteps cfg task (s :: ready)).Returns (OfficeCall.handle rt) w fun results _ =>
      ∃ first rest, results = first :: rest ∧ first.action ≠ .none := by
  unfold dispatchReadySteps
  have hslots' : cfg.concurrency - runningCount task ≠ 0 := by omega
  simp only [hslots', if_false]
  unfold dispatchLoop
  have hfree : ¬ cfg.concurrency - runningCount task ≤ ([] : List TickResult).length := by
    simp
    omega
  simp only [hfree, if_false]
  refine Returns.call ?_
  have henough : ¬ (cfg.costCapUsd - w.ledger.db.sumCost task.id - runningCount task * stepEstimate cfg -
      ([] : List TickResult).length * stepEstimate cfg < stepEstimate cfg) := by
    rw [hrunning]
    simp only [Nat.cast_zero, zero_mul, sub_zero, List.length_nil, not_lt]
    linarith
  show Returns _ (if _ < _ then _ else _) w _
  split
  · rename_i hshort
    exact absurd hshort henough
  refine Returns.bind (returns_reserveAndSpawn h (hready s (by simp))) fun r w' hr => ?_
  refine (returns_dispatchLoop hr.2 _ _ _ ready (fun x hx => hready x (by simp [hx])) [r] ?_).mono ?_
  · intro x hx
    rw [List.mem_singleton.1 hx]
    exact hr.1
  · rintro results _ ⟨⟨rest, rfl⟩, -⟩
    exact ⟨r, rest, rfl, hr.1⟩

/-- Without the headroom nothing is dispatched and nothing is changed. -/
theorem run_dispatchReadySteps {cfg : OfficeConfig} (hrunning : runningCount task = 0) (ready : List TeamStep)
    (hroom : ¬ w.ledger.db.sumCost task.id + stepEstimate cfg ≤ cfg.costCapUsd) :
    (dispatchReadySteps cfg task ready).run (OfficeCall.handle rt) w = (.ok [], w) := by
  unfold dispatchReadySteps
  dsimp only
  split
  · rfl
  cases ready with
  | nil =>
      rfl
  | cons s ready =>
      unfold dispatchLoop
      split
      · rfl
      have hshort : cfg.costCapUsd - w.ledger.db.sumCost task.id - runningCount task * stepEstimate cfg -
          ([] : List TickResult).length * stepEstimate cfg < stepEstimate cfg := by
        rw [hrunning]
        simp only [Nat.cast_zero, zero_mul, sub_zero, List.length_nil]
        linarith
      show Prog.run _ (if _ < _ then _ else _) w = _
      split
      · rfl
      · rename_i henough
        exact absurd hshort henough

/-! ### Completion -/

/-- Delivering a finished task is an action. -/
theorem returns_aggregateAndDeliver (cfg : OfficeConfig) :
    (aggregateAndDeliver cfg task).Returns (OfficeCall.handle rt) w fun r _ => r.action ≠ .none := by
  have hparts : ∀ (steps : List TeamStep) (w : Office),
      (aggregateParts task steps).Returns (OfficeCall.handle rt) w fun _ _ => True := by
    intro steps
    induction steps with
    | nil =>
        exact fun w => ⟨_, w, rfl, trivial⟩
    | cons s steps ih =>
        exact fun w => Returns.call ((ih _).bind fun _ w' _ => ⟨_, w', rfl, trivial⟩)
  have haggregate : (aggregate cfg task).Returns (OfficeCall.handle rt) w fun _ _ => True := by
    refine (hparts _ w).bind fun parts w' _ => ?_
    dsimp only
    split
    · refine Returns.call ?_
      simp only [OfficeCall.handle, ret_bind]
      cases w'.env (.complete (.aggregate task.title parts)) with
      | error msg =>
          exact ⟨_, w', rfl, trivial⟩
      | ok result =>
          exact ⟨_, w', rfl, trivial⟩
    · exact ⟨_, w', rfl, trivial⟩
  refine haggregate.bind fun summary w' _ => ?_
  obtain ⟨text, cost⟩ := summary
  cases cost with
  | none =>
      exact ⟨_, _, rfl, by simp⟩
  | some cost =>
      exact ⟨_, _, rfl, by simp⟩

/-- The end of a tick on a task with nothing in flight: delivered, stalled or nothing. -/
theorem returns_finish (cfg : OfficeConfig) (hflight : inFlight task = false)
    (h : task.allDone = true ∨ deadSteps task ≠ []) :
    (finish cfg task).Returns (OfficeCall.handle rt) w fun r _ => r.action ≠ .none := by
  unfold finish
  split
  · exact returns_aggregateAndDeliver cfg
  · rename_i hdone
    have hdead : (deadSteps task).isEmpty = false := by
      rcases h with h | h
      · exact absurd h hdone
      · simpa using h
    unfold deadEndResult
    simp only [hdead, hflight, Bool.or_self, Bool.false_eq_true, if_false]
    exact ⟨_, _, rfl, by simp⟩

theorem run_finish (cfg : OfficeConfig) (hdone : task.allDone = false) (hdead : deadSteps task = []) :
    ∃ r w', (finish cfg task).run (OfficeCall.handle rt) w = (.ok r, w') ∧ r.action = .none := by
  refine ⟨⟨some task.id, .none, "nothing actionable"⟩, w, ?_, rfl⟩
  simp [finish, hdone, deadEndResult, hdead, run]

end Rule

/-! ### The tick on one task -/

/-- What it takes for a tick to move a task with nothing in flight whose spend is within the cap. -/
def MovableWithinCap (cfg : OfficeConfig) (w : Office) (task : TeamTask) : Prop :=
  match task.steps.findSome? (reviewDecision (w.env .assignableStaff) w.files task) with
  | some .stall => True
  | some (.mint d) => ∀ s ∈ task.steps, s.stepId ≠ d.stepId
  | none =>
      readyPendingSteps task ≠ [] ∧ w.ledger.db.sumCost task.id + stepEstimate cfg ≤ cfg.costCapUsd ∨
        task.allDone = true ∨ deadSteps task ≠ []

/-- What it takes for a tick to move a task that has nothing in flight. -/
def Movable (cfg : OfficeConfig) (w : Office) (task : TeamTask) : Prop :=
  cfg.costCapUsd < w.ledger.db.sumCost task.id ∨ MovableWithinCap cfg w task

section Tick

variable {cfg : OfficeConfig} {staffOk : List (String × String) → Prop} {w : Office} {task : TeamTask}

/-- The result of a tick is an action. -/
abbrev Moved (r : TickResult) (_ : Office) : Prop :=
  r.action ≠ .none

theorem not_moved {p : OfficeProg TickResult} {r : TickResult} {w' : Office}
    (h : p.run (OfficeCall.handle cfg.rt) w = (.ok r, w')) (hnone : r.action = .none) :
    ¬ p.Returns (OfficeCall.handle cfg.rt) w Moved := by
  rintro ⟨r', w'', hrun, hr'⟩
  rw [h] at hrun
  cases hrun
  exact hr' hnone

theorem not_moved_of_error {p : OfficeProg TickResult} {msg : String} {w' : Office}
    (h : p.run (OfficeCall.handle cfg.rt) w = (.error msg, w')) : ¬ p.Returns (OfficeCall.handle cfg.rt) w Moved := by
  rintro ⟨r', w'', hrun, -⟩
  rw [h] at hrun
  cases hrun

theorem withStatus_idle (hidle : inFlight task = false) {status : StepStatus}
    (hstatus : status = .running ∨ status = .awaitingApproval) : task.withStatus status = [] := by
  simp only [inFlight, List.any_eq_false, Bool.or_eq_true, decide_eq_true_eq, not_or] at hidle
  simp only [TeamTask.withStatus, List.filter_eq_nil_iff, decide_eq_true_eq]
  intro s hs hsame
  rcases hstatus with rfl | rfl
  · exact (hidle s hs).1 hsame
  · exact (hidle s hs).2 hsame

theorem run_pollSteps (hidle : inFlight task = false) :
    (pollSteps task).run (OfficeCall.handle cfg.rt) w = (.ok none, w) := by
  unfold pollSteps
  rw [withStatus_idle hidle (.inl rfl), withStatus_idle hidle (.inr rfl)]
  rfl

theorem runningCount_idle (hidle : inFlight task = false) : runningCount task = 0 := by
  simp only [inFlight, List.any_eq_false, Bool.or_eq_true, decide_eq_true_eq, not_or] at hidle
  simp only [runningCount, List.countP_eq_zero, decide_eq_true_eq]
  exact fun s hs => (hidle s hs).1

/-- After the review rule has found nothing to do. -/
theorem dispatchOrFinish_iff (hstored : Stored task w) (hidle : inFlight task = false) (hslots : 1 ≤ cfg.concurrency) :
    (dispatchOrFinish cfg task).Returns (OfficeCall.handle cfg.rt) w Moved ↔
      readyPendingSteps task ≠ [] ∧ w.ledger.db.sumCost task.id + stepEstimate cfg ≤ cfg.costCapUsd ∨
        task.allDone = true ∨ deadSteps task ≠ [] := by
  have hfinish : ∀ {p : OfficeProg TickResult}, p.run (OfficeCall.handle cfg.rt) w =
      (finish cfg task).run (OfficeCall.handle cfg.rt) w →
      (p.Returns (OfficeCall.handle cfg.rt) w Moved ↔ task.allDone = true ∨ deadSteps task ≠ []) := by
    intro p hrun
    by_cases hend : task.allDone = true ∨ deadSteps task ≠ []
    · simp only [hend, iff_true]
      have hacts : (finish cfg task).Returns (OfficeCall.handle cfg.rt) w fun r _ => r.action ≠ .none :=
        returns_finish cfg hidle hend
      obtain ⟨r, w', hreturn, hr⟩ := hacts
      exact ⟨r, w', hrun.trans hreturn, hr⟩
    · simp only [hend, iff_false]
      push Not at hend
      have hidles : ∃ r w', (finish cfg task).run (OfficeCall.handle cfg.rt) w = (.ok r, w') ∧ r.action = .none :=
        run_finish cfg (by simpa using hend.1) hend.2
      obtain ⟨r, w', hnone, hr⟩ := hidles
      exact not_moved (hrun.trans hnone) hr
  unfold dispatchOrFinish
  cases hready : readyPendingSteps task with
  | nil =>
      simp only [ne_eq, not_true_eq_false, false_and, false_or]
      exact hfinish rfl
  | cons s ready =>
      have hmem : ∀ x ∈ s :: ready, x ∈ task.steps := by
        intro x hx
        rw [← hready] at hx
        exact (List.mem_filter.1 hx).1
      by_cases hroom : w.ledger.db.sumCost task.id + stepEstimate cfg ≤ cfg.costCapUsd
      · simp only [ne_eq, reduceCtorEq, not_false_eq_true, hroom, and_self, true_or, iff_true]
        refine Returns.bind (returns_dispatchReadySteps hstored hslots (runningCount_idle hidle) hmem hroom) ?_
        rintro - w' ⟨first, rest, rfl, hfirst⟩
        exact ⟨_, w', rfl, combineSpawnResults_acts hfirst⟩
      · simp only [hroom, and_false, false_or]
        exact hfinish (run_bind_ok (run_dispatchReadySteps (runningCount_idle hidle) _ hroom))

/-- Within the cap the review rule comes first. -/
theorem actWithinCap_iff (hlisted : task.Listed) (hstored : Stored task w)
    (hrows : ∀ row ∈ w.ledger.db.steps.rows, row.taskId = task.id → row ∈ task.steps)
    (hidle : inFlight task = false) (hslots : 1 ≤ cfg.concurrency) :
    (actWithinCap cfg task).Returns (OfficeCall.handle cfg.rt) w Moved ↔ MovableWithinCap cfg w task := by
  have hruled : Ruled cfg.rt task (maybeInsertReviewRows task) w _ := ruled_maybeInsertReviewRows hlisted
  have hacts : (maybeInsertReviewRows task).Returns (OfficeCall.handle cfg.rt) w Acting →
      (actWithinCap cfg task).Returns (OfficeCall.handle cfg.rt) w Moved := by
    intro hreturns
    refine hreturns.bind ?_
    rintro - w' ⟨r, rfl, hr⟩
    exact ⟨r, w', rfl, hr⟩
  unfold MovableWithinCap
  cases hdecision : task.steps.findSome? (reviewDecision (w.env .assignableStaff) w.files task) with
  | none =>
      rw [hdecision] at hruled
      have hrun : (actWithinCap cfg task).run (OfficeCall.handle cfg.rt) w =
          (dispatchOrFinish cfg task).run (OfficeCall.handle cfg.rt) w := by
        refine (run_bind_ok hruled).trans ?_
        exact run_bind_ok (run_pollSteps hidle)
      rw [← dispatchOrFinish_iff hstored hidle hslots]
      unfold Returns
      rw [hrun]
  | some x =>
      rw [hdecision] at hruled
      cases x with
      | stall =>
          simp only [iff_true]
          exact hacts hruled
      | mint d =>
          cases hinsert : w.ledger.db.insertStep task.id d with
          | ok db =>
              have hfree : ∀ s ∈ task.steps, s.stepId ≠ d.stepId := by
                intro s hs hsame
                obtain ⟨row, hrow, htask, hid⟩ := hstored s hs
                obtain ⟨msg, herror⟩ := Db.insertStep_taken.2 ⟨row, hrow, htask, hid.trans hsame⟩
                rw [hinsert] at herror
                cases herror
              exact iff_of_true (hacts (hruled.1 db hinsert)) hfree
          | error msg =>
              have herror : (actWithinCap cfg task).run (OfficeCall.handle cfg.rt) w = (.error msg, w) := by
                refine (run_bind _ _ _ _).trans ?_
                rw [hruled.2 msg hinsert]
              refine iff_of_false (not_moved_of_error herror) ?_
              intro hfree
              obtain ⟨row, hrow, htask, hid⟩ := Db.insertStep_taken.1 ⟨msg, hinsert⟩
              exact hfree row (hrows row hrow htask) hid

/-- Within the cap, on a plan that verifies, the tick goes on to the review rule. -/
theorem run_actOnTask (hverified : task.planVerified cfg.rt = true) (hcap : w.ledger.db.sumCost task.id ≤ cfg.costCapUsd) :
    (actOnTask cfg task).run (OfficeCall.handle cfg.rt) w = (actWithinCap cfg task).run (OfficeCall.handle cfg.rt) w := by
  have hwarned : ∀ spent, (maybeWarnCostCap cfg task spent).run (OfficeCall.handle cfg.rt) w = (.ok (), w) := by
    intro spent
    unfold maybeWarnCostCap
    split <;> rfl
  unfold actOnTask
  simp only [hverified, if_true]
  show Prog.run _ (if w.ledger.db.sumCost task.id ≤ cfg.costCapUsd then _ else _) w = _
  rw [if_pos hcap]
  exact run_bind_ok (hwarned _)

/-- Run alone on a task of the store with nothing in flight, `_act_on_task` acts exactly on a movable one. -/
theorem actOnTask_iff (hinv : w.Inv cfg staffOk) (htask : task ∈ w.ledger.db.listDispatchable)
    (hidle : inFlight task = false) (hslots : 1 ≤ cfg.concurrency) :
    (actOnTask cfg task).Returns (OfficeCall.handle cfg.rt) w Moved ↔ Movable cfg w task := by
  obtain ⟨hget, -⟩ := Db.mem_listDispatchable.1 htask
  obtain ⟨-, -, hsteps⟩ := Db.get_eq_some.1 hget
  have hlisted : task.Listed := plausible_handle hinv (.store .listDispatchable) task htask
  have hstored : Stored task w := by
    intro s hs
    rw [hsteps] at hs
    obtain ⟨hrow, hid⟩ := Db.mem_stepsForTask.1 hs
    exact ⟨s, hrow, hid, rfl⟩
  have hrows : ∀ row ∈ w.ledger.db.steps.rows, row.taskId = task.id → row ∈ task.steps := by
    intro row hrow hid
    rw [hsteps]
    exact Db.mem_stepsForTask.2 ⟨hrow, hid⟩
  unfold Movable
  by_cases hcap : w.ledger.db.sumCost task.id ≤ cfg.costCapUsd
  · rw [← actWithinCap_iff hlisted hstored hrows hidle hslots]
    simp only [not_lt.2 hcap, false_or]
    unfold Returns
    rw [run_actOnTask (hinv.ledger.planVerified hget) hcap]
  · simp only [not_le.1 hcap, true_or, iff_true]
    unfold actOnTask
    simp only [hinv.ledger.planVerified hget, if_true]
    refine Returns.call ?_
    show Returns _ (if w.ledger.db.sumCost task.id ≤ cfg.costCapUsd then _ else _) w _
    rw [if_neg hcap]
    exact ⟨_, _, rfl, by simp⟩

/-- In every state of every run, `_act_on_task` acts on a dispatchable task with nothing in flight exactly
when the spend is over the cap, the review rule has something to do that it can store, a step is ready and
the cap leaves room for it, all is done, or a step is dead. -/
theorem acts_iff {pool : OfficePool} (hsha : Function.Injective cfg.rt.sha256)
    (hreach : (officeSystem cfg staffOk anyCall).Reach (officeInit staffOk) pool)
    (htask : task ∈ pool.world.ledger.db.listDispatchable) (hidle : inFlight task = false)
    (hslots : 1 ≤ cfg.concurrency) :
    (actOnTask cfg task).Returns (OfficeCall.handle cfg.rt) pool.world Moved ↔ Movable cfg pool.world task :=
  actOnTask_iff (officeOk hsha hreach).inv htask hidle hslots

end Tick

/-! ### The gap below the cap -/

/-- The action that `_act_on_task`, run alone, reports. -/
def actionOn (cfg : OfficeConfig) (w : Office) (task : TeamTask) : Option TickAction :=
  ((actOnTask cfg task).run (OfficeCall.handle cfg.rt) w).1.toOption.map TickResult.action

theorem returns_moved_iff {cfg : OfficeConfig} {w : Office} {task : TeamTask} :
    (actOnTask cfg task).Returns (OfficeCall.handle cfg.rt) w Moved ↔
      ∃ action, actionOn cfg w task = some action ∧ action ≠ .none := by
  unfold Returns actionOn
  rcases (actOnTask cfg task).run (OfficeCall.handle cfg.rt) w with ⟨msg | r, w'⟩
  · simp [Except.toOption]
  · simp [Except.toOption, Moved]

/-- In the small office the first tick moves the task: its step is ready and the cap leaves room. -/
theorem acts_iff_ready :
    ∃ task ∈ oneStepPool.world.ledger.db.listDispatchable, inFlight task = false ∧
      actionOn sampleConfig oneStepPool.world task = some .spawned ∧ Movable sampleConfig oneStepPool.world task := by
  obtain ⟨task, htask, hidle, haction⟩ : ∃ task ∈ oneStepPool.world.ledger.db.listDispatchable, inFlight task = false ∧
      actionOn sampleConfig oneStepPool.world task = some .spawned := by decide +kernel
  have hreach : (officeSystem sampleConfig anyStaff anyCall).Reach (officeInit anyStaff) oneStepPool :=
    reach_confirmed Ledger.samplePlan trivial
  refine ⟨task, htask, hidle, haction, ?_⟩
  exact (acts_iff Function.injective_id hreach htask hidle (by decide)).1
    (returns_moved_iff.2 ⟨_, haction, by decide⟩)

/-- A cap that leaves a tenth after the first step. -/
def tightConfig : OfficeConfig :=
  { sampleConfig with costCapUsd := 11 / 10 }

/-- One step is done and its review is minted; nothing runs. -/
def tightPool : OfficePool :=
  sampleRun tightConfig anyStaff (wholeTurn ++ wholeTick)
    ⟨.holding (sampleEnv "pass") (.confirmed tightConfig.rt dependentPlan), []⟩

/-- Two pending steps are ready, the spend is below the cap, and a tick does nothing about them. -/
theorem gap_leaves_stuck :
    ¬ ∀ cfg pool, (officeSystem cfg anyStaff anyCall).Reach (officeInit anyStaff) pool → 0 < cfg.costCapUsd →
      1 ≤ cfg.concurrency → ∀ task ∈ pool.world.ledger.db.listDispatchable, inFlight task = false →
        (actOnTask cfg task).Returns (OfficeCall.handle cfg.rt) pool.world Moved := by
  intro hclaim
  obtain ⟨task, htask, hidle, hnone⟩ : ∃ task ∈ tightPool.world.ledger.db.listDispatchable, inFlight task = false ∧
      actionOn tightConfig tightPool.world task = some .none := by decide +kernel
  have hreach : (officeSystem tightConfig anyStaff anyCall).Reach (officeInit anyStaff) tightPool :=
    reach_sampleRun _ (reach_confirmed dependentPlan trivial)
  obtain ⟨action, haction, hacts⟩ := returns_moved_iff.1
    (hclaim tightConfig tightPool hreach (by decide +kernel) (by decide) task htask hidle)
  rw [hnone] at haction
  exact hacts (Option.some.inj haction).symm

end ProjectManager
