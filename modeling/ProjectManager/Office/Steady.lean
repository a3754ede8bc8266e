import ProjectManager.Lib.Past
import ProjectManager.Office.System

/-!
# Ticks that do not raise

Two calls of the ticker can raise: `reserve_step` on a step that is gone and `insert_step` under an id that
is taken.  When neither happens the tick ends with a result (`steady_tickerProg`).
-/

namespace ProjectManager

open Process OfficeProg

/-- The answers on which no operation raises: the step to claim exists, and the id to insert is free. -/
def Accepting : (e : OfficeCall) → e.Resp → Prop
  | .store (.reserveStep ..), r => ∃ a, r = .ok a
  | .store (.insertStep ..), r => r = .ok ()
  | _, _ => True

/-- On such answers the program does not raise. -/
structure Steady {α : Type} (p : OfficeProg α) : Prop where
  follows : ∀ log, p.Follows Accepting (fun _ _ => True) (fun _ _ => True) (fun _ _ => False) log

section Steady

variable {α β : Type} {task : TeamTask} {step : TeamStep}

@[simp] theorem steady_ret (a : α) : Steady (Prog.ret a : OfficeProg α) :=
  ⟨fun _ => trivial⟩

theorem steady_call {e : OfficeCall} {k : e.Resp → OfficeProg α} (h : ∀ r, Accepting e r → Steady (k r)) :
    Steady (.call e k) :=
  ⟨fun _ => ⟨trivial, fun r hr => (h r hr).follows _⟩⟩

@[simp] theorem steady_ask (e : OfficeCall) : Steady (Prog.ask e) :=
  steady_call fun r _ => steady_ret r

theorem Steady.bind {p : OfficeProg α} {f : α → OfficeProg β} (h : Steady p) (hf : ∀ a, Steady (f a)) :
    Steady (p.bind f) :=
  ⟨fun log => (h.follows log).bind fun log' a _ => (hf a).follows log'⟩

theorem Steady.firstSome {γ : Type} {f : γ → OfficeProg (Option α)} (h : ∀ x, Steady (f x)) (xs : List γ) :
    Steady (Prog.firstSome f xs) := by
  induction xs with
  | nil =>
      exact steady_ret none
  | cons x xs ih =>
      refine (h x).bind fun r => ?_
      cases r with
      | none =>
          exact ih
      | some a =>
          exact steady_ret _

theorem steady_insertStep (d : StepDict) : Steady (insertStep task d) := by
  refine steady_call fun r hr => ?_
  obtain rfl : r = .ok () := hr
  exact steady_ret ()

theorem steady_milestone (task : TeamTask) (kind message : String) : Steady (milestone task kind message) :=
  steady_ask _

theorem steady_escalate (task : TeamTask) (step : Option TeamStep) (kind message : String) :
    Steady (escalate task step kind message) :=
  steady_ask _

theorem steady_maybeInsertReview (task : TeamTask) (step : TeamStep) : Steady (maybeInsertReview task step) := by
  unfold maybeInsertReview
  split
  · exact steady_ret _
  split
  · exact steady_ret _
  refine (steady_ask _).bind fun staff => ?_
  split
  · exact (steady_milestone ..).bind fun _ => steady_ret _
  · exact (steady_insertStep _).bind fun _ => steady_ret _

theorem steady_actOnVerdict (task : TeamTask) (content step : TeamStep) (verdict : Option Artifact) :
    Steady (actOnVerdict task content step verdict) := by
  cases verdict with
  | none =>
      simp only [actOnVerdict]
      split
      · exact (steady_insertStep _).bind fun _ => steady_ret _
      · exact steady_ret _
  | some verdict =>
      simp only [actOnVerdict]
      split
      · exact steady_ret _
      split
      · exact (steady_ask _).bind fun _ => (steady_escalate ..).bind fun _ => steady_ret _
      split
      · exact steady_ret _
      · exact (steady_insertStep _).bind fun _ => steady_ret _

theorem steady_maybeHandleReviewDone (task : TeamTask) (step : TeamStep) : Steady (maybeHandleReviewDone task step) := by
  unfold maybeHandleReviewDone
  split
  · split
    · exact steady_ret _
    · exact (steady_ask _).bind fun verdict => steady_actOnVerdict ..
  · exact steady_ret _

theorem steady_maybeInsertReviewAfterRework (task : TeamTask) (step : TeamStep) :
    Steady (maybeInsertReviewAfterRework task step) := by
  unfold maybeInsertReviewAfterRework
  split
  · split
    · exact steady_ret _
    · simp only
      split
      · exact steady_ret _
      refine (steady_ask _).bind fun staff => ?_
      split
      · exact (steady_milestone ..).bind fun _ => steady_ret _
      · exact (steady_insertStep _).bind fun _ => steady_ret _
  · exact steady_ret _

theorem steady_reviewRule (task : TeamTask) (step : TeamStep) : Steady (reviewRule task step) := by
  unfold reviewRule
  split
  · exact steady_ret _
  refine (steady_maybeInsertReview task step).bind fun inserted => ?_
  split
  · exact steady_ret _
  refine (steady_maybeHandleReviewDone task step).bind fun handled => ?_
  split
  · exact (steady_ask _).bind fun _ => steady_ret _
  refine (steady_maybeInsertReviewAfterRework task step).bind fun inserted => ?_
  split <;> exact steady_ret _

theorem steady_reserveAndSpawn (task : TeamTask) (step : TeamStep) : Steady (reserveAndSpawn task step) := by
  unfold reserveAndSpawn
  refine ((steady_ask _).bind fun _ => steady_ret _).bind fun rosterOk => ?_
  split
  · refine steady_call fun r hr => ?_
    obtain ⟨a, rfl⟩ := hr
    exact (steady_ask _).bind fun _ => (steady_ask _).bind fun _ => (steady_ask _).bind fun _ => steady_ret _
  · exact (steady_ask _).bind fun _ => (steady_escalate ..).bind fun _ => steady_ret _

theorem steady_pollRunningStep (task : TeamTask) (step : TeamStep) : Steady (pollRunningStep task step) := by
  have hdead : Steady (pidDead step) := by
    unfold pidDead
    split
    · exact steady_ret _
    · exact (steady_ask _).bind fun _ => steady_ret _
  have hkill : Steady (killStep step) := by
    unfold killStep
    split
    · exact steady_ask _
    · exact steady_ret _
  unfold pollRunningStep
  refine hdead.bind fun dead => (steady_ask _).bind fun now => (steady_ask _).bind fun leaseExpired => ?_
  split
  · unfold retryOrFail
    refine (steady_ask _).bind fun retries => ?_
    split
    · exact (steady_ask _).bind fun _ => (steady_ask _).bind fun _ => (steady_escalate ..).bind fun _ => steady_ret _
    · exact (steady_ask _).bind fun _ => steady_reserveAndSpawn task step
  split
  · exact hkill.bind fun _ => (steady_ask _).bind fun _ => (steady_ask _).bind fun _ =>
      (steady_escalate ..).bind fun _ => steady_ret _
  · exact steady_ret _

theorem steady_pollAwaitingApprovalStep (task : TeamTask) (step : TeamStep) (approvalId : ℕ) :
    Steady (pollAwaitingApprovalStep task step approvalId) := by
  unfold pollAwaitingApprovalStep
  refine (steady_ask _).bind fun decision => ?_
  split
  · exact steady_reserveAndSpawn task step
  · exact (steady_ask _).bind fun _ => (steady_escalate ..).bind fun _ => steady_ret _
  · exact steady_ret _

theorem steady_pollSteps (task : TeamTask) : Steady (pollSteps task) := by
  unfold pollSteps
  refine (Steady.firstSome (fun step => (steady_pollRunningStep task step).bind fun _ => steady_ret _) _).bind fun polled => ?_
  split
  · exact steady_ret _
  refine Steady.firstSome (fun step => ?_) _
  split
  · split
    · exact steady_ret _
    · exact (steady_pollAwaitingApprovalStep ..).bind fun _ => steady_ret _
  · exact steady_ret _

theorem steady_dispatchLoop (task : TeamTask) (capUsd estimate : ℚ) (slots : ℕ) (ready : List TeamStep)
    (spawned : List TickResult) : Steady (dispatchLoop task capUsd estimate slots ready spawned) := by
  induction ready generalizing spawned with
  | nil =>
      exact steady_ret _
  | cons step ready ih =>
      unfold dispatchLoop
      split
      · exact steady_ret _
      refine ((steady_ask _).bind fun _ => steady_ret _).bind fun headroom => ?_
      split
      · exact steady_ret _
      · exact (steady_reserveAndSpawn task step).bind fun result => ih _

theorem steady_aggregateAndDeliver (cfg : OfficeConfig) (task : TeamTask) : Steady (aggregateAndDeliver cfg task) := by
  have hparts : ∀ steps, Steady (aggregateParts task steps) := by
    intro steps
    induction steps with
    | nil =>
        exact steady_ret _
    | cons step steps ih =>
        exact (steady_ask _).bind fun _ => ih.bind fun _ => steady_ret _
  have haggregate : Steady (aggregate cfg task) := by
    unfold aggregate
    refine (hparts _).bind fun parts => ?_
    simp only
    split
    · refine (steady_ask _).bind fun result => ?_
      split <;> exact steady_ret _
    · exact steady_ret _
  unfold aggregateAndDeliver
  refine haggregate.bind fun summary => ?_
  have hrecord : Steady (recordAggregateCost task summary.2) := by
    unfold recordAggregateCost
    split
    · exact steady_ret _
    · exact steady_ask _
  exact hrecord.bind fun _ => (steady_milestone ..).bind fun _ => (steady_ask _).bind fun _ => steady_ret _

theorem steady_finish (cfg : OfficeConfig) (task : TeamTask) : Steady (finish cfg task) := by
  unfold finish
  split
  · exact steady_aggregateAndDeliver cfg task
  have hdead : Steady (deadEndResult task) := by
    unfold deadEndResult
    split
    · exact steady_ret _
    · exact (steady_ask _).bind fun _ => (steady_escalate ..).bind fun _ => steady_ret _
  exact hdead.bind fun _ => steady_ret _

theorem steady_dispatchOrFinish (cfg : OfficeConfig) (task : TeamTask) : Steady (dispatchOrFinish cfg task) := by
  unfold dispatchOrFinish
  split
  · exact steady_finish cfg task
  have hdispatch : ∀ ready, Steady (dispatchReadySteps cfg task ready) := by
    intro ready
    unfold dispatchReadySteps
    simp only
    split
    · exact steady_ret _
    · exact steady_dispatchLoop ..
  refine (hdispatch _).bind fun spawned => ?_
  split
  · exact steady_finish cfg task
  · exact steady_ret _

theorem steady_actOnTask (cfg : OfficeConfig) (task : TeamTask) : Steady (actOnTask cfg task) := by
  unfold actOnTask
  split
  · refine (steady_ask _).bind fun spent => ?_
    split
    · have hwarn : Steady (maybeWarnCostCap cfg task spent) := by
        unfold maybeWarnCostCap
        split
        · exact steady_milestone ..
        · exact steady_ret _
      refine hwarn.bind fun _ => ?_
      unfold actWithinCap
      refine (Steady.firstSome (steady_reviewRule task) _).bind fun reviewed => ?_
      split
      · exact steady_ret _
      refine (steady_pollSteps task).bind fun polled => ?_
      split
      · exact steady_ret _
      · exact steady_dispatchOrFinish cfg task
    · exact (steady_ask _).bind fun _ => (steady_escalate ..).bind fun _ => steady_ret _
  · exact (steady_ask _).bind fun _ => (steady_escalate ..).bind fun _ => steady_ret _

/-- A tick raises on no answers but refusals. -/
theorem steady_tickerProg (cfg : OfficeConfig) : Steady (tickerProg cfg) := by
  have hone : Steady (runOneTick cfg) := by
    unfold runOneTick
    refine (steady_ask _).bind fun openTasks => ?_
    exact (Steady.firstSome (fun task => (steady_actOnTask cfg task).bind fun _ => steady_ret _) _).bind
      fun _ => steady_ret _
  exact (hone.bind fun _ => (steady_ask _).bind fun _ => steady_ret _).bind fun _ => steady_ret _

end Steady

end ProjectManager
