import Mathlib.Algebra.Order.Field.Rat
import Mathlib.Tactic.Linarith
import Mathlib.Tactic.Ring
import ProjectManager.Lib.Execution
import ProjectManager.Office.Schedule

/-!
# Slots and headroom

`dispatch_ready_steps` takes the candidates in their order, reads the recorded spend anew for each, and holds it
against the estimates of what runs by then: the running steps of its snapshot and those that it has started itself.
-/

namespace ProjectManager

open Process OfficeProg

/-- A candidate that the dispatch has acted on: the spend that was read for it, and what `reserve_and_spawn` did. -/
structure DispatchRound where
  step : TeamStep
  spent : ℚ
  acted : OfficeLog
  out : Except String TickResult

/-- The calls of a round. -/
def DispatchRound.log (task : TeamTask) (r : DispatchRound) : OfficeLog :=
  ⟨.store (.sumCost task.id), r.spent⟩ :: r.acted

/-- The rounds of a dispatch that began with `before` steps started already. -/
structure DispatchRounds (task : TeamTask) (capUsd estimate : ℚ) (slots before : ℕ) (ready : List TeamStep)
    (rounds : List DispatchRound) (log : OfficeLog) : Prop where
  inOrder : rounds.map DispatchRound.step <+: ready
  withinSlots : rounds.length ≤ slots - before
  calls : ∃ tail, log = rounds.flatMap (DispatchRound.log task) ++ tail ∧
    (tail = [] ∨ ∃ spent : ℚ, tail = [⟨.store (.sumCost task.id), spent⟩])
  acts : ∀ r ∈ rounds, (reserveAndSpawn task r.step).Ends r.acted r.out
  headroom : ∀ k, ∀ r ∈ rounds[k]?, r.spent + (runningCount task + (before + k) + 1 : ℕ) * estimate ≤ capUsd

namespace DispatchRounds

variable {task : TeamTask} {capUsd estimate spent : ℚ} {slots before : ℕ} {ready : List TeamStep}
  {rounds : List DispatchRound} {log : OfficeLog}

/-- Nothing is done. -/
theorem stop (h : log = [] ∨ ∃ spent : ℚ, log = [⟨.store (.sumCost task.id), spent⟩]) :
    DispatchRounds task capUsd estimate slots before ready [] log where
  inOrder := List.nil_prefix
  withinSlots := Nat.zero_le _
  calls := ⟨log, rfl, h⟩
  acts := fun _ hr => absurd hr List.not_mem_nil
  headroom := fun _ _ hr => by simp at hr

/-- One more round before the others. -/
theorem cons {r : DispatchRound} (hslots : before < slots)
    (hroom : r.spent + (runningCount task + before + 1 : ℕ) * estimate ≤ capUsd)
    (hact : (reserveAndSpawn task r.step).Ends r.acted r.out)
    (h : DispatchRounds task capUsd estimate slots (before + 1) ready rounds log) :
    DispatchRounds task capUsd estimate slots before (r.step :: ready) (r :: rounds) (r.log task ++ log) := by
  obtain ⟨tail, hlog, htail⟩ := h.calls
  have hwithin := h.withinSlots
  refine ⟨?_, ?_, ⟨tail, ?_, htail⟩, ?_, ?_⟩
  · rw [List.map_cons]
    exact List.cons_prefix_cons.2 ⟨rfl, h.inOrder⟩
  · rw [List.length_cons]
    omega
  · rw [hlog, List.flatMap_cons, List.append_assoc]
  · exact List.forall_mem_cons.2 ⟨hact, h.acts⟩
  · intro k r' hr'
    cases k with
    | zero =>
        obtain rfl : r = r' := by simpa using hr'
        exact hroom
    | succ k =>
        have hlater := h.headroom k r' (by simpa using hr')
        rwa [Nat.add_right_comm before 1 k, Nat.add_assoc before k 1] at hlater

end DispatchRounds

/-- The room that the dispatch finds for one more step. -/
theorem headroom_of_not_lt {capUsd spent estimate : ℚ} {running before : ℕ}
    (h : ¬ capUsd - spent - running * estimate - before * estimate < estimate) :
    spent + (running + before + 1 : ℕ) * estimate ≤ capUsd := by
  push_cast
  linarith

/-- The loop, from what it has started so far. -/
theorem dispatchLoop_rounds {task : TeamTask} {capUsd estimate : ℚ} {slots : ℕ} {ready : List TeamStep}
    {spawned : List TickResult} {log : OfficeLog} {out : Except String (List TickResult)}
    (h : (dispatchLoop task capUsd estimate slots ready spawned).Ends log out) :
    ∃ rounds, DispatchRounds task capUsd estimate slots spawned.length ready rounds log := by
  induction ready generalizing spawned log with
  | nil =>
      cases h with
      | ret =>
          exact ⟨[], .stop (.inl rfl)⟩
  | cons step ready ih =>
      unfold dispatchLoop at h
      split at h
      · cases h with
        | ret =>
            exact ⟨[], .stop (.inl rfl)⟩
      · rename_i hslots
        cases h with
        | @call _ _ spent rest _ hrest =>
            change (if capUsd - spent - runningCount task * estimate - spawned.length * estimate < estimate then
              (Prog.ret spawned : OfficeProg _) else _).Ends rest out at hrest
            split at hrest
            · cases hrest with
              | ret =>
                  exact ⟨[], .stop (.inr ⟨spent, rfl⟩)⟩
            · rename_i hroom
              have hroom := headroom_of_not_lt hroom
              have hfree : spawned.length < slots := by omega
              obtain ⟨msg, hact, rfl⟩ | ⟨acted, result, later, rfl, hact, hlater⟩ := hrest.of_bind
              · -- the round that raises is the last one
                have hnone : DispatchRounds task capUsd estimate slots (spawned.length + 1) ready [] [] := .stop (.inl rfl)
                have hround := DispatchRounds.cons (r := ⟨step, spent, rest, .error msg⟩) hfree hroom hact hnone
                rw [List.append_nil] at hround
                exact ⟨_, hround⟩
              · obtain ⟨rounds, hrounds⟩ := ih hlater
                rw [List.length_append, List.length_singleton] at hrounds
                exact ⟨_, .cons (r := ⟨step, spent, acted, .ok result⟩) hfree hroom hact hrounds⟩

/-- **Dispatch within slots and headroom.**  Whatever spend is recorded in the meantime, a dispatch acts on the first
candidates only, on no more than there are free slots, and each time the spend read at that moment leaves room for the
estimates of all that run then and of the candidate itself, each a seventh of the cap. -/
theorem dispatch_within_headroom (cfg : OfficeConfig) (task : TeamTask) (ready : List TeamStep) {log : OfficeLog}
    {out : Except String (List TickResult)} (h : (dispatchReadySteps cfg task ready).Ends log out) :
    ∃ rounds : List DispatchRound, rounds.map DispatchRound.step <+: ready ∧
      rounds.length ≤ cfg.concurrency - runningCount task ∧
      (∃ tail, log = rounds.flatMap (DispatchRound.log task) ++ tail ∧
        (tail = [] ∨ ∃ spent : ℚ, tail = [⟨.store (.sumCost task.id), spent⟩])) ∧
      (∀ r ∈ rounds, (reserveAndSpawn task r.step).Ends r.acted r.out) ∧
      ∀ k, ∀ r ∈ rounds[k]?, r.spent + (runningCount task + k + 1 : ℕ) * (cfg.costCapUsd / 7) ≤ cfg.costCapUsd := by
  unfold dispatchReadySteps at h
  dsimp only at h
  split at h
  · cases h with
    | ret =>
        exact ⟨[], List.nil_prefix, Nat.zero_le _, ⟨[], rfl, .inl rfl⟩, by simp, by simp⟩
  · obtain ⟨rounds, hrounds⟩ := dispatchLoop_rounds h
    refine ⟨rounds, hrounds.inOrder, hrounds.withinSlots, hrounds.calls, hrounds.acts, fun k r hr => ?_⟩
    have hroom := hrounds.headroom k r hr
    rwa [List.length_nil, Nat.zero_add, show stepCostEstimateUsd cfg.costCapUsd maxSteps = cfg.costCapUsd / 7 from rfl]
      at hroom

/-- The dispatch of the only step of a task, over its store. -/
def soleDispatch : OfficeLog :=
  (dispatchReadySteps sampleConfig Ledger.sampleTask Ledger.sampleTask.steps).trace
    (OfficeCall.handle sampleConfig.rt) oneStepPool.world

/-- The spend is read, and the step is started by five calls. -/
theorem dispatch_within_headroom_sole : soleDispatch.length = 6 ∧
    ∃ rounds : List DispatchRound, rounds.map DispatchRound.step <+: Ledger.sampleTask.steps ∧ rounds.length ≤ 2 ∧
      ∃ tail, soleDispatch = rounds.flatMap (DispatchRound.log Ledger.sampleTask) ++ tail := by
  obtain ⟨rounds, hleads, hslots, ⟨tail, hcalls, -⟩, -⟩ :=
    dispatch_within_headroom sampleConfig Ledger.sampleTask Ledger.sampleTask.steps
      (Prog.ends_trace (OfficeCall.handle sampleConfig.rt) _ oneStepPool.world)
  exact ⟨by decide +kernel, rounds, hleads, hslots, tail, hcalls⟩

end ProjectManager
