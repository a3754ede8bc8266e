import Mathlib.Algebra.Order.Ring.Rat
import ProjectManager.Actions.Contract
import ProjectManager.Lib.SlidingWindow

/-!
# The rate limit of a gateway

What a gateway object has admitted, over a whole run of calls on any gateways.  The queue of a gateway serves the
checks of the run (`serves_of_chronicle`), so while its clock does not go back no minute has more than ten admitted
calls, and a call is refused only when ten were admitted in the minute before it (`rate_limited`).
-/

namespace ProjectManager

open Process SlidingWindow

/-- The rate-limit checks of a gateway object in a run: the reading of the clock and the answer. -/
def rateChecks (gateway : ℕ) (events : List GateEvent) : List (ℚ × Bool) :=
  events.filterMap fun ev =>
    match ev.entry with
    | ⟨.checkRateLimit n, admitted⟩ => if n = gateway then some (ev.world.monotonic, admitted) else none
    | _ => none

/-- Runs begin with any contents of the stores, no call, and nothing in the queue of the gateway. -/
def freshGateway (gateway : ℕ) (pool : GatePool) : Prop :=
  gateIdle pool ∧ pool.world.recentCalls gateway = []

section RateLimit

variable {py : Python} {comes : GateRequest → Prop} {allows : GatePool → GateRequest → GateCall → Prop}
  {events : List GateEvent} {pool : GatePool} {gateway : ℕ}

theorem rateChecks_append (ev : GateEvent) :
    rateChecks gateway (events ++ [ev]) = rateChecks gateway events ++ rateChecks gateway [ev] :=
  List.filterMap_append

/-- Only the gateway's own checks change its queue, and each serves it. -/
theorem serves_handle {w : GateWorld} {p : GateRequest} {log : GateLog} (e : GateCall)
    (h : Serves rateLimitWindow rateLimitMax (rateChecks gateway events) (w.recentCalls gateway)) :
    Serves rateLimitWindow rateLimitMax (rateChecks gateway (events ++ [⟨w, p, log, e, (e.handle py w).1⟩]))
      ((e.handle py w).2.recentCalls gateway) := by
  rw [rateChecks_append]
  cases e with
  | checkRateLimit n =>
      by_cases hn : n = gateway
      · subst hn
        by_cases hroom : (prune rateLimitWindow w.monotonic (w.recentCalls n)).length < rateLimitMax
        · have hpass := h.pass hroom
          unfold prune at hroom hpass
          simpa [rateChecks, GateCall.handle, hroom] using hpass
        · have hrefuse := h.refuse hroom
          unfold prune at hroom hrefuse
          simpa [rateChecks, GateCall.handle, hroom] using hrefuse
      · have hother : gateway ≠ n := fun h => hn h.symm
        simpa [rateChecks, GateCall.handle, hn, hother] using h
  | claim key =>
      simp only [GateCall.handle]
      split <;> simpa [rateChecks] using h
  | enqueue action reason rationale =>
      simp only [GateCall.handle]
      split <;> simpa [rateChecks] using h
  | _ =>
      simpa [rateChecks, GateCall.handle, GateWorld.updateApprovals] using h

/-- In every run the queue of the gateway serves its checks. -/
theorem serves_of_chronicle (h : (gateRuns py comes allows).Chronicle (freshGateway gateway) events pool) :
    Serves rateLimitWindow rateLimitMax (rateChecks gateway events) (pool.world.recentCalls gateway) := by
  induction h with
  | init h =>
      rw [h.2]
      exact .nil
  | run _ _ ih =>
      exact serves_handle _ ih
  | start _ _ ih =>
      exact ih
  | leave _ ih =>
      exact ih
  | ext _ hext ih =>
      obtain ⟨monotonic, localDate, files, handler, rfl⟩ := hext
      exact ih

/-- While the clock of a gateway does not go back, every stretch of 60 s has at most 10 admitted calls, and a call is
refused only when 10 were admitted in the 60 s that end with it. -/
theorem rate_limited {py : Python} {comes : GateRequest → Prop} {allows : GatePool → GateRequest → GateCall → Prop}
    {events : List GateEvent} {pool : GatePool} {gateway : ℕ}
    (h : (gateRuns py comes allows).Chronicle (freshGateway gateway) events pool)
    (hclock : Forward (rateChecks gateway events)) :
    (∀ t, countIn (accepted (rateChecks gateway events)) t (t + 60) ≤ 10) ∧
      ∀ past now later, rateChecks gateway events = past ++ (now, false) :: later →
        countIn (accepted past) (now - 60) now = 10 := by
  have hserves := serves_of_chronicle h
  exact ⟨fun t => hserves.bounded hclock t, fun past now later hsplit => hserves.refused hclock hsplit⟩

end RateLimit

/-! ### A burst of messages -/

/-- Eleven messages at one moment, each with a hint of its own. -/
def burstMoves : List GateMove :=
  (List.range 11).flatMap fun i =>
    [.come (.execute sampleGateway (.dict [("type", .str "telegram_send"), ("chat_id", .str "42"), ("text", .str "hi"),
      ("dedup_hint", .str ("d" ++ toString i))]) true "reply"), .call i 20]

/-- The run of the eleven messages. -/
def burstRun : List GateEvent × GatePool :=
  gateSchedule samplePython (fun _ => True) (fun _ _ _ => True) (fun _ _ _ => true) sampleGateWorld burstMoves

/-- Ten of the messages are admitted, and the eleventh is refused. -/
theorem rate_limited_burst : rateChecks 0 burstRun.1 = List.replicate 10 (0, true) ++ [(0, false)] ∧
    countIn (accepted (rateChecks 0 burstRun.1)) 0 (0 + 60) ≤ 10 ∧
    countIn (accepted (List.replicate 10 ((0 : ℚ), true))) (0 - 60) 0 = 10 := by
  have hrun : (gateRuns samplePython (fun _ => True) fun _ _ _ => True).Chronicle (freshGateway 0) burstRun.1
      burstRun.2 := chronicle_gateSchedule_from ⟨rfl, rfl⟩ (fun _ _ _ _ => trivial) fun _ _ => trivial
  have hchecks : rateChecks 0 burstRun.1 = List.replicate 10 (0, true) ++ [(0, false)] := by
    decide +kernel
  have hclock : Forward (rateChecks 0 burstRun.1) := by
    rw [hchecks]
    unfold Forward
    decide +kernel
  obtain ⟨hbounded, hrefused⟩ := rate_limited hrun hclock
  exact ⟨hchecks, hbounded 0, hrefused _ 0 [] hchecks⟩

end ProjectManager
