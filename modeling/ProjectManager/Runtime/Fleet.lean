import Mathlib.Algebra.Order.Ring.Int
import ProjectManager.Runtime.PseudoKinds

/-!
# Bad agents

What a tick of the service does when the profile of an agent cannot be loaded.  Both loops over the registry raise
what loading raises.  `bad_agents_harmless` says for which registries and services a tick goes as if the bad agents
were not in the registry: when it does not come to load one.
-/

namespace ProjectManager

section Fleet

/-- An enabled agent whose profile cannot be loaded. -/
def FleetView.bad (view : FleetView) (entry : RegistryEntry) : Bool :=
  match view.profile entry with
  | .ok _ => false
  | .error _ => true

/-- The registry without its bad agents. -/
def FleetView.good (view : FleetView) : FleetView where
  registry :=
    { entries := view.registry.entries.filter fun e => !view.bad e
      nodup := view.registry.nodup.sublist (List.filter_sublist.map _) }
  loadProfile := view.loadProfile
  facts := view.facts

/-- The agents of a list that are evaluated, with their effective schedules. -/
def FleetView.active (view : FleetView) (entries : List RegistryEntry) : List (String × Schedule × List String) :=
  entries.filterMap fun e =>
    match view.profile e with
    | .ok (some loaded) => some (e.id, effectiveSchedule view.facts loaded)
    | _ => none

variable {T : Type} [LinearOrder T] (c : Croniter T) (cap : ℕ) (executable : String)
  (supervise : List String → WorkerEnd) (view : FleetView) (now : T) (service : Service T)

/-- How many reports of an agent are due. -/
def dueCount (m : LastFire T) (agent : String × Schedule × List String) : ℕ :=
  (dueReports c agent.2.1 agent.2.2 now fun kind =>
    seedKinds m agent.1 agent.2.1.kinds now (agent.1, kind)).length

/-- The agents before the first bad one use up the cap. -/
def CapUsedBefore (m : LastFire T) (entries : List RegistryEntry) (spawned : ℕ) : Prop :=
  view.active (entries.takeWhile fun e => !view.bad e) ≠ [] ∧
    cap ≤ spawned + ((view.active (entries.takeWhile fun e => !view.bad e)).map (dueCount c now m)).sum

/-- The tick returns, and goes as if the bad agents were not in the registry. -/
def BadHarmless : Prop :=
  (runTick c cap executable supervise view now service).raised = none ∧
    runTick c cap executable supervise view now service = runTick c cap executable supervise view.good now service

variable {c cap executable supervise view now service} {entries : List RegistryEntry}

/-! ### Seeding -/

omit [LinearOrder T] in
theorem seedLoop_raised {m : LastFire T} :
    (seedLoop view now entries m).2 = none ↔ ∀ e ∈ entries, view.bad e = false := by
  induction entries generalizing m with
  | nil =>
      simp [seedLoop]
  | cons e rest ih =>
      unfold seedLoop
      rw [List.forall_mem_cons, FleetView.bad]
      rcases view.profile e with exc | _ | loaded
      · simp
      · simpa using ih
      · simpa using ih

/-- Without bad agents, dropping them changes nothing. -/
theorem FleetView.good_of_none (h : ∀ e ∈ view.registry.entries, view.bad e = false) : view.good = view := by
  have hentries : view.registry.entries.filter (fun e => !view.bad e) = view.registry.entries :=
    List.filter_eq_self.2 fun e he => by simp [h e he]
  obtain ⟨⟨entries, hnodup⟩, load, facts⟩ := view
  unfold FleetView.good
  congr 1
  congr 1

/-! ### The loop -/

variable {acc : LastFire T × List TickOutcome}

theorem FleetView.good_admit (e : RegistryEntry) : view.good.profile e = view.profile e :=
  rfl

/-- A loop that does not come to a bad agent goes as if there were none. -/
theorem tickLoop_good (h : (tickLoop c cap executable supervise view now entries acc).2 = none) :
    tickLoop c cap executable supervise view.good now (entries.filter fun e => !view.bad e) acc =
      tickLoop c cap executable supervise view now entries acc := by
  induction entries generalizing acc with
  | nil =>
      rfl
  | cons e rest ih =>
      rw [List.filter_cons]
      unfold tickLoop at h ⊢
      cases hprofile : view.profile e with
      | error exc =>
          rw [hprofile] at h
          cases h
      | ok admitted =>
          have hgood : (!view.bad e) = true := by simp [FleetView.bad, hprofile]
          rw [if_pos hgood]
          rw [hprofile] at h
          simp only [FleetView.good_admit, hprofile]
          cases admitted with
          | none =>
              exact ih h
          | some loaded =>
              dsimp only at h ⊢
              split at h
              case isTrue hfull =>
                exact (if_pos hfull).trans (if_pos hfull).symm
              case isFalse hfree =>
                exact (if_neg hfree).trans ((ih h).trans (if_neg hfree).symm)

/-- A loop over good agents does not raise. -/
theorem tickLoop_returns (h : ∀ e ∈ entries, view.bad e = false) :
    (tickLoop c cap executable supervise view now entries acc).2 = none := by
  induction entries generalizing acc with
  | nil =>
      rfl
  | cons e rest ih =>
      rw [List.forall_mem_cons, FleetView.bad] at h
      unfold tickLoop
      rcases hprofile : view.profile e with exc | _ | loaded
      · rw [hprofile] at h
        cases h.1
      · exact ih h.2
      · dsimp only
        split
        · rfl
        · exact ih h.2

/-- The agents that fire have the last fires from before the loop. -/
def SameFires (m : LastFire T) (acc : LastFire T × List TickOutcome) (entries : List RegistryEntry) : Prop :=
  ∀ e ∈ entries, ∀ kind, acc.1 (e.id, kind) = m (e.id, kind)

/-- An agent fires what is due, up to the cap, and nothing else changes. -/
theorem fireAgent_length {m : LastFire T} {loaded : LoadedProfile} {agentId : String} (hlength : acc.2.length ≤ cap)
    (hsame : ∀ kind, acc.1 (agentId, kind) = m (agentId, kind)) :
    (fireAgent c cap executable supervise view.facts loaded agentId now acc).2.length =
      min cap (acc.2.length + dueCount c now m (agentId, effectiveSchedule view.facts loaded)) := by
  unfold fireAgent dueCount
  dsimp only
  rw [fireLoop_length hlength]
  have hseed : ∀ kind, seedKinds acc.1 agentId (effectiveSchedule view.facts loaded).1.kinds now (agentId, kind) =
      seedKinds m agentId (effectiveSchedule view.facts loaded).1.kinds now (agentId, kind) := by
    intro kind
    rw [seedKinds_apply, seedKinds_apply, hsame]
  simp only [hseed]

theorem fireAgent_other {loaded : LoadedProfile} {agentId : String} {key : String × String} (h : key.1 ≠ agentId) :
    (fireAgent c cap executable supervise view.facts loaded agentId now acc).1 key = acc.1 key := by
  unfold fireAgent
  dsimp only
  rw [fireLoop_other h, seedKinds_other h]

/-- The loop does not raise when no agent is bad, or those before the first bad one use up the cap. -/
theorem tickLoop_raised {m : LastFire T} (hnodup : (entries.map fun e => e.id).Nodup) (hsame : SameFires m acc entries)
    (hlength : acc.2.length ≤ cap) : (tickLoop c cap executable supervise view now entries acc).2 = none ↔
      (∀ e ∈ entries, view.bad e = false) ∨ CapUsedBefore c cap view now m entries acc.2.length := by
  induction entries generalizing acc with
  | nil =>
      simp [tickLoop]
  | cons e rest ih =>
      rw [List.map_cons, List.nodup_cons] at hnodup
      have hrest : SameFires m acc rest := fun e' he' => hsame e' (List.mem_cons_of_mem _ he')
      unfold tickLoop CapUsedBefore
      rw [List.forall_mem_cons, List.takeWhile_cons]
      rcases hprofile : view.profile e with exc | _ | loaded
      · simp [FleetView.bad, hprofile, FleetView.active]
      · have hgood : view.bad e = false := by simp [FleetView.bad, hprofile]
        have hactive : view.active (e :: rest.takeWhile fun e => !view.bad e) =
            view.active (rest.takeWhile fun e => !view.bad e) := by
          simp [FleetView.active, hprofile]
        simp only [hgood, Bool.not_false, if_true, hactive, true_and]
        exact ih hnodup.2 hrest hlength
      · have hgood : view.bad e = false := by simp [FleetView.bad, hprofile]
        have hactive : view.active (e :: rest.takeWhile fun e => !view.bad e) =
            (e.id, effectiveSchedule view.facts loaded) :: view.active (rest.takeWhile fun e => !view.bad e) := by
          simp [FleetView.active, hprofile]
        simp only [hgood, Bool.not_false, if_true, hactive, true_and, List.map_cons, List.sum_cons]
        have hcount : (fireAgent c cap executable supervise view.facts loaded e.id now acc).2.length =
            min cap (acc.2.length + dueCount c now m (e.id, effectiveSchedule view.facts loaded)) :=
          fireAgent_length hlength (hsame e (by simp))
        by_cases hfull : cap ≤ (fireAgent c cap executable supervise view.facts loaded e.id now acc).2.length
        · simp only [if_pos hfull, true_iff]
          refine .inr ⟨by simp, ?_⟩
          omega
        · simp only [if_neg hfull]
          have hsamefires : SameFires m (fireAgent c cap executable supervise view.facts loaded e.id now acc) rest := by
            intro e' he' kind
            have hne : e'.id ≠ e.id := fun heq => hnodup.1 (heq ▸ List.mem_map_of_mem he')
            exact (fireAgent_other hne).trans (hrest e' he' kind)
          rw [ih hnodup.2 hsamefires (by omega), CapUsedBefore]
          refine or_congr Iff.rfl ⟨fun h => ⟨by simp, by omega⟩, fun h => ⟨fun hnil => ?_, by omega⟩⟩
          -- without further agents the cap is not used up
          rw [hnil] at h
          simp only [List.map_nil, List.sum_nil] at h
          omega

/-- A tick of a service that is seeded. -/
theorem runTick_seeded (h : service.seeded = true) : runTick c cap executable supervise view now service =
    ⟨⟨(tickLoop c cap executable supervise view now view.registry.entries (service.lastFire, [])).1.1, true⟩,
      (tickLoop c cap executable supervise view now view.registry.entries (service.lastFire, [])).1.2,
      (tickLoop c cap executable supervise view now view.registry.entries (service.lastFire, [])).2⟩ := by
  simp only [runTick, h, if_true]

/-- A service that is not seeded seeds first, which raises for a bad agent. -/
theorem runTick_raised_of_unseeded (h : service.seeded = false) :
    (runTick c cap executable supervise view now service).raised = none ↔
      ∀ e ∈ view.registry.entries, view.bad e = false := by
  simp only [runTick, h, Bool.false_eq_true, if_false]
  rw [← @seedLoop_raised T view now view.registry.entries service.lastFire]
  cases hseed : (seedLoop view now view.registry.entries service.lastFire).2 with
  | some exc =>
      simp
  | none =>
      simp only [iff_true]
      exact tickLoop_returns (seedLoop_raised.1 hseed)

end Fleet

/-- A tick returns and goes as if the bad agents were not in the registry, exactly when there is none, or the service
is seeded and the agents before the first bad one use up the cap. -/
theorem bad_agents_harmless {T : Type} [LinearOrder T] (c : Croniter T) (cap : ℕ) (executable : String)
    (supervise : List String → WorkerEnd) (view : FleetView) (now : T) (service : Service T) :
    BadHarmless c cap executable supervise view now service ↔ (∀ e ∈ view.registry.entries, view.bad e = false) ∨
      service.seeded = true ∧ CapUsedBefore c cap view now service.lastFire view.registry.entries 0 := by
  have hloop : (tickLoop c cap executable supervise view now view.registry.entries (service.lastFire, [])).2 = none ↔
      (∀ e ∈ view.registry.entries, view.bad e = false) ∨
        CapUsedBefore c cap view now service.lastFire view.registry.entries 0 :=
    tickLoop_raised view.registry.nodup (fun _ _ _ => rfl) (Nat.zero_le _)
  constructor
  · rintro ⟨hreturns, -⟩
    cases hseeded : service.seeded with
    | false =>
        exact .inl ((runTick_raised_of_unseeded hseeded).1 hreturns)
    | true =>
        rw [runTick_seeded hseeded] at hreturns
        exact (hloop.1 hreturns).imp_right fun hcap => ⟨rfl, hcap⟩
  · rintro (hnone | ⟨hseeded, hcap⟩)
    · rw [BadHarmless, FleetView.good_of_none hnone]
      refine ⟨?_, rfl⟩
      cases hseeded : service.seeded with
      | false =>
          exact (runTick_raised_of_unseeded hseeded).2 hnone
      | true =>
          rw [runTick_seeded hseeded]
          exact tickLoop_returns hnone
    · have hreturns := hloop.2 (.inr hcap)
      have hgood : tickLoop c cap executable supervise view.good now view.good.registry.entries (service.lastFire, []) =
          tickLoop c cap executable supervise view now view.registry.entries (service.lastFire, []) :=
        tickLoop_good hreturns
      rw [BadHarmless, runTick_seeded hseeded, runTick_seeded hseeded, hgood]
      exact ⟨hreturns, rfl⟩

/-- A fleet of two agents, the profile of the first of which cannot be loaded. -/
def sampleFleet : FleetView where
  registry := ⟨[⟨"broken", true⟩, ⟨"dev", true⟩], by decide⟩
  loadProfile := fun id => if id = "dev" then .ok sampleInboxProfile else .error "FileNotFoundError"
  facts := ⟨none, fun _ => false⟩

/-- The tick of the fleet raises, seeded or not. -/
theorem bad_agent_stops_fleet : ¬ ∀ (view : FleetView) (service : Service ℤ),
    BadHarmless dailyCroniter 4 "python" (fun _ => .ran 0) view 500 service := by
  intro hharmless
  obtain ⟨hreturns, -⟩ := hharmless sampleFleet ⟨fun _ => some 400, true⟩
  revert hreturns
  decide +kernel

end ProjectManager
