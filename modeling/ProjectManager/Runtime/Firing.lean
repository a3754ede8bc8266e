import Mathlib.Algebra.Order.Ring.Int
import Mathlib.Data.Set.Card
import ProjectManager.Runtime.PseudoKinds

/-!
# Spawns and occurrences

Ticks of one service at times that do not go back, with schedules that stay.  A spawn is made for the next occurrence
after the last fire, and the last fire is advanced to the time of the tick, so that no two spawns are made for one
occurrence.  `spawns_accounted` says so for whole runs, and that the cap defers a due report without losing it.
-/

namespace ProjectManager

/-! ### Runs -/

/-- A tick that has run. -/
structure ServiceTick (T : Type) where
  now : T
  before : Service T
  after : Service T
  outcomes : List TickOutcome

/-- The enabled profiles of the registry have the effective schedules of the plan. -/
def FleetView.Follows (view : FleetView) (plan : String → Schedule × List String) : Prop :=
  ∀ e ∈ view.registry.entries, ∀ loaded, view.profile e = .ok (some loaded) →
    effectiveSchedule view.facts loaded = plan e.id

section Runs

variable {T : Type} [LinearOrder T] (c : Croniter T) (plan : String → Schedule × List String) (cap : ℕ)

/-- The ticks of a service so far, and the service after them.  What the fleet is may change, but for the effective
schedules. -/
inductive ServiceRun : List (ServiceTick T) → Service T → Prop where
  | start : ServiceRun [] ⟨fun _ => none, false⟩
  | tick {ticks : List (ServiceTick T)} {service : Service T} (h : ServiceRun ticks service) (executable : String)
      (supervise : List String → WorkerEnd) (view : FleetView) (now : T) (hfollows : view.Follows plan)
      (htimes : ∀ t ∈ ticks, t.now ≤ now) :
      ServiceRun (ticks ++ [⟨now, service, (runTick c cap executable supervise view now service).service,
        (runTick c cap executable supervise view now service).outcomes⟩])
        (runTick c cap executable supervise view now service).service

end Runs

section Accounts

variable {T : Type}

/-- The workers that were spawned for a kind of an agent. -/
def outcomesFor (outcomes : List TickOutcome) (p : String × String) : List TickOutcome :=
  outcomes.filter fun o => decide ((o.agentId, o.kind) = p)

/-- The time of the first tick after which a kind of an agent has a last fire. -/
def seedTime (ticks : List (ServiceTick T)) (p : String × String) : Option T :=
  (ticks.find? fun t => (t.after.lastFire p).isSome).map fun t => t.now

/-- The times of the spawns for a kind of an agent. -/
def spawnTimes (ticks : List (ServiceTick T)) (p : String × String) : List T :=
  ticks.flatMap fun t => (outcomesFor t.outcomes p).map fun _ => t.now

variable [LinearOrder T] (c : Croniter T) (plan : String → Schedule × List String) (cap : ℕ)

/-- A kind of an agent is due at a tick. -/
def DueAt (t : ServiceTick T) (p : String × String) : Prop :=
  (p.2, scheduledAudience) ∈
    dueReports c (plan p.1).1 (plan p.1).2 t.now fun kind => t.before.lastFire (p.1, kind)

/-- No more spawns from the seeding to any time than occurrences. -/
def SpawnsBounded (occurrences : String → Set T) (ticks : List (ServiceTick T)) (p : String × String) : Prop :=
  ∀ s t₁ expr, seedTime ticks p = some s → (p.2, expr) ∈ (plan p.1).1.entries →
    (((spawnTimes ticks p).filter fun t => decide (s < t ∧ t ≤ t₁)).length : ℕ∞) ≤
      {o | o ∈ occurrences expr ∧ s < o ∧ o ≤ t₁}.encard

/-- Every spawn is made for an occurrence after the seeding: the next one after the last fire. -/
def SpawnsAfterSeeding (occurrences : String → Set T) (ticks : List (ServiceTick T)) (p : String × String) : Prop :=
  ∀ t ∈ ticks, outcomesFor t.outcomes p ≠ [] → ∃ s expr base, seedTime ticks p = some s ∧
    (p.2, expr) ∈ (plan p.1).1.entries ∧ t.before.lastFire p = some base ∧ c.getNext expr base ∈ occurrences expr ∧
      s < c.getNext expr base ∧ c.getNext expr base ≤ t.now

/-- What is due at a tick and not spawned is due at every later tick until it is spawned. -/
def DueStays (ticks : List (ServiceTick T)) (p : String × String) : Prop :=
  ∀ front t mid t' back, ticks = front ++ t :: mid ++ t' :: back → DueAt c plan t p → outcomesFor t.outcomes p = [] →
    (∀ m ∈ mid, outcomesFor m.outcomes p = []) → DueAt c plan t' p

/-! ### One tick -/

variable {c plan cap}

/-- What a tick does to a kind of an agent: nothing, or seed it, or spawn a worker for an occurrence that has come. -/
inductive PairStep (c : Croniter T) (plan : String → Schedule × List String) (now : T) (m : LastFire T)
    (acc : LastFire T × List TickOutcome) (p : String × String) : Prop where
  | kept (hfire : acc.1 p = m p) (hnone : outcomesFor acc.2 p = [])
  | seeded (hfresh : m p = none) (hfire : acc.1 p = some now) (hnone : outcomesFor acc.2 p = [])
  | fired {expr : String} {base : T} (hbase : m p = some base) (hentry : (p.2, expr) ∈ (plan p.1).1.entries)
      (hfires : Fires c expr base now) (hfire : acc.1 p = some now) (hone : (outcomesFor acc.2 p).length = 1)

section Step

variable {occurrences : String → Set T} {m : LastFire T} {acc : LastFire T × List TickOutcome} {now : T}
  {executable agentId : String} {supervise : List String → WorkerEnd} {p : String × String} {view : FleetView}

theorem outcomesFor_append (l l' : List TickOutcome) (p : String × String) :
    outcomesFor (l ++ l') p = outcomesFor l p ++ outcomesFor l' p :=
  List.filter_append ..

/-- Seeding does not take back what the tick has done. -/
theorem PairStep.seedKinds {outcomes : List TickOutcome} {kinds : List String} (h : PairStep c plan now m (acc.1, outcomes) p) :
    PairStep c plan now m (ProjectManager.seedKinds acc.1 agentId kinds now, outcomes) p := by
  have hfire := @seedKinds_apply T acc.1 agentId kinds p now
  cases hacc : acc.1 p with
  | none =>
      split at hfire
      · rw [hacc, Option.getD_none] at hfire
        cases h with
        | kept hkept hnone =>
            exact .seeded (hkept.symm.trans hacc) hfire hnone
        | seeded _ hsome _ =>
            cases hacc.symm.trans hsome
        | fired _ _ _ hsome _ =>
            cases hacc.symm.trans hsome
      · cases h with
        | kept hkept hnone =>
            exact .kept (hfire.trans hkept) hnone
        | seeded _ hsome _ =>
            cases hacc.symm.trans hsome
        | fired _ _ _ hsome _ =>
            cases hacc.symm.trans hsome
  | some t =>
      have hsame : ProjectManager.seedKinds acc.1 agentId kinds now p = acc.1 p := by
        rw [hfire, hacc, Option.getD_some, ite_self]
      cases h with
      | kept hkept hnone =>
          exact .kept (hsame.trans hkept) hnone
      | seeded hfresh hsome hnone =>
          exact .seeded hfresh (hsame.trans hsome) hnone
      | fired hbase hentry hfires hsome hone =>
          exact .fired hbase hentry hfires (hsame.trans hsome) hone

/-- The next occurrence after now has not come. -/
theorem Fires.base_ne_now {expr : String} {base : T} (hc : c.NextCorrect occurrences) (h : Fires c expr base now) :
    base ≠ now := by
  rintro rfl
  exact absurd (hc expr base h.valid).1.2 (not_lt.2 h.next)

/-- One spawn. -/
theorem PairStep.fire {fires : LastFire T} {outcomes : List TickOutcome} {kind expr : String} {base : T}
    {worker : WorkerEnd} (hc : c.NextCorrect occurrences) (h : ∀ p, PairStep c plan now m (fires, outcomes) p)
    (hbase : fires (agentId, kind) = some base) (hentry : (kind, expr) ∈ (plan agentId).1.entries)
    (hfires : Fires c expr base now) (p : String × String) :
    PairStep c plan now m
      (Function.update fires (agentId, kind) (some now), outcomes ++ [⟨agentId, kind, worker⟩]) p := by
  by_cases hp : p = (agentId, kind)
  · subst hp
    have hone : (outcomesFor (outcomes ++ [⟨agentId, kind, worker⟩]) (agentId, kind)).length =
        (outcomesFor outcomes (agentId, kind)).length + 1 := by
      simp [outcomesFor]
    cases h (agentId, kind) with
    | kept hkept hnone =>
        refine .fired (hkept.symm.trans hbase) hentry hfires (Function.update_self _ _ _) ?_
        rw [hone, hnone]
        rfl
    | seeded _ hfire _ =>
        exact absurd (Option.some.inj (hbase.symm.trans hfire)) (hfires.base_ne_now hc)
    | fired _ _ _ hfire _ =>
        exact absurd (Option.some.inj (hbase.symm.trans hfire)) (hfires.base_ne_now hc)
  · have hsame : outcomesFor (outcomes ++ [⟨agentId, kind, worker⟩]) p = outcomesFor outcomes p := by
      rw [outcomesFor_append]
      simp [outcomesFor, Ne.symm hp]
    have hfire : Function.update fires (agentId, kind) (some now) p = fires p := Function.update_of_ne hp _ _
    cases h p with
    | kept hkept hnone =>
        exact .kept (hfire.trans hkept) (hsame.trans hnone)
    | seeded hfresh hsome hnone =>
        exact .seeded hfresh (hfire.trans hsome) (hsame.trans hnone)
    | fired hbase hentry hfires hsome hone =>
        exact .fired hbase hentry hfires (hfire.trans hsome) (by rw [hsame]; exact hone)

theorem fireLoop_steps {due : List (String × String)} {fires : LastFire T} {outcomes : List TickOutcome}
    (hc : c.NextCorrect occurrences) (hnodup : (due.map fun e => e.1).Nodup)
    (hdue : ∀ e ∈ due, ∃ expr base, fires (agentId, e.1) = some base ∧ (e.1, expr) ∈ (plan agentId).1.entries ∧
      Fires c expr base now) (h : ∀ p, PairStep c plan now m (fires, outcomes) p) :
    ∀ p, PairStep c plan now m (fireLoop cap executable supervise agentId now due (fires, outcomes)) p := by
  induction due generalizing fires outcomes with
  | nil =>
      exact h
  | cons e rest ih =>
      rw [List.map_cons, List.nodup_cons] at hnodup
      obtain ⟨expr, base, hbase, hentry, hfires⟩ := hdue e (by simp)
      unfold fireLoop
      split
      · exact h
      · refine ih hnodup.2 (fun e' he' => ?_) (PairStep.fire hc h hbase hentry hfires)
        obtain ⟨expr', base', hbase', hentry', hfires'⟩ := hdue e' (List.mem_cons_of_mem _ he')
        have hne : (agentId, e'.1) ≠ (agentId, e.1) := fun heq =>
          hnodup.1 (List.mem_map.2 ⟨e', he', congrArg Prod.snd heq⟩)
        exact ⟨expr', base', (Function.update_of_ne hne _ _).trans hbase', hentry', hfires'⟩

/-- What an agent fires. -/
theorem fireAgent_steps {loaded : LoadedProfile} (hc : c.NextCorrect occurrences)
    (hplan : effectiveSchedule view.facts loaded = plan agentId) (h : ∀ p, PairStep c plan now m acc p) :
    ∀ p, PairStep c plan now m (fireAgent c cap executable supervise view.facts loaded agentId now acc) p := by
  unfold fireAgent
  rw [hplan]
  refine fireLoop_steps hc dueReports_nodup (fun e he => ?_) fun p => (h p).seedKinds
  obtain ⟨-, -, expr, base, hentry, hbase, hfires⟩ := mem_dueReports.1 (show (e.1, e.2) ∈ _ from he)
  exact ⟨expr, base, hbase, hentry, hfires⟩

theorem tickLoop_steps {entries : List RegistryEntry} (hc : c.NextCorrect occurrences)
    (hfollows : ∀ e ∈ entries, ∀ loaded, view.profile e = .ok (some loaded) →
      effectiveSchedule view.facts loaded = plan e.id) (h : ∀ p, PairStep c plan now m acc p) :
    ∀ p, PairStep c plan now m (tickLoop c cap executable supervise view now entries acc).1 p := by
  induction entries generalizing acc with
  | nil =>
      exact h
  | cons e rest ih =>
      rw [List.forall_mem_cons] at hfollows
      unfold tickLoop
      rcases hprofile : view.profile e with exc | _ | loaded
      · exact h
      · exact ih hfollows.2 h
      · dsimp only
        split
        · exact fireAgent_steps hc (hfollows.1 loaded hprofile) h
        · exact ih hfollows.2 (fireAgent_steps hc (hfollows.1 loaded hprofile) h)

omit [LinearOrder T] in
theorem seedKinds_keeps {fires : LastFire T} {kinds : List String} :
    seedKinds fires agentId kinds now p = fires p ∨
      fires p = none ∧ seedKinds fires agentId kinds now p = some now := by
  have hseed := @seedKinds_apply T fires agentId kinds p now
  cases hp : fires p with
  | none =>
      rw [hp, Option.getD_none] at hseed
      split at hseed
      · exact .inr ⟨rfl, hseed⟩
      · exact .inl hseed
  | some t =>
      rw [hp, Option.getD_some, ite_self] at hseed
      exact .inl hseed

omit [LinearOrder T] in
/-- Seeding at the start of the service. -/
theorem seedLoop_keeps {entries : List RegistryEntry} (fires : LastFire T) (p : String × String) :
    (seedLoop view now entries fires).1 p = fires p ∨
      fires p = none ∧ (seedLoop view now entries fires).1 p = some now := by
  induction entries generalizing fires with
  | nil =>
      exact .inl rfl
  | cons e rest ih =>
      unfold seedLoop
      rcases view.profile e with exc | _ | loaded
      · exact .inl rfl
      · exact ih fires
      · dsimp only
        have hkeeps := @seedKinds_keeps T now e.id p fires (effectiveSchedule view.facts loaded).1.kinds
        rcases ih (seedKinds fires e.id (effectiveSchedule view.facts loaded).1.kinds now) with h | ⟨hnone, hnow⟩
        · rw [h]
          exact hkeeps
        · rw [hnone] at hkeeps
          refine .inr ⟨?_, hnow⟩
          rcases hkeeps with hsame | ⟨hfresh, -⟩
          · exact hsame.symm
          · exact hfresh

/-- What a tick does to each kind of each agent. -/
theorem runTick_steps {service : Service T} (hc : c.NextCorrect occurrences) (hfollows : view.Follows plan)
    (p : String × String) : PairStep c plan now service.lastFire
      ((runTick c cap executable supervise view now service).service.lastFire,
        (runTick c cap executable supervise view now service).outcomes) p := by
  have hseed : ∀ p, PairStep c plan now service.lastFire ((seedLoop view now view.registry.entries service.lastFire).1,
      []) p := fun p => by
    rcases @seedLoop_keeps T now view view.registry.entries service.lastFire p with hsame | ⟨hfresh, hnow⟩
    · exact .kept hsame rfl
    · exact .seeded hfresh hnow rfl
  unfold runTick
  cases hseeded : service.seeded with
  | true =>
      have hkept : ∀ p, PairStep c plan now service.lastFire (service.lastFire, []) p := fun p => .kept rfl rfl
      exact tickLoop_steps hc hfollows hkept p
  | false =>
      cases hfailed : (seedLoop view now view.registry.entries service.lastFire).2 with
      | some exc =>
          simp only [Bool.false_eq_true, if_false, hfailed]
          exact hseed p
      | none =>
          simp only [Bool.false_eq_true, if_false, hfailed]
          exact tickLoop_steps hc hfollows hseed p

/-- The cap bounds what a tick spawns. -/
theorem tickLoop_length {entries : List RegistryEntry} (h : acc.2.length ≤ cap) :
    (tickLoop c cap executable supervise view now entries acc).1.2.length ≤ cap := by
  induction entries generalizing acc with
  | nil =>
      exact h
  | cons e rest ih =>
      unfold tickLoop
      rcases view.profile e with exc | _ | loaded
      · exact h
      · exact ih h
      · have hfired : (fireAgent c cap executable supervise view.facts loaded e.id now acc).2.length ≤ cap := by
          unfold fireAgent
          rw [fireLoop_length h]
          exact min_le_left _ _
        dsimp only
        split
        · exact hfired
        · exact ih hfired

theorem runTick_length {service : Service T} :
    (runTick c cap executable supervise view now service).outcomes.length ≤ cap := by
  unfold runTick
  dsimp only
  split
  · exact Nat.zero_le _
  · exact tickLoop_length (Nat.zero_le _)

end Step

/-! ### Seeding, spawns and occurrences -/

section Accounting

variable {occurrences : String → Set T} {ticks : List (ServiceTick T)} {service : Service T} {p : String × String}
  {t : ServiceTick T}

omit [LinearOrder T] in
theorem seedTime_append (ticks : List (ServiceTick T)) (t : ServiceTick T) (p : String × String) :
    seedTime (ticks ++ [t]) p =
      (seedTime ticks p).or (if (t.after.lastFire p).isSome then some t.now else none) := by
  unfold seedTime
  rw [List.find?_append]
  cases ticks.find? fun t => (t.after.lastFire p).isSome with
  | some t' =>
      rfl
  | none =>
      rw [Option.none_or, List.find?_singleton]
      split <;> rfl

omit [LinearOrder T] in
theorem spawnTimes_append (ticks : List (ServiceTick T)) (t : ServiceTick T) (p : String × String) :
    spawnTimes (ticks ++ [t]) p = spawnTimes ticks p ++ (outcomesFor t.outcomes p).map fun _ => t.now := by
  simp [spawnTimes]

/-- A spawn is made for an occurrence after the seeding that has come, and the last fire is not before it. -/
structure MadeFor (c : Croniter T) (plan : String → Schedule × List String) (occurrences : String → Set T)
    (p : String × String) (s lastFire occurrence spawn : T) : Prop where
  occurs : ∀ expr, (p.2, expr) ∈ (plan p.1).1.entries → occurrence ∈ occurrences expr
  seeded : s < occurrence
  come : occurrence ≤ spawn
  recorded : spawn ≤ lastFire

/-- What the last fire of a kind says of the ticks: with none there was no spawn, and with one the spawns were made for
occurrences that increase. -/
inductive Accounted (c : Croniter T) (plan : String → Schedule × List String) (occurrences : String → Set T)
    (ticks : List (ServiceTick T)) (p : String × String) : Option T → Prop where
  | fresh (hseed : seedTime ticks p = none) (hnone : spawnTimes ticks p = []) :
      Accounted c plan occurrences ticks p none
  | since {s lastFire : T} {spawns : List (T × T)} (hseed : seedTime ticks p = some s) (hle : s ≤ lastFire)
      (htick : ∃ t ∈ ticks, t.now = lastFire) (hspawns : spawns.map (fun q => q.2) = spawnTimes ticks p)
      (hmade : ∀ q ∈ spawns, MadeFor c plan occurrences p s lastFire q.1 q.2)
      (hincreasing : spawns.Pairwise fun q q' => q.1 < q'.1) :
      Accounted c plan occurrences ticks p (some lastFire)

/-- One tick. -/
theorem Accounted.tick (hc : c.NextCorrect occurrences)
    (h : Accounted c plan occurrences ticks p (t.before.lastFire p)) (htimes : ∀ t' ∈ ticks, t'.now ≤ t.now)
    (hstep : PairStep c plan t.now t.before.lastFire (t.after.lastFire, t.outcomes) p) :
    Accounted c plan occurrences (ticks ++ [t]) p (t.after.lastFire p) := by
  have hseed := seedTime_append ticks t p
  have hspawn := spawnTimes_append ticks t p
  cases hstep with
  | kept hkept hnone =>
      simp only at hkept hnone
      rw [hnone, List.map_nil, List.append_nil] at hspawn
      rw [hkept] at hseed ⊢
      generalize t.before.lastFire p = fire at h hseed
      cases h with
      | fresh hfresh hempty =>
          rw [hfresh] at hseed
          exact .fresh hseed (hspawn.trans hempty)
      | since hsince hle htick hspawns hmade hincreasing =>
          rw [hsince] at hseed
          obtain ⟨t', ht', hnow⟩ := htick
          exact .since hseed hle ⟨t', List.mem_append_left _ ht', hnow⟩ (hspawns.trans hspawn.symm) hmade hincreasing
  | seeded hfresh hfire hnone =>
      simp only at hfire hnone
      rw [hnone, List.map_nil, List.append_nil] at hspawn
      rw [hfire] at hseed ⊢
      rw [hfresh] at h
      cases h with
      | fresh hnever hempty =>
          rw [hnever] at hseed
          exact @Accounted.since _ _ c plan occurrences _ p t.now t.now [] hseed le_rfl ⟨t, by simp, rfl⟩
            (hspawn.trans hempty).symm (by simp) .nil
  | @fired expr base hbase hentry hfires hfire hone =>
      simp only at hfire hone
      rw [hfire] at hseed ⊢
      rw [hbase] at h
      cases h with
      | @since s _ spawns hsince hle htick hspawns hmade hincreasing =>
          rw [hsince] at hseed
          obtain ⟨t', ht', hnow⟩ := htick
          have hbasele : base ≤ t.now := hnow ▸ htimes t' ht'
          have hnext := (hc expr base hfires.valid).1
          obtain ⟨o, ho⟩ := List.length_eq_one_iff.1 hone
          rw [ho, List.map_singleton] at hspawn
          refine @Accounted.since _ _ c plan occurrences _ p s t.now (spawns ++ [(c.getNext expr base, t.now)]) hseed
            (hle.trans hbasele) ⟨t, by simp, rfl⟩ (by rw [hspawn, List.map_append, hspawns]; rfl) (fun q hq => ?_) ?_
          · rcases List.mem_append.1 hq with hold | hnew
            · exact { hmade q hold with recorded := (hmade q hold).recorded.trans hbasele }
            · rw [List.mem_singleton.1 hnew]
              exact {
                occurs := fun expr' hentry' => Schedule.value_unique hentry hentry' ▸ hnext.1
                seeded := hle.trans_lt hnext.2
                come := hfires.next
                recorded := le_rfl }
          · refine List.pairwise_append.2 ⟨hincreasing, List.pairwise_singleton _ _, fun q hq q' hq' => ?_⟩
            rw [List.mem_singleton.1 hq']
            exact ((hmade q hq).come.trans (hmade q hq).recorded).trans_lt hnext.2

theorem ServiceRun.accounted (hc : c.NextCorrect occurrences) (h : ServiceRun c plan cap ticks service)
    (p : String × String) : Accounted c plan occurrences ticks p (service.lastFire p) := by
  induction h with
  | start =>
      exact .fresh rfl rfl
  | tick _ executable supervise view now hfollows htimes ih =>
      exact ih.tick hc htimes (runTick_steps hc hfollows p)

theorem length_le_encard {l : List T} {s : Set T} (hnodup : l.Nodup) (hsub : ∀ x ∈ l, x ∈ s) :
    (l.length : ℕ∞) ≤ s.encard := by
  rw [← List.toFinset_card_of_nodup hnodup, ← Set.encard_coe_eq_coe_finsetCard]
  exact Set.encard_le_encard fun x hx => hsub x (List.mem_toFinset.1 hx)

theorem Accounted.bounded {fire : Option T} (h : Accounted c plan occurrences ticks p fire) :
    SpawnsBounded plan occurrences ticks p := by
  intro s t₁ expr hseed hentry
  cases h with
  | fresh hnever _ =>
      cases hnever.symm.trans hseed
  | @since s' _ spawns hsince hle htick hspawns hmade hincreasing =>
      cases Option.some.inj (hsince.symm.trans hseed)
      rw [← hspawns, List.filter_map, List.length_map,
        ← @List.length_map _ _ _ (fun q : T × T => q.1)]
      refine length_le_encard ?_ fun o ho => ?_
      · exact List.Nodup.sublist (List.filter_sublist.map _)
          (List.pairwise_map.2 (hincreasing.imp fun hlt => hlt.ne))
      · obtain ⟨q, hq, rfl⟩ := List.mem_map.1 ho
        obtain ⟨hmem, hwindow⟩ := List.mem_filter.1 hq
        have hbefore : q.2 ≤ t₁ := by
          simpa using (of_decide_eq_true hwindow).2
        exact ⟨(hmade q hmem).occurs expr hentry, (hmade q hmem).seeded, (hmade q hmem).come.trans hbefore⟩

omit [LinearOrder T] in
theorem seedTime_stays {s : T} (h : seedTime ticks p = some s) : seedTime (ticks ++ [t]) p = some s := by
  rw [seedTime_append, h]
  rfl

theorem ServiceRun.spawnsAfterSeeding (hc : c.NextCorrect occurrences) (h : ServiceRun c plan cap ticks service)
    (p : String × String) : SpawnsAfterSeeding c plan occurrences ticks p := by
  induction h with
  | start =>
      exact fun t ht => absurd ht List.not_mem_nil
  | @tick ticks service hrun executable supervise view now hfollows htimes ih =>
      intro t ht hspawned
      rcases List.mem_append.1 ht with hold | hnew
      · obtain ⟨s, expr, base, hseed, hrest⟩ := ih t hold hspawned
        exact ⟨s, expr, base, seedTime_stays hseed, hrest⟩
      · cases List.mem_singleton.1 hnew
        have haccounted := hrun.accounted hc p
        cases @runTick_steps _ _ c plan cap _ now executable supervise view service hc hfollows p with
        | kept _ hnone =>
            exact absurd hnone hspawned
        | seeded _ _ hnone =>
            exact absurd hnone hspawned
        | @fired expr base hbase hentry hfires _ _ =>
            rw [hbase] at haccounted
            have hnext := (hc expr base hfires.valid).1
            cases haccounted with
            | since hsince hle _ _ _ _ =>
                exact ⟨_, expr, base, seedTime_stays hsince, hentry, hbase, hnext.1, hle.trans_lt hnext.2, hfires.next⟩

end Accounting

/-! ### Deferred kinds -/

section Deferral

variable {occurrences : String → Set T} {ticks : List (ServiceTick T)} {service : Service T} {p : String × String}
  {t t' : ServiceTick T}

/-- A kind that is due stays due while its last fire is the same. -/
theorem DueAt.later (h : DueAt c plan t p) (hfire : t'.before.lastFire p = t.before.lastFire p) (htime : t.now ≤ t'.now) :
    DueAt c plan t' p := by
  obtain ⟨haudience, hgate, expr, base, hentry, hbase, hfires⟩ := mem_dueReports.1 h
  exact mem_dueReports.2 ⟨haudience, hgate, expr, base, hentry, hfire.trans hbase,
    hfires.valid, hfires.next.trans htime⟩

/-- A kind that has a last fire and is not spawned keeps it. -/
theorem PairStep.unspawned {now base : T} {m : LastFire T} {acc : LastFire T × List TickOutcome}
    (h : PairStep c plan now m acc p) (hbase : m p = some base) (hnone : outcomesFor acc.2 p = []) :
    acc.1 p = some base := by
  cases h with
  | kept hkept _ =>
      exact hkept.trans hbase
  | seeded hfresh _ _ =>
      cases hfresh.symm.trans hbase
  | fired _ _ _ _ hone =>
      rw [hnone] at hone
      cases hone

/-- From the tick at which a due kind is deferred its last fire stays, until it is spawned. -/
theorem ServiceRun.deferred (hc : c.NextCorrect occurrences) (h : ServiceRun c plan cap ticks service)
    {front mid : List (ServiceTick T)} {base : T} (hsplit : ticks = front ++ t :: mid)
    (hbase : t.before.lastFire p = some base) (hnone : ∀ m ∈ t :: mid, outcomesFor m.outcomes p = []) :
    service.lastFire p = some base := by
  induction h generalizing mid with
  | start =>
      simp at hsplit
  | @tick ticks service hrun executable supervise view now hfollows htimes ih =>
      have hstep := @runTick_steps _ _ c plan cap _ now executable supervise view service hc hfollows p
      rcases List.eq_nil_or_concat mid with rfl | ⟨mid', last, rfl⟩
      · have hunspawned := hnone t (by simp)
        obtain ⟨-, hlast⟩ := List.append_inj' hsplit rfl
        cases List.singleton_inj.1 hlast
        exact hstep.unspawned hbase hunspawned
      · rw [List.concat_eq_append, ← List.cons_append, ← List.append_assoc] at hsplit
        have hunspawned := hnone last (by simp)
        obtain ⟨hfront, hlast⟩ := List.append_inj' hsplit rfl
        cases List.singleton_inj.1 hlast
        refine hstep.unspawned (ih hfront fun m hm => hnone m ?_) hunspawned
        rw [List.concat_eq_append, ← List.cons_append]
        exact List.mem_append_left _ hm

theorem ServiceRun.dueStays (hc : c.NextCorrect occurrences) (h : ServiceRun c plan cap ticks service)
    (p : String × String) : DueStays c plan ticks p := by
  induction h with
  | start =>
      intro front t mid t' back hsplit
      simp at hsplit
  | @tick ticks service hrun executable supervise view now hfollows htimes ih =>
      intro front t mid t' back hsplit hdue hnone hmid
      rcases List.eq_nil_or_concat back with rfl | ⟨back', last, rfl⟩
      · obtain ⟨hfront, hlast⟩ := List.append_inj' hsplit rfl
        cases List.singleton_inj.1 hlast
        obtain ⟨-, -, _, base, -, hbase, -⟩ := mem_dueReports.1 hdue
        have hkept := hrun.deferred hc hfront hbase (List.forall_mem_cons.2 ⟨hnone, hmid⟩)
        refine hdue.later (hkept.trans hbase.symm) (htimes t ?_)
        rw [hfront]
        exact List.mem_append_right _ (by simp)
      · rw [List.concat_eq_append, ← List.cons_append, ← List.append_assoc] at hsplit
        exact ih front t mid t' back' (List.append_inj' hsplit rfl).1 hdue hnone hmid

end Deferral

/-- Spawns are accounted for: no more than occurrences since the seeding, none for an earlier occurrence, at most the cap
a tick, and what the cap defers stays due. -/
theorem spawns_accounted {occurrences : String → Set T} {ticks : List (ServiceTick T)} {service : Service T}
    (hc : c.NextCorrect occurrences) (hrun : ServiceRun c plan cap ticks service) :
    (∀ p, SpawnsBounded plan occurrences ticks p ∧ SpawnsAfterSeeding c plan occurrences ticks p ∧
      DueStays c plan ticks p) ∧ ∀ t ∈ ticks, t.outcomes.length ≤ cap := by
  refine ⟨fun p => ⟨(hrun.accounted hc p).bounded, hrun.spawnsAfterSeeding hc p, hrun.dueStays hc p⟩, ?_⟩
  clear hc
  induction hrun with
  | start =>
      exact fun t ht => absurd ht List.not_mem_nil
  | tick _ _ _ _ _ _ _ ih =>
      intro t ht
      rcases List.mem_append.1 ht with hold | hnew
      · exact ih t hold
      · rw [List.mem_singleton.1 hnew]
        exact runTick_length

end Accounts

/-! ### A run -/

/-- Eight o'clock every day. -/
def dailyOccurrences (_ : String) : Set ℤ :=
  {o | o % 1440 = 480}

theorem dailyCroniter_next : dailyCroniter.NextCorrect dailyOccurrences := by
  intro expr base _
  constructor
  · constructor
    · change (((base - 480) / 1440 + 1) * 1440 + 480) % 1440 = 480
      omega
    · change base < ((base - 480) / 1440 + 1) * 1440 + 480
      omega
  · rintro o ⟨hocc, hlt⟩
    change o % 1440 = 480 at hocc
    change ((base - 480) / 1440 + 1) * 1440 + 480 ≤ o
    omega

/-- One agent with a daily report. -/
def sampleDailyFleet : FleetView where
  registry := ⟨[⟨"dev", true⟩], by decide⟩
  loadProfile := fun _ => .ok ⟨"dev", true, sampleDailySchedule, [], "pm", none, none⟩
  facts := ⟨none, fun _ => false⟩

/-- The effective schedule of the agent. -/
def sampleDailyPlan (_ : String) : Schedule × List String :=
  (sampleDailySchedule, [])

theorem sampleDailyFleet_follows : sampleDailyFleet.Follows sampleDailyPlan := by
  intro e he loaded hprofile
  rw [List.mem_singleton.1 he] at hprofile
  cases Option.some.inj (Except.ok.inj hprofile)
  rfl

/-- A service that is seeded at 06:40 and spawns the report at 08:20. -/
theorem spawns_accounted_sample : ∃ ticks, spawnTimes ticks ("dev", "daily") = [500] ∧
    SpawnsBounded sampleDailyPlan dailyOccurrences ticks ("dev", "daily") := by
  have hseeding := @ServiceRun.tick ℤ _ dailyCroniter sampleDailyPlan 1 _ _ .start "python" (fun _ => .ran 0)
    sampleDailyFleet 400 sampleDailyFleet_follows (by simp)
  have hrun := hseeding.tick "python" (fun _ => .ran 0) sampleDailyFleet 500 sampleDailyFleet_follows (by simp)
  exact ⟨_, by decide +kernel, ((spawns_accounted dailyCroniter_next hrun).1 ("dev", "daily")).1⟩

end ProjectManager
