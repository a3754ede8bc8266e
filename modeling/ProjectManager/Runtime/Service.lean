import Mathlib.Data.Rat.Defs
import Mathlib.Logic.Function.Basic
import ProjectManager.Runtime.Scheduler

/-!
# The coordinating service

The daemon that spawns the workers of the fleet: the schedule of an agent with what is folded into it, the seeding of
the map of last fires, and `run_tick`, which evaluates the schedules of the registry once and spawns due workers up to
a cap.
-/

namespace ProjectManager

/-! ### Effective schedules -/

/-- What the service uses of `LoadedProfile`: the poll minutes of the two transports, where they are configured, and
the rest under the names of the source. -/
structure LoadedProfile where
  profileId : String
  enabled : Bool
  schedule : Schedule
  reports : List String
  domain : String
  slackPoll : Option ℕ
  telegramPoll : Option ℕ

/-- What the service reads beside the profile: the coordinator of the company, and who has open tasks. -/
structure FleetFacts where
  coordinatorId : Option String
  hasOpenTasks : String → Bool

/-- `has_any_inbox`. -/
def hasAnyInbox (loaded : LoadedProfile) : Bool :=
  loaded.slackPoll.isSome || loaded.telegramPoll.isSome

/-- `inbox_poll_minutes`, where there is a transport. -/
def inboxPollMinutes (loaded : LoadedProfile) : ℕ :=
  match loaded.slackPoll, loaded.telegramPoll with
  | some slack, some telegram => min slack telegram
  | some slack, none => slack
  | none, telegram => telegram.getD 0

/-- `tasks_cron`. -/
def tasksCron : String :=
  "0 * * * *"

/-- The pseudo-kinds of `_effective_schedule`, with their cron strings, in the order in which they are folded in. -/
def pseudoKinds (facts : FleetFacts) (loaded : LoadedProfile) : List (String × String) :=
  let overseer := loaded.domain = "admin" ∧ loaded.telegramPoll.isSome
  (if hasAnyInbox loaded then [("inbox", "*/" ++ toString (inboxPollMinutes loaded) ++ " * * * *")] else []) ++
    (if facts.hasOpenTasks loaded.profileId then [("tasks", tasksCron)] else []) ++
    (if overseer then [("ops-alerts", "0 */6 * * *")] else []) ++
    (if overseer then [("milestone-mirror", "*/15 * * * *")] else []) ++
    (if facts.coordinatorId = some loaded.profileId then [("team-tick", "* * * * *")] else [])

/-- `_effective_schedule`: each pseudo-kind is set in the schedule and let through the gate. -/
def effectiveSchedule (facts : FleetFacts) (loaded : LoadedProfile) : Schedule × List String :=
  (pseudoKinds facts loaded).foldl (fun s e => (s.1.set e.1 e.2, s.2 ++ [e.1])) (loaded.schedule, loaded.reports)

/-! ### A tick -/

/-- An entry of the registry. -/
structure RegistryEntry where
  id : String
  enabled : Bool

/-- `load_registry`: no id comes twice. -/
structure Registry where
  entries : List RegistryEntry
  nodup : (entries.map fun e => e.id).Nodup

/-- What a tick reads: the registry, the profiles or what loading one raises, and the facts. -/
structure FleetView where
  registry : Registry
  loadProfile : String → Except String LoadedProfile
  facts : FleetFacts

/-- The beginning of both loops over the registry: the profile of an entry, which is passed over when the entry or the
profile is not enabled. -/
def FleetView.profile (view : FleetView) (entry : RegistryEntry) : Except String (Option LoadedProfile) :=
  if !entry.enabled then
    .ok none
  else
    match view.loadProfile entry.id with
    | .error exc => .error exc
    | .ok loaded => .ok (if loaded.enabled then some loaded else none)

/-- How a worker ended. -/
inductive WorkerEnd where
  | timeout
  | ran (exitCode : ℤ)

/-- The outcome of a worker. -/
structure TickOutcome where
  agentId : String
  kind : String
  worker : WorkerEnd

/-- The map `_last_fire`. -/
abbrev LastFire (T : Type) :=
  String × String → Option T

/-- `Service`. -/
structure Service (T : Type) where
  lastFire : LastFire T
  seeded : Bool

/-- The end of a tick: the service, the workers that were spawned, and the error that was raised if there was one. -/
structure TickEnd (T : Type) where
  service : Service T
  outcomes : List TickOutcome
  raised : Option String

/-- `_worker_argv`. -/
def workerArgv (executable agentId kind audience : String) : List String :=
  [executable, "-m", "src.runtime.worker", "--agent-id", agentId, "--report", kind, "--audience", audience]

section Tick

variable {T : Type}

/-- `self._last_fire.setdefault(key, now)`. -/
def setDefault (m : LastFire T) (key : String × String) (now : T) : LastFire T :=
  if (m key).isSome then m else Function.update m key (some now)

/-- The kinds of an agent are seeded. -/
def seedKinds (m : LastFire T) (agentId : String) (kinds : List String) (now : T) : LastFire T :=
  kinds.foldl (fun m kind => setDefault m (agentId, kind) now) m

/-- The loop of `_seed`: the map, and the error that ends it. -/
def seedLoop (view : FleetView) (now : T) : List RegistryEntry → LastFire T → LastFire T × Option String
  | [], m => (m, none)
  | entry :: rest, m =>
      match view.profile entry with
      | .error exc => (m, some exc)
      | .ok none => seedLoop view now rest m
      | .ok (some loaded) =>
          seedLoop view now rest (seedKinds m entry.id (effectiveSchedule view.facts loaded).1.kinds now)

variable [LinearOrder T] (c : Croniter T) (cap : ℕ) (executable : String) (supervise : List String → WorkerEnd)

/-- The loop over the due reports of an agent. -/
def fireLoop (agentId : String) (now : T) : List (String × String) → LastFire T × List TickOutcome →
    LastFire T × List TickOutcome
  | [], acc => acc
  | (kind, audience) :: rest, (m, outcomes) =>
      if cap ≤ outcomes.length then
        (m, outcomes)
      else
        let outcome := ⟨agentId, kind, supervise (workerArgv executable agentId kind audience)⟩
        fireLoop agentId now rest (Function.update m (agentId, kind) (some now), outcomes ++ [outcome])

/-- What an agent fires: its kinds are seeded, and the due ones spawned. -/
def fireAgent (facts : FleetFacts) (loaded : LoadedProfile) (agentId : String) (now : T)
    (acc : LastFire T × List TickOutcome) : LastFire T × List TickOutcome :=
  let (schedule, reports) := effectiveSchedule facts loaded
  let m := seedKinds acc.1 agentId schedule.kinds now
  fireLoop cap executable supervise agentId now (dueReports c schedule reports now fun kind => m (agentId, kind))
    (m, acc.2)

/-- The loop over the registry: the map, the outcomes, and the error that ends it. -/
def tickLoop (view : FleetView) (now : T) : List RegistryEntry → LastFire T × List TickOutcome →
    (LastFire T × List TickOutcome) × Option String
  | [], acc => (acc, none)
  | entry :: rest, acc =>
      match view.profile entry with
      | .error exc => (acc, some exc)
      | .ok none => tickLoop view now rest acc
      | .ok (some loaded) =>
          let acc := fireAgent c cap executable supervise view.facts loaded entry.id now acc
          if cap ≤ acc.2.length then (acc, none) else tickLoop view now rest acc

/-- `run_tick`. -/
def runTick (view : FleetView) (now : T) (service : Service T) : TickEnd T :=
  let (m, failed) :=
    if service.seeded then (service.lastFire, none) else seedLoop view now view.registry.entries service.lastFire
  match failed with
  | some exc => ⟨⟨m, false⟩, [], some exc⟩
  | none =>
      let ((m, outcomes), raised) := tickLoop c cap executable supervise view now view.registry.entries (m, [])
      ⟨⟨m, true⟩, outcomes, raised⟩

end Tick

/-! ### Seeding and firing -/

section Firing

variable {T : Type} {m m' : LastFire T} {agentId : String} {kinds : List String} {key : String × String} {now : T}

theorem setDefault_apply (m : LastFire T) (key key' : String × String) (now : T) :
    setDefault m key now key' = if key' = key then some ((m key').getD now) else m key' := by
  unfold setDefault
  split
  case isTrue hsome =>
    obtain ⟨t, ht⟩ := Option.isSome_iff_exists.1 hsome
    split
    case isTrue heq =>
      rw [heq, ht, Option.getD_some]
    case isFalse _ =>
      rfl
  case isFalse hnone =>
    rw [Function.update_apply]
    split
    case isTrue heq =>
      rw [heq, Option.not_isSome_iff_eq_none.1 hnone, Option.getD_none]
    case isFalse _ =>
      rfl

/-- Seeding gives a last fire to the kinds that have none. -/
theorem seedKinds_apply : seedKinds m agentId kinds now key =
    if key.1 = agentId ∧ key.2 ∈ kinds then some ((m key).getD now) else m key := by
  unfold seedKinds
  induction kinds generalizing m with
  | nil =>
      simp
  | cons kind rest ih =>
      rw [List.foldl_cons, ih, setDefault_apply]
      by_cases hkey : key = (agentId, kind)
      · subst hkey
        simp
      · have hne : ¬ (key.1 = agentId ∧ key.2 = kind) := fun h => hkey (Prod.ext h.1 h.2)
        simp only [hkey, if_false, List.mem_cons]
        by_cases hid : key.1 = agentId
        · have hkind : key.2 ≠ kind := fun h => hne ⟨hid, h⟩
          simp [hid, hkind]
        · simp [hid]

theorem seedKinds_other (h : key.1 ≠ agentId) : seedKinds m agentId kinds now key = m key := by
  simp [seedKinds_apply, h]

variable {cap : ℕ} {executable : String} {supervise : List String → WorkerEnd} {due : List (String × String)}
  {outcomes : List TickOutcome}

theorem fireLoop_other (h : key.1 ≠ agentId) :
    (fireLoop cap executable supervise agentId now due (m, outcomes)).1 key = m key := by
  induction due generalizing m outcomes with
  | nil =>
      rfl
  | cons e rest ih =>
      unfold fireLoop
      split
      · rfl
      · rw [ih, Function.update_of_ne fun heq => h (congrArg Prod.fst heq)]

/-- The cap bounds what is spawned. -/
theorem fireLoop_length (h : outcomes.length ≤ cap) :
    (fireLoop cap executable supervise agentId now due (m, outcomes)).2.length = min cap (outcomes.length + due.length) := by
  induction due generalizing m outcomes with
  | nil =>
      simp [fireLoop, h]
  | cons e rest ih =>
      unfold fireLoop
      split
      case isTrue hfull =>
        simp only [List.length_cons]
        omega
      case isFalse hfree =>
        rw [ih (by simp; omega)]
        simp only [List.length_append, List.length_cons, List.length_nil]
        omega

end Firing

/-! ### The fold -/

section Fold

variable {facts : FleetFacts} {loaded : LoadedProfile} {kind expr : String}

theorem foldl_set_reports (kinds : List (String × String)) (s : Schedule × List String) :
    (kinds.foldl (fun s e => (s.1.set e.1 e.2, s.2 ++ [e.1])) s).2 = s.2 ++ kinds.map fun e => e.1 := by
  induction kinds generalizing s with
  | nil =>
      simp
  | cons e rest ih =>
      rw [List.foldl_cons, ih]
      simp

/-- The gate lets the profile's reports and the pseudo-kinds through. -/
theorem effectiveSchedule_reports :
    (effectiveSchedule facts loaded).2 = loaded.reports ++ (pseudoKinds facts loaded).map fun e => e.1 :=
  foldl_set_reports _ _

theorem foldl_set_other (kinds : List (String × String)) (s : Schedule × List String)
    (hother : kind ∉ kinds.map fun e => e.1) :
    (kind, expr) ∈ (kinds.foldl (fun s e => (s.1.set e.1 e.2, s.2 ++ [e.1])) s).1.entries ↔
      (kind, expr) ∈ s.1.entries := by
  induction kinds generalizing s with
  | nil =>
      exact Iff.rfl
  | cons e rest ih =>
      rw [List.map_cons, List.mem_cons, not_or] at hother
      rw [List.foldl_cons, ih _ hother.2, Schedule.mem_set]
      exact ⟨fun h => h.elim (fun h => absurd h.1 hother.1) fun h => h.2, fun h => .inr ⟨hother.1, h⟩⟩

/-- The entries of the profile stay, but for those of pseudo-kinds. -/
theorem effectiveSchedule_entries (hother : kind ∉ (pseudoKinds facts loaded).map fun e => e.1) :
    (kind, expr) ∈ (effectiveSchedule facts loaded).1.entries ↔ (kind, expr) ∈ loaded.schedule.entries :=
  foldl_set_other _ _ hother

end Fold

end ProjectManager
