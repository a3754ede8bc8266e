import Mathlib.Algebra.Order.Ring.Rat
import Mathlib.Order.Bounds.Basic
import Mathlib.Tactic.Linarith
import Mathlib.Tactic.Ring
import ProjectManager.Runtime.Scheduler

/-!
# Overdue kinds

`_overdue_kinds`, which tells the kinds of a schedule whose last run is too long ago.  Times are microseconds since the
epoch.  The threshold is twice one gap of the cron, with a floor, and it is compared with the age of the last run, or of
the last fire for a kind that never ran.  `alerts_sound` says when a kind that ran at its last fire is not told, and
`never_run_unreported` that a kind that never ran is not told at all when the fires of its cron are evenly spaced.
-/

namespace ProjectManager

/-! ### The reader -/

/-- What the reader uses of `croniter`: the check of a string, the next fire in UTC, and the previous fire in the zone
of the machine, or nothing where it raises. -/
structure CronClock where
  isValid : String → Bool
  next : String → ℤ → Option ℤ
  prev : String → ℤ → Option ℤ

/-- A run event: its kind where it has one, and its timestamp as `_parse_ts` reads it. -/
structure RunEvent where
  kind : Option String
  ts : Option ℤ
deriving DecidableEq

/-- What `_overdue_kinds` reads of the state of an agent. -/
structure AgentState where
  schedule : Schedule
  reports : List String
  runEvents : List RunEvent

/-- `_OVERDUE_FLOOR_HOURS`. -/
def overdueFloorHours : ℚ :=
  6

/-- `_NON_REPORT_KINDS`. -/
def nonReportKinds : List String :=
  ["inbox", "tasks", "ops-alerts", "team-step", "team-tick", "milestone-mirror"]

/-- `total_seconds`. -/
def totalSeconds (delta : ℤ) : ℚ :=
  delta / 1000000

/-- The hours of a duration. -/
def hours (delta : ℤ) : ℚ :=
  totalSeconds delta / 3600

/-- `datetime(2000, 1, 3, tzinfo=UTC)`. -/
def periodBase : ℤ :=
  946857600000000

/-- `_cron_period_hours`. -/
def cronPeriodHours (c : CronClock) (cron : String) : ℚ :=
  match c.next cron periodBase with
  | none => overdueFloorHours
  | some first =>
      match c.next cron first with
      | none => overdueFloorHours
      | some second => hours (second - first)

/-- The body of the loop of `_last_run_ts_by_kind`. -/
def recordRun (out : String → Option ℤ) (ev : RunEvent) : String → Option ℤ :=
  match ev.kind with
  | none => out
  | some kind =>
      if kind = "" ∨ (out kind).isSome then
        out
      else
        match ev.ts with
        | none => out
        | some ts => Function.update out kind (some ts)

/-- `_last_run_ts_by_kind`. -/
def lastRunTsByKind (events : List RunEvent) : String → Option ℤ :=
  events.foldl recordRun fun _ => none

/-- The threshold of `_overdue_kinds`. -/
def thresholdHours (c : CronClock) (cron : String) : ℚ :=
  max (cronPeriodHours c cron * 2) overdueFloorHours

/-- `_overdue_kinds`. -/
def overdueKinds (c : CronClock) (state : AgentState) (now : ℤ) : List String :=
  let lastByKind := lastRunTsByKind state.runEvents
  state.schedule.entries.filterMap fun e =>
    if e.1 ∈ nonReportKinds then
      none
    else if state.reports ≠ [] ∧ e.1 ∉ state.reports then
      none
    else if c.isValid e.2 = false then
      none
    else
      match c.prev e.2 now with
      | none => none
      | some prevFire =>
          if thresholdHours c e.2 ≤ hours (now - (lastByKind e.1).getD prevFire) then some e.1 else none

/-! ### Fires -/

section Fires

/-- The fires of a cron before a time, on the wall clock of a machine whose offset from UTC is that of the time. -/
def firesBefore (fires : String → Set ℤ) (offset : ℤ → ℤ) (expr : String) (now : ℤ) : Set ℤ :=
  {o | o + offset now ∈ fires expr ∧ o < now}

/-- `get_next` is the next fire in UTC, and there is none only when it raises. -/
def CronClock.NextFires (c : CronClock) (fires : String → Set ℤ) : Prop :=
  ∀ expr base o, c.isValid expr = true → (c.next expr base = some o ↔ IsLeast {o | o ∈ fires expr ∧ base < o} o)

/-- `get_prev` is the last fire before a time. -/
def CronClock.PrevFires (c : CronClock) (fires : String → Set ℤ) (offset : ℤ → ℤ) : Prop :=
  ∀ expr now o, c.isValid expr = true → (c.prev expr now = some o ↔ IsGreatest (firesBefore fires offset expr now) o)

theorem hours_le_hours {a b : ℤ} : hours a ≤ hours b ↔ a ≤ b := by
  unfold hours totalSeconds
  rw [div_le_div_iff_of_pos_right (by norm_num), div_le_div_iff_of_pos_right (by norm_num), Int.cast_le]

theorem hours_lt_hours {a b : ℤ} : hours a < hours b ↔ a < b := by
  rw [← not_le, hours_le_hours, not_le]

theorem floor_eq_hours : overdueFloorHours = hours 21600000000 := by
  norm_num [overdueFloorHours, hours, totalSeconds]

theorem hours_mul_two (a : ℤ) : hours a * 2 = hours (a * 2) := by
  unfold hours totalSeconds
  push_cast
  ring

end Fires

/-! ### A machine in UTC -/

/-- Eight o'clock of a day. -/
def eightOn (day : ℤ) : ℤ :=
  day * 86400000000 + 28800000000

/-- The cron of weekdays fires on them, and every other cron daily. -/
def sampleFires (expr : String) : Set ℤ :=
  {o | o % 86400000000 = 28800000000 ∧ (expr = "0 8 * * 1-5" → (o / 86400000000 + 3) % 7 < 5)}

/-- The first weekday from a day on. -/
def weekdayFrom (day : ℤ) : ℤ :=
  if (day + 3) % 7 = 5 then day + 2 else if (day + 3) % 7 = 6 then day + 1 else day

/-- The last weekday up to a day. -/
def weekdayUpTo (day : ℤ) : ℤ :=
  if (day + 3) % 7 = 5 then day - 1 else if (day + 3) % 7 = 6 then day - 2 else day

/-- A machine whose zone is UTC. -/
def sampleClock : CronClock where
  isValid := fun _ => true
  next := fun expr base =>
    let day := (base - 28800000000) / 86400000000 + 1
    some (eightOn (if expr = "0 8 * * 1-5" then weekdayFrom day else day))
  prev := fun expr now =>
    let day := (now - 28800000000 - 1) / 86400000000
    some (eightOn (if expr = "0 8 * * 1-5" then weekdayUpTo day else day))

theorem sampleClock_next : sampleClock.NextFires sampleFires := by
  intro expr base o _
  have hleast : ∀ day, day = (if expr = "0 8 * * 1-5" then weekdayFrom ((base - 28800000000) / 86400000000 + 1)
      else (base - 28800000000) / 86400000000 + 1) → IsLeast {o | o ∈ sampleFires expr ∧ base < o} (eightOn day) := by
    rintro day hday
    unfold weekdayFrom at hday
    refine ⟨⟨⟨?_, fun hexpr => ?_⟩, ?_⟩, ?_⟩
    · unfold eightOn
      omega
    · rw [if_pos hexpr] at hday
      unfold eightOn
      split_ifs at hday <;> omega
    · unfold eightOn
      split_ifs at hday <;> omega
    · rintro o' ⟨⟨hocc, hweekday⟩, hlt⟩
      unfold eightOn
      split_ifs at hday
      all_goals first | (have hopen := hweekday (by assumption); omega) | omega
  exact ⟨fun h => Option.some.inj h ▸ hleast _ rfl, fun h => congrArg some ((hleast _ rfl).unique h)⟩

theorem sampleClock_prev : sampleClock.PrevFires sampleFires fun _ => 0 := by
  intro expr now o _
  have hgreatest : ∀ day, day = (if expr = "0 8 * * 1-5" then weekdayUpTo ((now - 28800000000 - 1) / 86400000000)
      else (now - 28800000000 - 1) / 86400000000) →
        IsGreatest (firesBefore sampleFires (fun _ => 0) expr now) (eightOn day) := by
    rintro day hday
    have hzone : firesBefore sampleFires (fun _ => 0) expr now = {o | o ∈ sampleFires expr ∧ o < now} := by
      simp [firesBefore]
    rw [hzone]
    unfold weekdayUpTo at hday
    refine ⟨⟨⟨?_, fun hexpr => ?_⟩, ?_⟩, ?_⟩
    · unfold eightOn
      omega
    · rw [if_pos hexpr] at hday
      unfold eightOn
      split_ifs at hday <;> omega
    · unfold eightOn
      split_ifs at hday <;> omega
    · rintro o' ⟨⟨hocc, hweekday⟩, hlt⟩
      unfold eightOn
      split_ifs at hday
      all_goals first | (have hopen := hweekday (by assumption); omega) | omega
  exact ⟨fun h => Option.some.inj h ▸ hgreatest _ rfl, fun h => congrArg some ((hgreatest _ rfl).unique h)⟩

/-! ### What is told -/

section Overdue

variable {c : CronClock} {state : AgentState} {events : List RunEvent} {now : ℤ} {kind expr : String}

/-- An event is of a kind. -/
def RunEvent.Of (ev : RunEvent) (kind : String) : Prop :=
  ev.kind = some kind ∧ kind ≠ ""

instance (ev : RunEvent) (kind : String) : Decidable (ev.Of kind) :=
  inferInstanceAs (Decidable (_ ∧ _))

/-- A scheduled kind that is a report, passes the gate, and has a valid cron. -/
structure Watched (c : CronClock) (schedule : Schedule) (reports : List String) (kind expr : String) : Prop where
  entry : (kind, expr) ∈ schedule.entries
  report : kind ∉ nonReportKinds
  gate : reports = [] ∨ kind ∈ reports
  valid : c.isValid expr = true

theorem recordRun_apply (out : String → Option ℤ) (ev : RunEvent) (kind : String) :
    recordRun out ev kind = (out kind).or (if ev.Of kind then ev.ts else none) := by
  obtain ⟨evKind, ts⟩ := ev
  unfold recordRun RunEvent.Of
  cases evKind with
  | none =>
      simp
  | some k =>
      simp only [Option.some.injEq]
      by_cases hk : k = kind
      · subst hk
        by_cases hempty : k = ""
        · simp [hempty]
        · cases hout : out k with
          | some t =>
              simp [hout]
          | none =>
              cases ts with
              | none =>
                  simp [hout]
              | some t =>
                  simp [hempty]
      · simp only [hk, false_and, if_false, Option.or_none]
        split
        · rfl
        · cases ts with
          | none =>
              rfl
          | some t =>
              exact Function.update_of_ne (Ne.symm hk) _ _

/-- The last run of a kind is at the first of its events that has a time. -/
theorem lastRunTsByKind_apply : lastRunTsByKind events kind =
    events.findSome? fun ev => if ev.Of kind then ev.ts else none := by
  have hfold : ∀ out : String → Option ℤ, events.foldl recordRun out kind =
      (out kind).or (events.findSome? fun ev => if ev.Of kind then ev.ts else none) := by
    induction events with
    | nil =>
        simp
    | cons ev rest ih =>
        intro out
        rw [List.foldl_cons, ih, recordRun_apply, Option.or_assoc, List.findSome?_cons]
        cases (if ev.Of kind then ev.ts else none) <;> rfl
  exact hfold fun _ => none

/-- What is told is watched, had a fire, and ran, or else fired, a threshold ago. -/
theorem mem_overdueKinds : kind ∈ overdueKinds c state now ↔ ∃ expr prevFire,
    Watched c state.schedule state.reports kind expr ∧ c.prev expr now = some prevFire ∧
      thresholdHours c expr ≤ hours (now - (lastRunTsByKind state.runEvents kind).getD prevFire) := by
  unfold overdueKinds
  rw [List.mem_filterMap]
  constructor
  · rintro ⟨⟨k, expr⟩, hentry, h⟩
    dsimp only at h
    split at h
    · cases h
    · rename_i hreport
      split at h
      · cases h
      · rename_i hgate
        split at h
        · cases h
        · rename_i hvalid
          split at h
          · cases h
          · rename_i prevFire hprev
            split at h
            · rename_i hage
              cases h
              have hopen : state.reports = [] ∨ kind ∈ state.reports := by
                by_cases hreports : state.reports = []
                · exact .inl hreports
                · exact .inr (not_not.1 fun hmem => hgate ⟨hreports, hmem⟩)
              exact ⟨expr, prevFire, ⟨hentry, hreport, hopen, by simpa using hvalid⟩, hprev, hage⟩
            · cases h
  · rintro ⟨expr, prevFire, hwatched, hprev, hage⟩
    refine ⟨(kind, expr), hwatched.entry, ?_⟩
    have hopen : ¬ (state.reports ≠ [] ∧ kind ∉ state.reports) := by
      rintro ⟨hreports, hmem⟩
      exact hwatched.gate.elim hreports hmem
    simp only [hwatched.report, if_false, hopen, hwatched.valid, Bool.true_eq_false, hprev, hage, if_true]

end Overdue

/-! ### Soundness -/

section Sound

variable {c : CronClock} {fires : String → Set ℤ} {offset : ℤ → ℤ} {schedule : Schedule} {reports : List String}
  {events : List RunEvent} {state : AgentState} {now r : ℤ} {kind expr : String}

/-- The time of the newest event of a kind; the events are the newest first. -/
def newestRun (events : List RunEvent) (kind : String) : Option ℤ :=
  (events.find? fun ev => ev.Of kind).bind fun ev => ev.ts

/-- A kind whose newest run is not before the last fire of its cron is not told. -/
def AlertsSound (c : CronClock) (fires : String → Set ℤ) (offset : ℤ → ℤ) (state : AgentState) (now : ℤ) : Prop :=
  ∀ kind expr p r, (kind, expr) ∈ state.schedule.entries → IsGreatest (firesBefore fires offset expr now) p →
    newestRun state.runEvents kind = some r → p ≤ r → kind ∉ overdueKinds c state now

theorem newestRun_empty : newestRun events "" = none := by
  unfold newestRun
  rw [List.find?_eq_none.2 fun ev _ hof => (of_decide_eq_true hof).2 rfl]
  rfl

theorem lastRunTsByKind_newest (h : newestRun events kind = some r) : lastRunTsByKind events kind = some r := by
  rw [lastRunTsByKind_apply]
  unfold newestRun at h
  induction events with
  | nil =>
      cases h
  | cons ev rest ih =>
      rw [List.findSome?_cons]
      rw [List.find?_cons] at h
      by_cases hof : ev.Of kind
      · have hts : ev.ts = some r := by simpa [hof] using h
        simp [hof, hts]
      · simp only [hof, decide_false] at h
        simp only [hof, if_false]
        exact ih h

/-- A kind with a newest run is told when that is a threshold ago. -/
theorem told_iff {p : ℤ} (hprev : c.PrevFires fires offset) (hentry : (kind, expr) ∈ state.schedule.entries)
    (hp : IsGreatest (firesBefore fires offset expr now) p) (hr : newestRun state.runEvents kind = some r) :
    kind ∈ overdueKinds c state now ↔
      Watched c state.schedule state.reports kind expr ∧ thresholdHours c expr ≤ hours (now - r) := by
  rw [mem_overdueKinds, lastRunTsByKind_newest hr]
  simp only [Option.getD_some]
  constructor
  · rintro ⟨expr', p', hwatched, -, hage⟩
    cases Schedule.value_unique hwatched.entry hentry
    exact ⟨hwatched, hage⟩
  · rintro ⟨hwatched, hage⟩
    exact ⟨expr, p, hwatched, (hprev expr now p hwatched.valid).2 hp, hage⟩

/-- The age of the newest runs decides for one history. -/
theorem alertsSound_iff (hprev : c.PrevFires fires offset) : AlertsSound c fires offset state now ↔
    ∀ kind expr p r, Watched c state.schedule state.reports kind expr →
      IsGreatest (firesBefore fires offset expr now) p → newestRun state.runEvents kind = some r → p ≤ r →
        hours (now - r) < thresholdHours c expr := by
  constructor
  · intro hsound kind expr p r hwatched hp hr hle
    by_contra hage
    exact hsound kind expr p r hwatched.entry hp hr hle
      ((told_iff hprev hwatched.entry hp hr).2 ⟨hwatched, not_lt.1 hage⟩)
  · intro hyoung kind expr p r hentry hp hr hle htold
    obtain ⟨hwatched, hage⟩ := (told_iff hprev hentry hp hr).1 htold
    exact absurd hage (not_le.2 (hyoung kind expr p r hwatched hp hr hle))

/-- The age of the last fires decides for all histories. -/
theorem alertsSound_all_iff (hprev : c.PrevFires fires offset) :
    (∀ events, AlertsSound c fires offset ⟨schedule, reports, events⟩ now) ↔
      ∀ kind expr p, Watched c schedule reports kind expr → kind ≠ "" →
        IsGreatest (firesBefore fires offset expr now) p → hours (now - p) < thresholdHours c expr := by
  constructor
  · intro hsound kind expr p hwatched hkind hp
    have hnewest : newestRun [⟨some kind, some p⟩] kind = some p := by
      simp [newestRun, RunEvent.Of, hkind]
    exact (alertsSound_iff hprev).1 (hsound [⟨some kind, some p⟩]) kind expr p p hwatched hp hnewest le_rfl
  · intro hyoung events
    rw [alertsSound_iff hprev]
    intro kind expr p r hwatched hp hr hle
    have hkind : kind ≠ "" := by
      rintro rfl
      rw [newestRun_empty] at hr
      cases hr
    exact (hours_le_hours.2 (by omega)).trans_lt (hyoung kind expr p hwatched hkind hp)

/-- A state tells no kind that ran at its last fire, exactly when the newest runs are less than a threshold old; it is
so for all histories when less than a threshold has passed since the last fires. -/
theorem alerts_sound (hprev : c.PrevFires fires offset) (schedule : Schedule) (reports : List String) (now : ℤ) :
    (∀ events, AlertsSound c fires offset ⟨schedule, reports, events⟩ now ↔
      ∀ kind expr p r, Watched c schedule reports kind expr → IsGreatest (firesBefore fires offset expr now) p →
        newestRun events kind = some r → p ≤ r → hours (now - r) < thresholdHours c expr) ∧
    ((∀ events, AlertsSound c fires offset ⟨schedule, reports, events⟩ now) ↔
      ∀ kind expr p, Watched c schedule reports kind expr → kind ≠ "" →
        IsGreatest (firesBefore fires offset expr now) p → hours (now - p) < thresholdHours c expr) :=
  ⟨fun _ => alertsSound_iff hprev, alertsSound_all_iff hprev⟩

/-- A report on weekdays that ran on Friday the third of July 2026. -/
def sampleWeekdayState : AgentState where
  schedule := ⟨[("daily", "0 8 * * 1-5")], by decide⟩
  reports := []
  runEvents := [⟨some "daily", some 1783065600000000⟩]

/-- On the Monday after, an hour before it is to run again, it is told as overdue. -/
theorem weekend_told : ¬ ∀ (c : CronClock) (fires : String → Set ℤ) (offset : ℤ → ℤ), c.PrevFires fires offset →
    ∀ state now, AlertsSound c fires offset state now := by
  intro hsound
  have hlast : IsGreatest (firesBefore sampleFires (fun _ => 0) "0 8 * * 1-5" 1783321200000000) 1783065600000000 :=
    (sampleClock_prev _ _ _ rfl).1 (by decide)
  exact hsound sampleClock sampleFires _ sampleClock_prev sampleWeekdayState 1783321200000000 "daily" _ _ _ (by decide)
    hlast rfl le_rfl (by decide +kernel)

/-- A daily report. -/
def sampleDailySchedule : Schedule :=
  ⟨[("daily", "0 8 * * *")], by decide⟩

/-- The state of July: the daily report has run on the third. -/
theorem alerts_sound_sample : AlertsSound sampleClock sampleFires (fun _ => 0)
    ⟨sampleDailySchedule, [], [⟨some "daily", some 1783065600000000⟩]⟩ 1783080000000000 := by
  have hsound := (alerts_sound sampleClock_prev sampleDailySchedule [] 1783080000000000).1
    [⟨some "daily", some 1783065600000000⟩]
  refine hsound.2 fun kind expr p r hwatched _ hr hle => ?_
  cases List.mem_singleton.1 hwatched.entry
  cases hr
  decide +kernel

/-- The threshold is a positive duration. -/
theorem thresholdHours_eq (c : CronClock) (expr : String) : ∃ d, 0 < d ∧ thresholdHours c expr = hours d := by
  have hperiod : ∃ e, cronPeriodHours c expr = hours e := by
    unfold cronPeriodHours
    split
    · exact ⟨_, floor_eq_hours⟩
    · split
      · exact ⟨_, floor_eq_hours⟩
      · exact ⟨_, rfl⟩
  obtain ⟨e, he⟩ := hperiod
  refine ⟨max (e * 2) 21600000000, by omega, ?_⟩
  unfold thresholdHours
  rw [he, floor_eq_hours, hours_mul_two]
  rcases le_total (e * 2) 21600000000 with h | h
  · rw [max_eq_right h, max_eq_right (hours_le_hours.2 h)]
  · rw [max_eq_left h, max_eq_left (hours_le_hours.2 h)]

/-- In a zone whose offset stays, a schedule is sound at all times exactly when after each fire of a watched kind the
next one comes in less than a threshold. -/
theorem alerts_sound_always {zone : ℤ} (hprev : c.PrevFires fires fun _ => zone) :
    (∀ now events, AlertsSound c fires (fun _ => zone) ⟨schedule, reports, events⟩ now) ↔
      ∀ kind expr, Watched c schedule reports kind expr → kind ≠ "" → ∀ o, o + zone ∈ fires expr →
        ∃ o', o' + zone ∈ fires expr ∧ o < o' ∧ hours (o' - o) < thresholdHours c expr := by
  constructor
  · intro hsound kind expr hwatched hkind o ho
    by_contra hnone
    obtain ⟨d, hpos, hd⟩ := thresholdHours_eq c expr
    -- a threshold after the fire it is still the last one
    have hlast : IsGreatest (firesBefore fires (fun _ => zone) expr (o + d)) o := by
      refine ⟨⟨ho, by omega⟩, fun o' ho' => ?_⟩
      by_contra hlater
      refine hnone ⟨o', ho'.1, not_le.1 hlater, ?_⟩
      rw [hd, hours_lt_hours]
      have hbefore := ho'.2
      omega
    have hyoung := (alertsSound_all_iff hprev).1 (hsound (o + d)) kind expr o hwatched hkind hlast
    rw [hd, hours_lt_hours] at hyoung
    omega
  · intro hgaps now
    rw [alertsSound_all_iff hprev]
    intro kind expr p hwatched hkind hp
    obtain ⟨o', ho', hlater, hgap⟩ := hgaps kind expr hwatched hkind p hp.1.1
    have hcome : now ≤ o' := by
      by_contra hbefore
      exact absurd (hp.2 ⟨ho', not_le.1 hbefore⟩) (not_le.2 hlater)
    exact (hours_le_hours.2 (by omega)).trans_lt hgap

end Sound

/-! ### Kinds that never ran -/

section Silent

variable {c : CronClock} {fires : String → Set ℤ} {offset : ℤ → ℤ} {schedule : Schedule} {reports : List String}
  {events : List RunEvent} {now period : ℤ} {kind expr : String}

/-- Evenly spaced fires. -/
def EvenlySpaced (fires : Set ℤ) (period : ℤ) : Prop :=
  0 < period ∧ ∃ anchor, fires = {o | ∃ n : ℤ, o = anchor + n * period}

theorem EvenlySpaced.add {occ : Set ℤ} {o : ℤ} (h : EvenlySpaced occ period) (ho : o ∈ occ) : o + period ∈ occ := by
  obtain ⟨-, anchor, rfl⟩ := h
  obtain ⟨n, rfl⟩ := ho
  exact ⟨n + 1, by ring⟩

/-- After a fire the next one comes a period later. -/
theorem EvenlySpaced.next {occ : Set ℤ} {o : ℤ} (h : EvenlySpaced occ period) (ho : o ∈ occ) :
    IsLeast {o' | o' ∈ occ ∧ o < o'} (o + period) := by
  refine ⟨⟨h.add ho, by linarith [h.1]⟩, ?_⟩
  obtain ⟨hpos, anchor, rfl⟩ := h
  obtain ⟨n, rfl⟩ := ho
  rintro _ ⟨⟨m, rfl⟩, hlt⟩
  have hnm : n < m := lt_of_mul_lt_mul_right (by linarith) hpos.le
  have hle : (n + 1) * period ≤ m * period := mul_le_mul_of_nonneg_right hnm hpos.le
  linarith

/-- After any time there is a next fire. -/
theorem EvenlySpaced.next_exists {occ : Set ℤ} (h : EvenlySpaced occ period) (base : ℤ) :
    ∃ o, IsLeast {o | o ∈ occ ∧ base < o} o := by
  obtain ⟨hpos, anchor, rfl⟩ := h
  have hbefore := Int.ediv_mul_le (base - anchor) hpos.ne'
  have hafter := Int.lt_ediv_add_one_mul_self (base - anchor) hpos
  refine ⟨anchor + ((base - anchor) / period + 1) * period, ⟨⟨_, rfl⟩, by linarith⟩, ?_⟩
  rintro _ ⟨⟨m, rfl⟩, hlt⟩
  have hm : (base - anchor) / period < m := lt_of_mul_lt_mul_right (by linarith) hpos.le
  have hle : ((base - anchor) / period + 1) * period ≤ m * period := mul_le_mul_of_nonneg_right hm hpos.le
  linarith

/-- The period of an evenly spaced cron is what the reader takes it for. -/
theorem cronPeriodHours_eq (hnext : c.NextFires fires) (hvalid : c.isValid expr = true)
    (hspaced : EvenlySpaced (fires expr) period) : cronPeriodHours c expr = hours period := by
  obtain ⟨first, hfirst⟩ := hspaced.next_exists periodBase
  have hsecond := hspaced.next hfirst.1.1
  unfold cronPeriodHours
  simp only [(hnext expr periodBase first hvalid).2 hfirst, (hnext expr first _ hvalid).2 hsecond, add_sub_cancel_left]

/-- No run event is of a kind. -/
def NeverRan (events : List RunEvent) (kind : String) : Prop :=
  ∀ ev ∈ events, ¬ ev.Of kind

theorem NeverRan.lastRunTsByKind (h : NeverRan events kind) : lastRunTsByKind events kind = none := by
  rw [lastRunTsByKind_apply, List.findSome?_eq_none_iff]
  exact fun ev hev => if_neg (h ev hev)

/-- The last fire of an evenly spaced cron is never a threshold ago. -/
theorem NeverRan.not_told (h : NeverRan events kind) (hnext : c.NextFires fires) (hprev : c.PrevFires fires offset)
    (hentry : (kind, expr) ∈ schedule.entries) (hspaced : EvenlySpaced (fires expr) period) :
    kind ∉ overdueKinds c ⟨schedule, reports, events⟩ now := by
  rw [mem_overdueKinds]
  rintro ⟨expr', p, hwatched, hp, hage⟩
  cases Schedule.value_unique hwatched.entry hentry
  simp only [h.lastRunTsByKind, Option.getD_none] at hage
  have hlast := (hprev expr now p hwatched.valid).1 hp
  have hfollowing : p + period + offset now ∈ fires expr := by
    rw [add_right_comm]
    exact hspaced.add hlast.1.1
  have hcome : now ≤ p + period := by
    by_contra hbefore
    have hle := hlast.2 ⟨hfollowing, not_le.1 hbefore⟩
    linarith [hspaced.1]
  have hyoung : hours (now - p) < thresholdHours c expr :=
    calc hours (now - p) ≤ hours period := hours_le_hours.2 (by linarith)
      _ < hours (period * 2) := hours_lt_hours.2 (by linarith [hspaced.1])
      _ = cronPeriodHours c expr * 2 := by rw [cronPeriodHours_eq hnext hwatched.valid hspaced, hours_mul_two]
      _ ≤ thresholdHours c expr := le_max_left _ _
  exact absurd hage (not_le.2 hyoung)

/-- In every window of some length there is a time at which a kind is told. -/
def EventuallyTold (c : CronClock) (state : ℤ → AgentState) (kind : String) : Prop :=
  ∃ window : ℤ, ∀ t, ∃ now, t ≤ now ∧ now ≤ t + window ∧ kind ∈ overdueKinds c (state now) now

/-- A kind that never ran is not told, however its evenly spaced cron passes the time. -/
theorem never_run_unreported (hnext : c.NextFires fires) (hprev : c.PrevFires fires offset)
    (hentry : (kind, expr) ∈ schedule.entries) (hspaced : EvenlySpaced (fires expr) period)
    (history : ℤ → List RunEvent) (hnever : ∀ now, NeverRan (history now) kind) :
    ¬ EventuallyTold c (fun now => ⟨schedule, reports, history now⟩) kind := by
  rintro ⟨window, htold⟩
  obtain ⟨now, -, -, hmem⟩ := htold 0
  exact (hnever now).not_told hnext hprev hentry hspaced hmem

theorem sampleFires_spaced : EvenlySpaced (sampleFires "0 8 * * *") 86400000000 := by
  refine ⟨by decide, 28800000000, Set.ext fun o => ⟨fun ho => ⟨o / 86400000000, ?_⟩, ?_⟩⟩
  · have hocc := ho.1
    omega
  · rintro ⟨n, rfl⟩
    exact ⟨by omega, fun h => absurd h (by decide)⟩

theorem sampleDaily_watched : Watched sampleClock sampleDailySchedule [] "daily" "0 8 * * *" := by
  constructor <;> decide

/-- A daily report that never ran is not told in any window. -/
theorem never_run_unreported_sample :
    ¬ EventuallyTold sampleClock (fun _ => ⟨sampleDailySchedule, [], []⟩) "daily" :=
  never_run_unreported sampleClock_next sampleClock_prev (by decide) sampleFires_spaced (fun _ => [])
    fun _ _ hev => absurd hev List.not_mem_nil

/-- Not every report that never runs is told. -/
theorem daily_never_told : ¬ ∀ (c : CronClock) (fires : String → Set ℤ) (offset : ℤ → ℤ) (schedule : Schedule)
    (reports : List String) (kind expr : String) (period : ℤ), c.NextFires fires → c.PrevFires fires offset →
      Watched c schedule reports kind expr → EvenlySpaced (fires expr) period →
        EventuallyTold c (fun _ => ⟨schedule, reports, []⟩) kind := by
  intro htold
  obtain ⟨window, hwindow⟩ := htold sampleClock sampleFires (fun _ => 0) sampleDailySchedule [] "daily" "0 8 * * *"
    86400000000 sampleClock_next sampleClock_prev sampleDaily_watched sampleFires_spaced
  obtain ⟨now, -, -, hmem⟩ := hwindow 0
  have hnever : NeverRan [] "daily" := fun _ hev => absurd hev List.not_mem_nil
  exact hnever.not_told sampleClock_next sampleClock_prev sampleDaily_watched.entry sampleFires_spaced hmem

end Silent

end ProjectManager
