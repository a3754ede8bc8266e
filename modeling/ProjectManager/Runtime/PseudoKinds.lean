import Mathlib.Algebra.Order.Ring.Int
import ProjectManager.Runtime.Overdue
import ProjectManager.Runtime.Service

/-!
# Pseudo-kinds and the gate

What folding the pseudo-kinds into a schedule does to the reports of the profile itself.  An empty gate lets every
kind through, but it is not empty any more when a pseudo-kind is added to it.  `own_reports_undisturbed` says that this
is the only way in which a report of the profile is due otherwise than by the profile.
-/

namespace ProjectManager

section Gate

variable {T : Type} [LinearOrder T] (c : Croniter T) (facts : FleetFacts) (loaded : LoadedProfile)

/-- A kind that the profile schedules, and that no pseudo-kind replaces. -/
def OwnKind (kind expr : String) : Prop :=
  (kind, expr) ∈ loaded.schedule.entries ∧ kind ∉ (pseudoKinds facts loaded).map fun e => e.1

/-- What is due under the effective schedule. -/
def dueEffective (now : T) (lastFire : String → Option T) : List (String × String) :=
  dueReports c (effectiveSchedule facts loaded).1 (effectiveSchedule facts loaded).2 now lastFire

/-- At all times the profile's own kinds are due under the effective schedule when they are under the profile's. -/
def Undisturbed : Prop :=
  ∀ (now : T) (lastFire : String → Option T) (kind expr : String), OwnKind facts loaded kind expr →
    ((kind, scheduledAudience) ∈ dueEffective c facts loaded now lastFire ↔
      (kind, scheduledAudience) ∈ dueReports c loaded.schedule loaded.reports now lastFire)

variable {c facts loaded} {kind expr : String} {now : T} {lastFire : String → Option T}

/-- An own kind is due by its own cron string, when the gate lets it through. -/
theorem OwnKind.due_effective (h : OwnKind facts loaded kind expr) :
    (kind, scheduledAudience) ∈ dueEffective c facts loaded now lastFire ↔
      (loaded.reports = [] ∧ pseudoKinds facts loaded = [] ∨ kind ∈ loaded.reports) ∧
        ∃ base, lastFire kind = some base ∧ Fires c expr base now := by
  rw [dueEffective, mem_dueReports, effectiveSchedule_reports]
  have hgate : (loaded.reports ++ (pseudoKinds facts loaded).map (fun e => e.1) = [] ∨
      kind ∈ loaded.reports ++ (pseudoKinds facts loaded).map fun e => e.1) ↔
      (loaded.reports = [] ∧ pseudoKinds facts loaded = [] ∨ kind ∈ loaded.reports) := by
    rw [List.append_eq_nil_iff, List.map_eq_nil_iff, List.mem_append, or_iff_left h.2]
  rw [hgate]
  constructor
  · rintro ⟨-, hopen, expr', base, hentry, hbase, hfires⟩
    rw [effectiveSchedule_entries h.2] at hentry
    rw [Schedule.value_unique hentry h.1] at hfires
    exact ⟨hopen, base, hbase, hfires⟩
  · rintro ⟨hopen, base, hbase, hfires⟩
    exact ⟨rfl, hopen, expr, base, (effectiveSchedule_entries h.2).2 h.1, hbase, hfires⟩

/-- An own kind under the schedule of the profile. -/
theorem OwnKind.due_own (h : OwnKind facts loaded kind expr) :
    (kind, scheduledAudience) ∈ dueReports c loaded.schedule loaded.reports now lastFire ↔
      (loaded.reports = [] ∨ kind ∈ loaded.reports) ∧ ∃ base, lastFire kind = some base ∧ Fires c expr base now := by
  rw [mem_dueReports]
  constructor
  · rintro ⟨-, hopen, expr', base, hentry, hbase, hfires⟩
    rw [Schedule.value_unique hentry h.1] at hfires
    exact ⟨hopen, base, hbase, hfires⟩
  · rintro ⟨hopen, base, hbase, hfires⟩
    exact ⟨rfl, hopen, expr, base, h.1, hbase, hfires⟩

end Gate

/-- The reports of a profile are due as the profile says at all times, exactly when no pseudo-kind is folded in, or
the gate of the profile is not empty, or the profile schedules nothing else by a valid cron string. -/
theorem own_reports_undisturbed {T : Type} [LinearOrder T] [Inhabited T] (c : Croniter T) (facts : FleetFacts)
    (loaded : LoadedProfile) : Undisturbed c facts loaded ↔ pseudoKinds facts loaded = [] ∨ loaded.reports ≠ [] ∨
      ∀ kind expr, OwnKind facts loaded kind expr → c.isValid expr = false := by
  constructor
  · intro hundisturbed
    by_contra hnot
    rw [not_or, not_or, not_not] at hnot
    obtain ⟨hpseudo, hreports, hvalid⟩ := hnot
    refine hvalid fun kind expr hown => ?_
    by_contra hexpr
    have hfires : Fires c expr default (c.getNext expr default) := ⟨by simpa using hexpr, le_rfl⟩
    have hdue : (kind, scheduledAudience) ∈ dueReports c loaded.schedule loaded.reports (c.getNext expr default)
        fun _ => some default := hown.due_own.2 ⟨.inl hreports, _, rfl, hfires⟩
    obtain ⟨hopen, -⟩ := hown.due_effective.1 ((hundisturbed _ _ kind expr hown).2 hdue)
    rcases hopen with ⟨-, hnone⟩ | hmem
    · exact hpseudo hnone
    · simp [hreports] at hmem
  · rintro hcases now lastFire kind expr hown
    rw [hown.due_effective, hown.due_own]
    rcases hcases with hpseudo | hreports | hvalid
    · simp only [hpseudo, and_true]
    · simp only [hreports, false_and]
    · constructor
      · rintro ⟨-, base, -, hfires⟩
        cases (hvalid kind expr hown).symm.trans hfires.valid
      · rintro ⟨-, base, -, hfires⟩
        cases (hvalid kind expr hown).symm.trans hfires.valid

/-- Times in minutes since a midnight; every cron string fires at eight o'clock. -/
def dailyCroniter : Croniter ℤ where
  isValid := fun _ => true
  getNext := fun _ base => ((base - 480) / 1440 + 1) * 1440 + 480
  getPrev := fun _ base => -((480 - base) / 1440 + 1) * 1440 + 480

/-- A profile with a daily report, no gate and a Slack inbox. -/
def sampleInboxProfile : LoadedProfile where
  profileId := "dev"
  enabled := true
  schedule := sampleDailySchedule
  reports := []
  domain := "pm"
  slackPoll := some 5
  telegramPoll := none

/-- With its inbox, the profile stops its daily report. -/
theorem inbox_stops_report :
    ¬ ∀ (facts : FleetFacts) (loaded : LoadedProfile), Undisturbed dailyCroniter facts loaded := by
  intro hundisturbed
  have hown : OwnKind ⟨none, fun _ => false⟩ sampleInboxProfile "daily" "0 8 * * *" := by
    constructor <;> decide
  have hdue := (hundisturbed _ _ 500 (fun _ => some 400) _ _ hown).2 (by decide)
  revert hdue
  decide

end ProjectManager
