import Mathlib.Data.List.Nodup
import Mathlib.Order.Bounds.Defs
import Mathlib.Order.Lattice

/-!
# Schedules

The schedule of an agent, a dict from report kinds to cron strings, and `due_reports`, which says what is due of it at
a time.  Times are of any linear order, and `croniter` is a parameter with what it is documented to do.
-/

namespace ProjectManager

/-! ### Dicts of cron strings -/

/-- A dict from kinds to cron strings, in the order of its keys. -/
structure Schedule where
  entries : List (String × String)
  nodup : (entries.map fun e => e.1).Nodup

namespace Schedule

/-- The keys. -/
def kinds (s : Schedule) : List String :=
  s.entries.map fun e => e.1

/-- The entries after `schedule[kind] = expr`. -/
def setEntries (entries : List (String × String)) (kind expr : String) : List (String × String) :=
  if kind ∈ entries.map fun e => e.1 then
    entries.map fun e => if e.1 = kind then (kind, expr) else e
  else
    entries ++ [(kind, expr)]

theorem setEntries_keys (entries : List (String × String)) (kind expr : String) :
    (setEntries entries kind expr).map (fun e => e.1) =
      if kind ∈ entries.map fun e => e.1 then entries.map fun e => e.1 else (entries.map fun e => e.1) ++ [kind] := by
  unfold setEntries
  split
  · rw [List.map_map]
    refine List.map_congr_left fun e _ => ?_
    simp only [Function.comp_apply]
    split
    case isTrue h =>
      exact h.symm
    case isFalse _ =>
      rfl
  · simp

/-- `schedule[kind] = expr`. -/
def set (s : Schedule) (kind expr : String) : Schedule where
  entries := setEntries s.entries kind expr
  nodup := by
    rw [setEntries_keys]
    split
    · exact s.nodup
    · rename_i hnew
      exact List.nodup_append.2 ⟨s.nodup, by simp, fun a ha b hb heq => hnew (by
        rw [List.mem_singleton.1 hb] at heq
        exact heq ▸ ha)⟩

theorem mem_set {s : Schedule} {kind expr k c : String} :
    (k, c) ∈ (s.set kind expr).entries ↔ k = kind ∧ c = expr ∨ k ≠ kind ∧ (k, c) ∈ s.entries := by
  simp only [set, setEntries]
  split
  case isTrue hmem =>
    constructor
    · intro h
      obtain ⟨e, he, heq⟩ := List.mem_map.1 h
      by_cases hkind : e.1 = kind
      · rw [if_pos hkind] at heq
        cases heq
        exact .inl ⟨rfl, rfl⟩
      · rw [if_neg hkind] at heq
        subst heq
        exact .inr ⟨hkind, he⟩
    · rintro (⟨rfl, rfl⟩ | ⟨hne, he⟩)
      · obtain ⟨e, he, heq⟩ := List.mem_map.1 hmem
        exact List.mem_map.2 ⟨e, he, if_pos heq⟩
      · exact List.mem_map.2 ⟨(k, c), he, if_neg hne⟩
  case isFalse hnew =>
    rw [List.mem_append, List.mem_singleton, Prod.mk.injEq]
    constructor
    · rintro (he | heq)
      · refine .inr ⟨fun hk => hnew ?_, he⟩
        exact hk ▸ List.mem_map_of_mem he
      · exact .inl heq
    · rintro (heq | ⟨-, he⟩)
      · exact .inr heq
      · exact .inl he

/-- A key has one value. -/
theorem value_unique {s : Schedule} {k c c' : String} (h : (k, c) ∈ s.entries) (h' : (k, c') ∈ s.entries) : c = c' :=
  congrArg Prod.snd (List.inj_on_of_nodup_map s.nodup h h' rfl)

end Schedule

/-! ### Due reports -/

/-- What the runtime uses of `croniter`: the check of a string, and the next and the previous fire of one that is
valid. -/
structure Croniter (T : Type) where
  isValid : String → Bool
  getNext : String → T → T
  getPrev : String → T → T

section Due

variable {T : Type} [LinearOrder T]

/-- `get_next` is the least occurrence after its base. -/
def Croniter.NextCorrect (c : Croniter T) (occurrences : String → Set T) : Prop :=
  ∀ expr base, c.isValid expr = true → IsLeast {o | o ∈ occurrences expr ∧ base < o} (c.getNext expr base)

/-- `_SCHEDULED_AUDIENCE`. -/
def scheduledAudience : String :=
  "internal"

/-- `due_reports`. -/
def dueReports (c : Croniter T) (schedule : Schedule) (reports : List String) (now : T) (lastFire : String → Option T) :
    List (String × String) :=
  schedule.entries.filterMap fun e =>
    if reports ≠ [] ∧ e.1 ∉ reports then
      none
    else
      match lastFire e.1 with
      | none => none
      | some base =>
          if c.isValid e.2 = false then
            none
          else if c.getNext e.2 base ≤ now then
            some (e.1, scheduledAudience)
          else
            none

variable {c : Croniter T} {schedule : Schedule} {reports : List String} {now : T} {lastFire : String → Option T}
  {kind audience : String}

/-- The next fire of a valid cron string after the last one is not later than now. -/
structure Fires (c : Croniter T) (expr : String) (base now : T) : Prop where
  valid : c.isValid expr = true
  next : c.getNext expr base ≤ now

theorem mem_dueReports : (kind, audience) ∈ dueReports c schedule reports now lastFire ↔
    audience = scheduledAudience ∧ (reports = [] ∨ kind ∈ reports) ∧ ∃ expr base, (kind, expr) ∈ schedule.entries ∧
      lastFire kind = some base ∧ Fires c expr base now := by
  unfold dueReports
  rw [List.mem_filterMap]
  constructor
  · rintro ⟨⟨k, expr⟩, hentry, h⟩
    dsimp only at h
    split at h
    · cases h
    · rename_i hgate
      split at h
      · cases h
      · rename_i base hbase
        split at h
        · cases h
        · rename_i hvalid
          split at h
          · rename_i hnext
            cases h
            refine ⟨rfl, ?_, expr, base, hentry, hbase, by simpa using hvalid, hnext⟩
            by_cases hreports : reports = []
            · exact .inl hreports
            · exact .inr (not_not.1 fun hmem => hgate ⟨hreports, hmem⟩)
          · cases h
  · rintro ⟨rfl, hgate, expr, base, hentry, hbase, hfires⟩
    refine ⟨(kind, expr), hentry, ?_⟩
    have hnot : ¬ (reports ≠ [] ∧ kind ∉ reports) := by
      rintro ⟨hreports, hmem⟩
      exact hgate.elim hreports hmem
    simp only [hnot, if_false, hbase, hfires.valid, Bool.true_eq_false, hfires.next, if_true]

/-- A kind is due once. -/
theorem dueReports_nodup : ((dueReports c schedule reports now lastFire).map fun e => e.1).Nodup := by
  refine List.Nodup.sublist ?_ schedule.nodup
  unfold dueReports
  induction schedule.entries with
  | nil =>
      exact List.Sublist.slnil
  | cons e rest ih =>
      rw [List.filterMap_cons]
      split
      · exact ih.cons _
      · rename_i e' he'
        have hkey : e'.1 = e.1 := by
          split at he'
          · cases he'
          · split at he'
            · cases he'
            · split at he'
              · cases he'
              · split at he'
                · cases he'
                  rfl
                · cases he'
        rw [List.map_cons, List.map_cons, hkey]
        exact ih.cons_cons _

end Due

end ProjectManager
