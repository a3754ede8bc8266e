import Mathlib.Data.List.Induction
import ProjectManager.Lib.OrderedMap

/-!
# Grouping rows by a key

`groupRows` walks over rows and keeps one accumulator for each key: a key that is new gets a fresh accumulator made of
its first row, and every row, the first one included, is added to the accumulator of its key.  `get?_groupRows` says
that the accumulator of a key has seen the rows of that key, in their order, and no others.
-/

section Grouping

variable {α κ ν : Type} [DecidableEq κ] (key : α → κ) (fresh : α → ν) (add : ν → α → ν)

/-- Adds one row to the accumulator of its key. -/
def groupRow (groups : OrderedMap κ ν) (row : α) : OrderedMap κ ν :=
  (groups.ensure (key row) (fresh row)).modify (key row) fun acc => add acc row

/-- The accumulators of a list of rows. -/
def groupRows (rows : List α) : OrderedMap κ ν :=
  rows.foldl (groupRow key fresh add) .empty

/-- The accumulator that has seen the rows of one group. -/
def gathered : List α → Option ν
  | [] => none
  | row :: rows => some ((row :: rows).foldl add (fresh row))

theorem gathered_append (rows : List α) (row : α) :
    gathered fresh add (rows ++ [row]) = some (add ((gathered fresh add rows).getD (fresh row)) row) := by
  cases rows with
  | nil => rfl
  | cons first rest => simp [gathered]

variable {key fresh add}

theorem groupRows_append (rows : List α) (row : α) :
    groupRows key fresh add (rows ++ [row]) = groupRow key fresh add (groupRows key fresh add rows) row := by
  simp [groupRows]

/-- The accumulator of a key has seen the rows of that key. -/
theorem get?_groupRows (rows : List α) (k : κ) :
    (groupRows key fresh add rows).get? k = gathered fresh add (rows.filter fun row => decide (key row = k)) := by
  induction rows using List.reverseRecOn with
  | nil => rfl
  | append_singleton rows row ih =>
      rw [groupRows_append, List.filter_append, groupRow, OrderedMap.get?_modify]
      by_cases hk : k = key row
      · subst hk
        rw [if_pos rfl, OrderedMap.get?_ensure, if_pos rfl, ih]
        simp [gathered_append]
      · have hmiss : [row].filter (fun r => decide (key r = k)) = [] := by
          simp [Ne.symm hk]
        rw [if_neg hk, OrderedMap.get?_ensure, if_neg hk, ih, hmiss, List.append_nil]

/-- The keys of the groups are the keys of the rows. -/
theorem mem_keys_groupRows {rows : List α} {k : κ} :
    k ∈ (groupRows key fresh add rows).keys ↔ ∃ row ∈ rows, key row = k := by
  rw [← OrderedMap.get?_isSome, get?_groupRows]
  constructor
  · intro hsome
    cases hrows : rows.filter fun row => decide (key row = k) with
    | nil =>
        rw [hrows] at hsome
        cases hsome
    | cons row rest =>
        have hmem : row ∈ rows.filter fun row => decide (key row = k) := by
          rw [hrows]
          exact List.mem_cons_self
        rw [List.mem_filter, decide_eq_true_eq] at hmem
        exact ⟨row, hmem⟩
  · rintro ⟨row, hrow, hkey⟩
    have hmem : row ∈ rows.filter fun row => decide (key row = k) :=
      List.mem_filter.2 ⟨hrow, decide_eq_true hkey⟩
    cases hrows : rows.filter fun row => decide (key row = k) with
    | nil =>
        rw [hrows] at hmem
        cases hmem
    | cons => rfl

/-- What holds of a fresh accumulator and is kept by every row of its group holds of every accumulator.  The property
sees the rows that have been added; `p` is what all rows of the group have. -/
theorem gathered_induction {p : α → Prop} {motive : List α → ν → Prop} (hfresh : ∀ row, p row → motive [] (fresh row))
    (hadd : ∀ rows acc row, motive rows acc → motive (rows ++ [row]) (add acc row)) {rows : List α}
    (hrows : ∀ row ∈ rows, p row) {acc : ν} (h : gathered fresh add rows = some acc) : motive rows acc := by
  induction rows using List.reverseRecOn generalizing acc with
  | nil => cases h
  | append_singleton rows row ih =>
      rw [gathered_append] at h
      obtain rfl := Option.some.inj h
      apply hadd
      cases hacc : gathered fresh add rows with
      | some old => exact ih (fun r hr => hrows r (List.mem_append_left _ hr)) hacc
      | none =>
          cases rows with
          | nil => exact hfresh row (hrows row List.mem_cons_self)
          | cons => cases hacc

end Grouping
