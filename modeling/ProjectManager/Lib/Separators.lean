import Mathlib.Data.List.Infix

/-!
# Separators

Lists that are put together with a separator between their parts.  A list with several separators can be cut at any
of them (`cuts`); it can be cut at one place only when a part is known to be free of them (`cut_first`, `cut_last`),
and so with the words of a join (`intercalate_inj`).
-/

namespace Separators

variable {α : Type} {c : α} {s s' rest rest' : List α}

/-- Two cuts of one list are the same cut, or one comes before the other. -/
theorem cuts (h : s ++ c :: rest = s' ++ c :: rest') : (s = s' ∧ rest = rest') ∨
    (∃ mid, s = s' ++ c :: mid ∧ rest' = mid ++ c :: rest) ∨ ∃ mid, s' = s ++ c :: mid ∧ rest = mid ++ c :: rest' := by
  obtain ⟨mid, hs, hrest⟩ | ⟨mid, hs, hrest⟩ := List.append_eq_append_iff.1 h
  · cases mid with
    | nil =>
        rw [List.append_nil] at hs
        exact .inl ⟨hs.symm, (List.cons.inj hrest).2⟩
    | cons d mid =>
        obtain ⟨rfl, hmid⟩ := List.cons.inj hrest
        exact .inr (.inr ⟨mid, hs, hmid⟩)
  · cases mid with
    | nil =>
        rw [List.append_nil] at hs
        exact .inl ⟨hs, (List.cons.inj hrest).2.symm⟩
    | cons d mid =>
        obtain ⟨rfl, hmid⟩ := List.cons.inj hrest
        exact .inr (.inl ⟨mid, hs, hmid⟩)

/-- The first separator is one place. -/
theorem cut_first (hs : c ∉ s) (hs' : c ∉ s') (h : s ++ c :: rest = s' ++ c :: rest') : s = s' ∧ rest = rest' := by
  obtain hsame | ⟨mid, rfl, -⟩ | ⟨mid, rfl, -⟩ := cuts h
  · exact hsame
  · exact absurd (by simp) hs
  · exact absurd (by simp) hs'

/-- The only separator is one place. -/
theorem cut_only (hs : c ∉ s) (hrest : c ∉ rest) (h : s ++ c :: rest = s' ++ c :: rest') : s = s' ∧ rest = rest' := by
  obtain hsame | ⟨mid, rfl, -⟩ | ⟨mid, -, rfl⟩ := cuts h
  · exact hsame
  · exact absurd (by simp) hs
  · exact absurd (by simp) hrest

/-- The last separator with something behind it is one place: another cut is the same one, or comes before it. -/
theorem cut_last (hrest : c ∉ rest.dropLast) (hne : rest' ≠ []) (h : s ++ c :: rest = s' ++ c :: rest') :
    (s = s' ∧ rest = rest') ∨ ∃ mid, s = s' ++ c :: mid ∧ rest' = mid ++ c :: rest := by
  obtain hsame | hbefore | ⟨mid, -, rfl⟩ := cuts h
  · exact .inl hsame
  · exact .inr hbefore
  · refine absurd ?_ hrest
    rw [List.dropLast_append_of_ne_nil (by simp), List.dropLast_cons_of_ne_nil hne]
    simp

/-! ### Joins -/

section Joins

variable {sep : α} {w : List α} {ws ws' : List (List α)}

theorem mem_intercalate_two (w w' : List α) (ws : List (List α)) : sep ∈ [sep].intercalate (w :: w' :: ws) := by
  rw [List.intercalate_cons_cons]
  simp

theorem mem_of_mem_intercalate {c : α} (h : c ∈ [sep].intercalate ws) : c = sep ∨ ∃ w ∈ ws, c ∈ w := by
  induction ws with
  | nil =>
      simp at h
  | cons w ws ih =>
      cases ws with
      | nil =>
          rw [List.intercalate_singleton] at h
          exact .inr ⟨w, by simp, h⟩
      | cons w' ws =>
          rw [List.intercalate_cons_cons, List.append_assoc, List.mem_append, List.singleton_append, List.mem_cons] at h
          obtain h | h | h := h
          · exact .inr ⟨w, by simp, h⟩
          · exact .inl h
          · obtain h | ⟨v, hv, hc⟩ := ih h
            · exact .inl h
            · exact .inr ⟨v, List.mem_cons_of_mem _ hv, hc⟩

/-- A join without a separator is a join of one word. -/
theorem intercalate_eq_word (hw : w ≠ []) (hsep : sep ∉ w) (h : [sep].intercalate ws = w) : ws = [w] := by
  subst h
  cases ws with
  | nil =>
      exact absurd rfl hw
  | cons v ws =>
      cases ws with
      | nil =>
          rw [List.intercalate_singleton]
      | cons v' ws =>
          exact absurd (mem_intercalate_two v v' ws) hsep

/-- The words of a join can be read off when none of them has the separator in it. -/
theorem intercalate_inj [DecidableEq α] (hne : ws ≠ []) (hne' : ws' ≠ []) (hws : ∀ w ∈ ws, sep ∉ w)
    (hws' : ∀ w ∈ ws', sep ∉ w) (h : [sep].intercalate ws = [sep].intercalate ws') : ws = ws' := by
  rw [← List.splitOn_intercalate sep hws hne, h, List.splitOn_intercalate sep hws' hne']

end Joins

end Separators
