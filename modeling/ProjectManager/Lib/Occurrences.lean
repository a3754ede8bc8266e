import Mathlib.Data.List.Infix
import ProjectManager.Lib.Separators

/-!
# Occurrences

`find` is the place where a marker first occurs in a list, and `occurrences` counts the places.  Both can be read off
a list that is put together from parts, as long as no occurrence lies across a seam (`Apart`).
-/

namespace Occurrences

variable {α : Type} {m a b t : List α}

/-- No occurrence of the marker begins in one part and ends in the other. -/
def Apart (m a b : List α) : Prop :=
  ∀ u v, m = u ++ v → u ≠ [] → v ≠ [] → u <:+ a → v <+: b → False

/-- A part that ends with a foreign element is apart from all that follows. -/
theorem apart_of_last (h : ∀ c ∈ a.getLast?, c ∉ m) (b : List α) : Apart m a b := by
  rintro u v rfl hu - ⟨front, rfl⟩ -
  obtain rfl | ⟨u, c, rfl⟩ := List.eq_nil_or_concat u
  · exact hu rfl
  · exact h c (by simp) (by simp)

/-- A part that begins with a foreign element is apart from all that comes before. -/
theorem apart_of_head (a : List α) (h : ∀ c ∈ b.head?, c ∉ m) : Apart m a b := by
  rintro u v rfl - hv - ⟨rest, rfl⟩
  cases v with
  | nil =>
      exact hv rfl
  | cons c v =>
      exact h c (by simp) (by simp)

/-- What ends with a word that begins like the marker, and does not begin the marker, is apart from all that follows:
the first element of both occurs nowhere else in them. -/
theorem apart_of_word {h : α} {m' k : List α} (hm : h ∉ m') (hk : h ∉ k) (hne : ∀ v, v ≠ [] → h :: m' ≠ h :: k ++ v)
    (x b : List α) : Apart (h :: m') (x ++ h :: k) b := by
  rintro u v hsplit hu hv ⟨y, hy⟩ -
  cases u with
  | nil =>
      exact hu rfl
  | cons c u =>
      obtain ⟨rfl, rfl⟩ := List.cons.inj hsplit
      have hu' : h ∉ u := fun hmem => hm (List.mem_append_left _ hmem)
      obtain ⟨-, rfl⟩ | ⟨mid, -, rfl⟩ | ⟨mid, -, rfl⟩ := Separators.cuts hy
      · exact hne v hv rfl
      · exact hk (by simp)
      · exact hu' (by simp)

/-- What begins like the marker is apart from all that comes before, when the marker has its first element nowhere else. -/
theorem apart_of_first {h : α} {m' : List α} (hm : h ∉ m') (a b : List α) : Apart (h :: m') a (h :: b) := by
  rintro u v hsplit hu hv - ⟨rest, hrest⟩
  cases u with
  | nil =>
      exact hu rfl
  | cons c u =>
      cases v with
      | nil =>
          exact hv rfl
      | cons d v =>
          obtain ⟨rfl, -⟩ := List.cons.inj hrest
          obtain ⟨-, rfl⟩ := List.cons.inj hsplit
          exact hm (by simp)

/-- A list that is apart at a seam occurs on one of its sides. -/
theorem infix_append_of_apart (h : Apart m a b) : m <:+: a ++ b ↔ m <:+: a ∨ m <:+: b := by
  rw [List.infix_append_iff_ne_nil]
  refine or_congr_right (or_iff_left ?_)
  rintro ⟨u, v, hu, hv, hsplit, hua, hvb⟩
  exact h u v hsplit hu hv hua hvb

/-- A foreign element cuts a list in two. -/
theorem infix_cut {c : α} (hc : c ∉ m) (hm : m ≠ []) : m <:+: a ++ c :: b ↔ m <:+: a ∨ m <:+: b := by
  rw [infix_append_of_apart (apart_of_head a (by simpa using hc)), List.infix_cons_iff]
  refine or_congr_right (or_iff_right fun hleads => ?_)
  obtain ⟨d, m', rfl⟩ := List.exists_cons_of_ne_nil hm
  exact hc (by simp [(List.cons_prefix_cons.1 hleads).1])

variable [DecidableEq α]

/-! ### The first place -/

/-- The first place where the marker occurs. -/
def find (m : List α) : List α → Option ℕ
  | [] => if m = [] then some 0 else none
  | c :: t => if m <+: c :: t then some 0 else (find m t).map (· + 1)

theorem find_of_prefix (h : m <+: t) : find m t = some 0 := by
  cases t with
  | nil =>
      rw [find, if_pos (List.prefix_nil.1 h)]
  | cons c t =>
      rw [find, if_pos h]

theorem find_eq_none_iff : find m t = none ↔ ¬ m <:+: t := by
  induction t with
  | nil =>
      simp [find]
  | cons c t ih =>
      rw [find, List.infix_cons_iff]
      split
      · rename_i h
        simp [h]
      · rename_i h
        simp [h, ih]

/-- A place that is found is one where the marker occurs, and the marker occurs nowhere before. -/
theorem find_eq_some {n : ℕ} (h : find m t = some n) :
    ∃ before after, t = before ++ (m ++ after) ∧ before.length = n ∧ ∀ x y, t = x ++ (m ++ y) → n ≤ x.length := by
  induction t generalizing n with
  | nil =>
      unfold find at h
      split at h
      · rename_i hm
        obtain rfl := Option.some.inj h
        exact ⟨[], [], by simp [hm], rfl, fun _ _ _ => Nat.zero_le _⟩
      · cases h
  | cons c t ih =>
      unfold find at h
      split at h
      · rename_i hleads
        obtain ⟨after, hafter⟩ := hleads
        obtain rfl := Option.some.inj h
        exact ⟨[], after, hafter.symm, rfl, fun _ _ _ => Nat.zero_le _⟩
      · rename_i hleads
        obtain ⟨k, hk, rfl⟩ := Option.map_eq_some_iff.1 h
        obtain ⟨before, after, rfl, rfl, hfirst⟩ := ih hk
        refine ⟨c :: before, after, rfl, rfl, fun x y hxy => ?_⟩
        cases x with
        | nil =>
            exact absurd ⟨y, hxy.symm⟩ hleads
        | cons d x =>
            exact Nat.succ_le_succ (hfirst x y (List.cons.inj hxy).2)

/-- A marker is found behind a part that is free of it. -/
theorem find_append (ha : ¬ m <:+: a) (hapart : Apart m a (m ++ b)) : find m (a ++ (m ++ b)) = some a.length := by
  induction a with
  | nil =>
      exact find_of_prefix (List.prefix_append m b)
  | cons c a ih =>
      rw [List.infix_cons_iff, not_or] at ha
      have hrest : Apart m a (m ++ b) := fun u v hm hu hv hsuffix hleads =>
        hapart u v hm hu hv (hsuffix.trans (List.suffix_cons c a)) hleads
      have hnot : ¬ m <+: c :: (a ++ (m ++ b)) := by
        intro hleads
        obtain hshort | ⟨v, hv⟩ := List.prefix_or_prefix_of_prefix hleads
          (show c :: a <+: c :: (a ++ (m ++ b)) from List.prefix_append (c :: a) _)
        · exact ha.1 hshort
        · cases v with
          | nil =>
              exact ha.1 (by rw [← hv, List.append_nil])
          | cons d v =>
              have hacross : c :: a ++ d :: v <+: c :: a ++ (m ++ b) := by
                rw [hv]
                exact hleads
              rw [List.prefix_append_right_inj] at hacross
              exact hapart (c :: a) (d :: v) hv.symm (by simp) (by simp) List.suffix_rfl hacross
      rw [List.cons_append, find, if_neg hnot, ih ha.2 hrest]
      rfl

/-! ### Counting -/

/-- How often the marker occurs. -/
def occurrences (m : List α) : List α → ℕ
  | [] => 0
  | c :: t => (if m <+: c :: t then 1 else 0) + occurrences m t

theorem occurrences_eq_zero_iff (hm : m ≠ []) : occurrences m t = 0 ↔ ¬ m <:+: t := by
  induction t with
  | nil =>
      simp [occurrences, hm]
  | cons c t ih =>
      rw [occurrences, List.infix_cons_iff, not_or, ← ih]
      split
      · rename_i h
        simp [h]
      · rename_i h
        simp [h]

theorem occurrences_append (h : Apart m a b) : occurrences m (a ++ b) = occurrences m a + occurrences m b := by
  induction a with
  | nil =>
      rw [List.nil_append, occurrences, Nat.zero_add]
  | cons c a ih =>
      have hrest : Apart m a b := fun u v hm hu hv hsuffix hleads =>
        h u v hm hu hv (hsuffix.trans (List.suffix_cons c a)) hleads
      have hhead : m <+: c :: (a ++ b) ↔ m <+: c :: a := by
        constructor
        · intro hleads
          obtain hshort | ⟨v, hv⟩ := List.prefix_or_prefix_of_prefix hleads
            (show c :: a <+: c :: (a ++ b) from List.prefix_append (c :: a) b)
          · exact hshort
          · cases v with
            | nil =>
                rw [← hv, List.append_nil]
            | cons d v =>
                rw [← hv, ← List.cons_append, List.prefix_append_right_inj] at hleads
                exact (h (c :: a) (d :: v) hv.symm (by simp) (by simp) List.suffix_rfl hleads).elim
        · exact fun hleads => hleads.trans (List.prefix_append (c :: a) b)
      rw [List.cons_append, occurrences, occurrences, ih hrest]
      simp only [hhead]
      omega

/-- A word that does not begin the marker inside itself occurs once in itself. -/
theorem occurrences_self {h : α} {m' : List α} (hm : h ∉ m') : occurrences (h :: m') (h :: m') = 1 := by
  have hfree : ¬ (h :: m') <:+: m' := by
    intro hpiece
    exact hm (hpiece.subset (by simp))
  rw [occurrences, if_pos List.prefix_rfl, (occurrences_eq_zero_iff (by simp)).2 hfree]

end Occurrences
