import Mathlib.Data.List.Infix
import Mathlib.Data.List.Perm.Subperm
import Mathlib.Data.Set.Finite.List
import Mathlib.Logic.Relation
import Mathlib.Order.WellFoundedSet

/-!
# Precedence

A relation between finitely many elements, read as "comes before".  Without a cycle every choice of elements has a
first and a last one (`exists_first`, `exists_last`), and every element comes before some element that nothing comes
after (`exists_end`).  A list in which what an element needs stands behind it shows that there is no cycle
(`InOrder.acyclic`).
-/

namespace Precedence

open Relation

variable {α : Type} {r : α → α → Prop} {l : List α} {a b : α}

/-! ### No cycles -/

/-- No element comes before itself, through any chain. -/
def Acyclic (r : α → α → Prop) : Prop :=
  ∀ a, ¬ TransGen r a a

theorem Acyclic.swap (h : Acyclic r) : Acyclic (Function.swap r) := by
  intro a hcycle
  rw [transGen_swap] at hcycle
  exact h a hcycle

/-- Some element of a list comes after no other of the list. -/
theorem exists_first (h : Acyclic r) (hne : l ≠ []) : ∃ a ∈ l, ∀ b ∈ l, ¬ r b a := by
  have : IsTrans α (TransGen r) := ⟨fun _ _ _ => TransGen.trans⟩
  have : Std.Irrefl (TransGen r) := ⟨h⟩
  have : IsStrictOrder α (TransGen r) := ⟨⟩
  have hwf : {a | a ∈ l}.WellFoundedOn (TransGen r) := l.finite_toSet.wellFoundedOn
  obtain ⟨c, hc⟩ := List.exists_mem_of_ne_nil l hne
  obtain ⟨⟨a, ha⟩, -, hfirst⟩ := hwf.has_min Set.univ ⟨⟨c, hc⟩, trivial⟩
  exact ⟨a, ha, fun b hb hba => hfirst ⟨b, hb⟩ trivial (.single hba)⟩

/-- Some element of a list comes before no other of the list. -/
theorem exists_last (h : Acyclic r) (hne : l ≠ []) : ∃ a ∈ l, ∀ b ∈ l, ¬ r a b :=
  exists_first h.swap hne

/-- Every element comes before one that nothing comes after, unless it is one itself. -/
theorem exists_end (h : Acyclic r) (hmem : ∀ a b, r a b → b ∈ l) (ha : a ∈ l) :
    ∃ b ∈ l, ReflTransGen r a b ∧ ∀ c, ¬ r b c := by
  classical
  -- the last of the elements that are reached
  have hne : (l.filter fun b => decide (ReflTransGen r a b)) ≠ [] :=
    List.ne_nil_of_mem (List.mem_filter.2 ⟨ha, decide_eq_true .refl⟩)
  obtain ⟨b, hb, hlast⟩ := exists_last h hne
  obtain ⟨hbl, hreach⟩ := List.mem_filter.1 hb
  rw [decide_eq_true_iff] at hreach
  refine ⟨b, hbl, hreach, fun c hbc => hlast c ?_ hbc⟩
  exact List.mem_filter.2 ⟨hmem b c hbc, decide_eq_true (hreach.tail hbc)⟩

/-! ### Orders of completion -/

section Orders

variable {needs : α → List α}

/-- What an element needs stands behind it in the list. -/
def InOrder (needs : α → List α) : List α → Prop
  | [] => True
  | a :: l => (∀ b ∈ needs a, b ∈ l) ∧ InOrder needs l

theorem InOrder.mem_of_needs (h : InOrder needs l) (ha : a ∈ l) (hb : b ∈ needs a) : b ∈ l := by
  induction l with
  | nil =>
      cases ha
  | cons c l ih =>
      apply List.mem_cons_of_mem
      obtain rfl | ha := List.mem_cons.1 ha
      · exact h.1 b hb
      · exact ih h.2 ha

/-- What comes before an element of the list is in the list. -/
theorem InOrder.mem_of_before (h : InOrder needs l) (ha : a ∈ l) (hbefore : ReflTransGen (fun b a => b ∈ needs a) b a) :
    b ∈ l := by
  induction hbefore using ReflTransGen.head_induction_on with
  | refl =>
      exact ha
  | head hb _ ih =>
      exact h.mem_of_needs ih hb

/-- Whatever can be listed in this order has no cycle. -/
theorem InOrder.acyclic (h : InOrder needs l) (hnodup : l.Nodup) (hall : ∀ a b, b ∈ needs a → a ∈ l) :
    Acyclic fun b a => b ∈ needs a := by
  suffices hlist : ∀ a ∈ l, ¬ TransGen (fun b a => b ∈ needs a) a a by
    intro a hcycle
    obtain ⟨c, -, hca⟩ := TransGen.tail'_iff.1 hcycle
    exact hlist a (hall a c hca) hcycle
  clear hall
  induction l with
  | nil =>
      simp
  | cons c l ih =>
      obtain ⟨hc, hrest⟩ := List.nodup_cons.1 hnodup
      intro a ha hcycle
      obtain rfl | ha := List.mem_cons.1 ha
      · obtain ⟨b, hab, hb⟩ := TransGen.tail'_iff.1 hcycle
        exact hc (h.2.mem_of_before (h.1 b hb) hab)
      · exact ih h.2 hrest a ha hcycle

end Orders

end Precedence
