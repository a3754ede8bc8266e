import Mathlib.Logic.Function.Basic

/-!
# Pairings

A partner function is paired when the partner of each element's partner is the element itself.  `Paired.release` ends a
pair on both sides; `Paired.clear_iff` and `Paired.link_iff` say when overwriting the partners of one or two elements keeps
a pairing: just when nobody else is left behind.
-/

namespace Pairing

variable {α : Type}

/-- Whoever has a partner is the partner's partner. -/
def Paired (f : α → Option α) : Prop :=
  ∀ a b, f a = some b → f b = some a

theorem paired_none : Paired (fun _ => none : α → Option α) := by
  intro a b h
  cases h

variable [DecidableEq α]

/-- Ends the pair of an element. -/
def release (f : α → Option α) (a : α) (x : α) : Option α :=
  if x = a ∨ f a = some x ∧ f x = some a then none else f x

variable {f : α → Option α} {a b : α}

theorem Paired.release (h : Paired f) (a : α) : Paired (release f a) := by
  intro x y hxy
  unfold Pairing.release at hxy ⊢
  split at hxy
  · cases hxy
  · rename_i hx
    have hyx := h x y hxy
    rw [if_neg, hyx]
    rintro (rfl | ⟨hay, hya⟩)
    · exact hx (.inr ⟨hyx, hxy⟩)
    · exact hx (.inl (Option.some.inj (hyx.symm.trans hya)))

/-- An element may be left alone when it is alone, or paired with itself. -/
theorem Paired.clear_iff (h : Paired f) : Paired (Function.update f a none) ↔ ∀ y, f a = some y → y = a := by
  constructor
  · intro hclear y hy
    by_contra hne
    have hback : Function.update f a none y = some a := by
      rw [Function.update_of_ne hne]
      exact h a y hy
    have hself := hclear y a hback
    rw [Function.update_self] at hself
    cases hself
  · intro halone x y hxy
    by_cases hx : x = a
    · subst hx
      rw [Function.update_self] at hxy
      cases hxy
    · rw [Function.update_of_ne hx] at hxy
      have hyx := h x y hxy
      have hy : y ≠ a := by
        rintro rfl
        exact hx (halone x hyx)
      rw [Function.update_of_ne hy]
      exact hyx

theorem update_update_apply (f : α → Option α) (a b x : α) :
    Function.update (Function.update f a (some b)) b (some a) x =
      if x = b then some a else if x = a then some b else f x := by
  rw [Function.update_apply, Function.update_apply]

/-- Two elements may be paired when neither leaves a third one behind. -/
theorem Paired.link_iff (h : Paired f) : Paired (Function.update (Function.update f a (some b)) b (some a)) ↔
    (∀ y, f a = some y → y = a ∨ y = b) ∧ ∀ y, f b = some y → y = a ∨ y = b := by
  constructor
  · intro hlink
    -- a third one that points at an end would be left behind
    have hthird : ∀ x y, (x = a ∨ x = b) → f x = some y → y = a ∨ y = b := by
      intro x y hx hy
      by_contra hne
      rw [not_or] at hne
      have hback : Function.update (Function.update f a (some b)) b (some a) y = some x := by
        rw [update_update_apply, if_neg hne.2, if_neg hne.1]
        exact h x y hy
      have hend := hlink y x hback
      rw [update_update_apply] at hend
      obtain rfl | rfl := hx
      · split at hend
        · exact hne.1 (Option.some.inj hend).symm
        · rw [if_pos rfl] at hend
          exact hne.2 (Option.some.inj hend).symm
      · rw [if_pos rfl] at hend
        exact hne.1 (Option.some.inj hend).symm
    exact ⟨fun y => hthird a y (.inl rfl), fun y => hthird b y (.inr rfl)⟩
  · rintro ⟨ha, hb⟩ x y hxy
    rw [update_update_apply] at hxy ⊢
    split at hxy
    · rename_i hx
      obtain rfl := Option.some.inj hxy
      subst hx
      split
      · rename_i hy
        rw [hy]
      · rw [if_pos rfl]
    · rename_i hxb
      split at hxy
      · rename_i hx
        obtain rfl := Option.some.inj hxy
        rw [if_pos rfl, hx]
      · rename_i hxa
        have hyx := h x y hxy
        have hya : y ≠ a := by
          rintro rfl
          exact (ha x hyx).elim hxa hxb
        have hyb : y ≠ b := by
          rintro rfl
          exact (hb x hyx).elim hxa hxb
        rw [if_neg hyb, if_neg hya]
        exact hyx

end Pairing
