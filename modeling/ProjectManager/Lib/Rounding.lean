import Mathlib.Algebra.Order.Floor.Ring
import Mathlib.Algebra.Order.Ring.Rat
import Mathlib.Data.Rat.Floor
import Mathlib.Tactic.FieldSimp
import Mathlib.Tactic.Linarith
import Mathlib.Tactic.Positivity

/-!
# Decimal rounding

Rounding to a number of decimals, ties to even.  `abs_roundTo_sub_le` bounds the error by half a unit of the
last place, and `roundTo_of_units` says that a number of whole units stays.
-/

namespace Rounding

variable {α : Type} [Field α] [LinearOrder α] [IsStrictOrderedRing α] [FloorRing α]

/-- The nearest integer, ties to even. -/
def halfEven (x : α) : ℤ :=
  if x - ⌊x⌋ < 1 / 2 then
    ⌊x⌋
  else if 1 / 2 < x - ⌊x⌋ then
    ⌊x⌋ + 1
  else if ⌊x⌋ % 2 = 0 then
    ⌊x⌋
  else
    ⌊x⌋ + 1

/-- Rounding to a number of decimals. -/
def roundTo (decimals : ℕ) (x : α) : α :=
  halfEven (x * 10 ^ decimals) / 10 ^ decimals

theorem abs_halfEven_sub_le (x : α) : |(halfEven x : α) - x| ≤ 1 / 2 := by
  have hlo : (⌊x⌋ : α) ≤ x := Int.floor_le x
  have hhi : x < ⌊x⌋ + 1 := Int.lt_floor_add_one x
  have hdown : ¬ 1 / 2 < x - ⌊x⌋ → |((⌊x⌋ : ℤ) : α) - x| ≤ 1 / 2 := by
    intro h
    rw [abs_le]
    constructor <;> linarith
  have hup : ¬ x - ⌊x⌋ < 1 / 2 → |((⌊x⌋ + 1 : ℤ) : α) - x| ≤ 1 / 2 := by
    intro h
    push_cast
    rw [abs_le]
    constructor <;> linarith
  unfold halfEven
  split
  case isTrue h =>
    exact hdown (by linarith)
  case isFalse hge =>
    split
    case isTrue =>
      exact hup hge
    case isFalse hle =>
      split
      · exact hdown hle
      · exact hup hge

theorem halfEven_intCast (n : ℤ) : halfEven (n : α) = n := by
  unfold halfEven
  rw [if_pos]
  · exact Int.floor_intCast n
  · rw [Int.floor_intCast, sub_self]
    norm_num

/-- The rounding error is at most half a unit of the last place. -/
theorem abs_roundTo_sub_le (decimals : ℕ) (x : α) : |roundTo decimals x - x| ≤ 1 / 2 / 10 ^ decimals := by
  have hpos : (0 : α) < 10 ^ decimals := by positivity
  have hscale : roundTo decimals x - x = ((halfEven (x * 10 ^ decimals) : α) - x * 10 ^ decimals) / 10 ^ decimals := by
    unfold roundTo
    field_simp
  rw [hscale, abs_div, abs_of_pos hpos]
  exact div_le_div_of_nonneg_right (abs_halfEven_sub_le _) hpos.le

/-- A number of whole units of the last place. -/
def Units (decimals : ℕ) (x : α) : Prop :=
  ∃ n : ℤ, x * 10 ^ decimals = n

omit [LinearOrder α] [IsStrictOrderedRing α] [FloorRing α] in
theorem Units.zero {decimals : ℕ} : Units decimals (0 : α) :=
  ⟨0, by simp⟩

omit [LinearOrder α] [IsStrictOrderedRing α] [FloorRing α] in
theorem Units.add {decimals : ℕ} {x y : α} (hx : Units decimals x) (hy : Units decimals y) : Units decimals (x + y) := by
  obtain ⟨m, hm⟩ := hx
  obtain ⟨n, hn⟩ := hy
  exact ⟨m + n, by rw [add_mul, hm, hn]; push_cast; rfl⟩

/-- Whole units are not rounded. -/
theorem roundTo_of_units {decimals : ℕ} {x : α} (h : Units decimals x) : roundTo decimals x = x := by
  have hpos : (0 : α) < 10 ^ decimals := by positivity
  obtain ⟨n, hn⟩ := h
  unfold roundTo
  rw [hn, halfEven_intCast, ← hn]
  field_simp

end Rounding
