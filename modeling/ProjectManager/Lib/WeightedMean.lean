import Mathlib.Algebra.BigOperators.Ring.List
import Mathlib.Algebra.Order.BigOperators.Group.List
import Mathlib.Algebra.Order.Field.Basic
import Mathlib.Data.List.MinMax
import Mathlib.Tactic.FieldSimp
import Mathlib.Tactic.Linarith
import Mathlib.Tactic.Positivity
import Mathlib.Tactic.Ring

/-!
# Means and weighted means

The plain mean of a list lies between two of its members (`exists_le_mean`, `exists_mean_le`).  A weighted mean with
weights of any sign need not: `le_weighted_iff` says that a number is a lower bound of it exactly when the members whose
weight opposes the total do not pull it below, and `weighted_eq_mean_iff` that it is the plain mean exactly when the
weights do not go along with the values.  Weights of one sign never oppose (`exists_le_weighted_of_agree`).
-/

namespace Mean

variable {ι K : Type} [Field K] [LinearOrder K] [IsStrictOrderedRing K]

/-- The plain mean. -/
def mean (l : List ι) (p : ι → K) : K :=
  (l.map p).sum / l.length

/-- The sum of the weights. -/
def totalWeight (l : List ι) (w : ι → K) : K :=
  (l.map w).sum

/-- The weighted mean. -/
def weighted (l : List ι) (w p : ι → K) : K :=
  (l.map fun x => p x * w x).sum / totalWeight l w

/-- The weighted distance of the members from `c`. -/
def moment (l : List ι) (w p : ι → K) (c : K) : K :=
  (l.map fun x => w x * (p x - c)).sum

/-- The weight has the other sign than `W`. -/
def Opposed (W : K) (w : ι → K) (x : ι) : Prop :=
  W * w x < 0

instance (W : K) (w : ι → K) (x : ι) : Decidable (Opposed W w x) :=
  inferInstanceAs (Decidable (W * w x < 0))

/-- How far the members whose weight opposes the total stand above `c`, each counted as often as its weight says. -/
def opposedPull (l : List ι) (w p : ι → K) (c : K) : K :=
  moment (l.filter fun x => decide (Opposed (totalWeight l w) w x)) (fun x => |w x|) p c

/-- How far the other members stand above `c`. -/
def agreedPull (l : List ι) (w p : ι → K) (c : K) : K :=
  moment (l.filter fun x => !decide (Opposed (totalWeight l w) w x)) (fun x => |w x|) p c

variable {l : List ι} {w p : ι → K} {c : K}

/-! ### The plain mean -/

theorem length_pos_of_ne_nil (h : l ≠ []) : (0 : K) < l.length := by
  have : 0 < l.length := List.length_pos_of_ne_nil h
  exact_mod_cast this

omit [LinearOrder K] [IsStrictOrderedRing K] in
theorem sum_const (l : List ι) (c : K) : (l.map fun _ => c).sum = l.length * c := by
  rw [List.map_const', List.sum_replicate, nsmul_eq_mul]

theorem length_mul_mean (h : l ≠ []) : l.length * mean l p = (l.map p).sum := by
  have := (length_pos_of_ne_nil (K := K) h).ne'
  unfold mean
  field_simp

/-- Some member is at most the mean. -/
theorem exists_le_mean (h : l ≠ []) : ∃ x ∈ l, p x ≤ mean l p := by
  apply List.exists_le_of_sum_le h
  rw [sum_const, length_mul_mean h]

/-- Some member is at least the mean. -/
theorem exists_mean_le (h : l ≠ []) : ∃ x ∈ l, mean l p ≤ p x := by
  apply List.exists_le_of_sum_le h
  rw [sum_const, length_mul_mean h]

/-! ### The weighted mean -/

omit [LinearOrder K] [IsStrictOrderedRing K] in
theorem moment_eq (l : List ι) (w p : ι → K) (c : K) :
    moment l w p c = (l.map fun x => p x * w x).sum - c * totalWeight l w := by
  induction l with
  | nil => simp [moment, totalWeight]
  | cons x l ih =>
      simp only [moment, totalWeight, List.map_cons, List.sum_cons] at ih ⊢
      rw [ih]
      ring

omit [LinearOrder K] [IsStrictOrderedRing K] in
/-- The distance of the weighted mean from `c` is the moment over the total weight. -/
theorem weighted_sub (hW : totalWeight l w ≠ 0) : weighted l w p - c = moment l w p c / totalWeight l w := by
  rw [moment_eq, sub_div, mul_div_cancel_right₀ _ hW]
  rfl

/-- The moment splits into what the agreeing and what the opposing weights contribute. -/
theorem total_mul_moment (l' : List ι) (W : K) (w p : ι → K) (c : K) :
    W * moment l' w p c =
      |W| * (moment (l'.filter fun x => !decide (Opposed W w x)) (fun x => |w x|) p c -
        moment (l'.filter fun x => decide (Opposed W w x)) (fun x => |w x|) p c) := by
  induction l' with
  | nil => simp [moment]
  | cons x l' ih =>
      have hsplit : W * moment (x :: l') w p c = W * w x * (p x - c) + W * moment l' w p c := by
        simp only [moment, List.map_cons, List.sum_cons]
        ring
      by_cases hx : Opposed W w x
      · have hsign : W * w x = -(|W| * |w x|) := by
          rw [← abs_mul, abs_of_neg hx, neg_neg]
        rw [hsplit, ih, hsign]
        simp only [List.filter_cons, hx, decide_true, Bool.not_true, moment, List.map_cons, List.sum_cons, if_true]
        simp only [Bool.false_eq_true, if_false]
        ring
      · have hsign : W * w x = |W| * |w x| := by
          rw [← abs_mul, abs_of_nonneg (not_lt.1 hx)]
        rw [hsplit, ih, hsign]
        simp only [List.filter_cons, hx, decide_false, Bool.not_false, moment, List.map_cons, List.sum_cons, if_true]
        simp only [Bool.false_eq_true, if_false]
        ring

theorem weighted_sub_mul (hW : totalWeight l w ≠ 0) :
    (weighted l w p - c) * |totalWeight l w| = agreedPull l w p c - opposedPull l w p c := by
  have habs : |totalWeight l w| ≠ 0 := abs_ne_zero.2 hW
  have hsplit := total_mul_moment l (totalWeight l w) w p c
  have hsquare : totalWeight l w * totalWeight l w = |totalWeight l w| * |totalWeight l w| :=
    (abs_mul_abs_self _).symm
  rw [weighted_sub hW]
  apply mul_left_cancel₀ habs
  calc |totalWeight l w| * (moment l w p c / totalWeight l w * |totalWeight l w|)
      = totalWeight l w * totalWeight l w * (moment l w p c / totalWeight l w) := by
        rw [hsquare]
        ring
    _ = totalWeight l w * moment l w p c := by
        field_simp
    _ = |totalWeight l w| * (agreedPull l w p c - opposedPull l w p c) := hsplit

/-- `c` is at most the weighted mean exactly when the opposing members do not stand further above it than the others. -/
theorem le_weighted_iff (hW : totalWeight l w ≠ 0) :
    c ≤ weighted l w p ↔ opposedPull l w p c ≤ agreedPull l w p c := by
  have hpos : 0 < |totalWeight l w| := abs_pos.2 hW
  rw [← sub_nonneg, ← mul_nonneg_iff_of_pos_right hpos, weighted_sub_mul hW, sub_nonneg]

/-- The same for upper bounds. -/
theorem weighted_le_iff (hW : totalWeight l w ≠ 0) :
    weighted l w p ≤ c ↔ agreedPull l w p c ≤ opposedPull l w p c := by
  have hpos : 0 < |totalWeight l w| := abs_pos.2 hW
  have hflip : (c - weighted l w p) * |totalWeight l w| = opposedPull l w p c - agreedPull l w p c := by
    rw [← neg_sub, neg_mul, weighted_sub_mul hW, neg_sub]
  rw [← sub_nonneg, ← mul_nonneg_iff_of_pos_right hpos, hflip, sub_nonneg]

omit [LinearOrder K] [IsStrictOrderedRing K] in
/-- The weighted mean is the plain mean exactly when the weights have no moment about it. -/
theorem weighted_eq_mean_iff (hW : totalWeight l w ≠ 0) :
    weighted l w p = mean l p ↔ moment l w p (mean l p) = 0 := by
  rw [← sub_eq_zero, weighted_sub hW, div_eq_zero_iff]
  exact or_iff_left hW

/-! ### Weights of one sign -/

theorem moment_nonneg {w : ι → K} (hw : ∀ x ∈ l, 0 ≤ w x) (hc : ∀ x ∈ l, c ≤ p x) : 0 ≤ moment l w p c := by
  apply List.sum_nonneg
  intro a ha
  obtain ⟨x, hx, rfl⟩ := List.mem_map.1 ha
  exact mul_nonneg (hw x hx) (sub_nonneg.2 (hc x hx))

theorem moment_nonpos {w : ι → K} (hw : ∀ x ∈ l, 0 ≤ w x) (hc : ∀ x ∈ l, p x ≤ c) : moment l w p c ≤ 0 := by
  calc moment l w p c ≤ (l.map fun _ => (0 : K)).sum :=
        List.sum_le_sum fun x hx => mul_nonpos_of_nonneg_of_nonpos (hw x hx) (sub_nonpos.2 (hc x hx))
    _ = 0 := by rw [sum_const, mul_zero]

omit [Field K] [IsStrictOrderedRing K] in
/-- A list that is not empty has a least member. -/
theorem exists_least (h : l ≠ []) (p : ι → K) : ∃ x ∈ l, ∀ y ∈ l, p x ≤ p y := by
  cases hmin : l.argmin p with
  | none => exact absurd (List.argmin_eq_none.1 hmin) h
  | some x => exact ⟨x, List.argmin_mem hmin, fun y hy => List.le_of_mem_argmin hy hmin⟩

omit [Field K] [IsStrictOrderedRing K] in
/-- A list that is not empty has a greatest member. -/
theorem exists_greatest (h : l ≠ []) (p : ι → K) : ∃ x ∈ l, ∀ y ∈ l, p y ≤ p x :=
  exists_least (K := OrderDual K) h p

omit [IsStrictOrderedRing K] in
theorem opposedPull_of_agree (hagree : ∀ x ∈ l, ¬ Opposed (totalWeight l w) w x) : opposedPull l w p c = 0 := by
  have hnone : l.filter (fun x => decide (Opposed (totalWeight l w) w x)) = [] :=
    List.filter_eq_nil_iff.2 fun y hy => by simpa using hagree y hy
  simp [opposedPull, hnone, moment]

/-- Weights of one sign do not oppose their total. -/
theorem not_opposed (hw : (∀ x ∈ l, 0 ≤ w x) ∨ ∀ x ∈ l, w x ≤ 0) : ∀ x ∈ l, ¬ Opposed (totalWeight l w) w x := by
  intro x hx
  apply not_lt.2
  obtain hw | hw := hw
  · apply mul_nonneg _ (hw x hx)
    apply List.sum_nonneg
    intro a ha
    obtain ⟨y, hy, rfl⟩ := List.mem_map.1 ha
    exact hw y hy
  · apply mul_nonneg_of_nonpos_of_nonpos _ (hw x hx)
    calc totalWeight l w ≤ (l.map fun _ => (0 : K)).sum := List.sum_le_sum hw
      _ = 0 := by rw [sum_const, mul_zero]

/-- When no weight opposes the total, the least member bounds the weighted mean from below. -/
theorem exists_le_weighted_of_agree (h : l ≠ []) (hagree : ∀ x ∈ l, ¬ Opposed (totalWeight l w) w x) :
    ∃ x ∈ l, opposedPull l w p (p x) ≤ agreedPull l w p (p x) := by
  obtain ⟨x, hx, hleast⟩ := exists_least h p
  refine ⟨x, hx, ?_⟩
  rw [opposedPull_of_agree hagree]
  apply moment_nonneg fun y _ => abs_nonneg (w y)
  exact fun y hy => hleast y (List.mem_of_mem_filter hy)

/-- When no weight opposes the total, the greatest member bounds it from above. -/
theorem exists_weighted_le_of_agree (h : l ≠ []) (hagree : ∀ x ∈ l, ¬ Opposed (totalWeight l w) w x) :
    ∃ x ∈ l, agreedPull l w p (p x) ≤ opposedPull l w p (p x) := by
  obtain ⟨x, hx, hgreatest⟩ := exists_greatest h p
  refine ⟨x, hx, ?_⟩
  rw [opposedPull_of_agree hagree]
  apply moment_nonpos fun y _ => abs_nonneg (w y)
  exact fun y hy => hgreatest y (List.mem_of_mem_filter hy)

end Mean
