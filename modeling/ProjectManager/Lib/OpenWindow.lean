import Mathlib.Algebra.Order.Group.Defs
import Mathlib.Algebra.Order.Group.Unbundled.Basic
import Mathlib.Data.List.Basic
import Mathlib.Data.List.Induction
import Mathlib.Data.List.Pairwise

/-!
# Half-open windows

A list of times that do not go back has at most `max` members in every stretch `[lo, lo + width)` just when each of
them finds fewer than `max` others less than `width` before it (`bounded_iff`).  Dropping what has left the window at
one time changes nothing for a later one (`recent_recent`), so a limiter may forget it.
-/

namespace OpenWindow

variable {τ : Type*} [AddCommGroup τ] [LinearOrder τ]

/-- The times less than `width` before `now`. -/
def recent (width now : τ) (times : List τ) : List τ :=
  times.filter fun t => decide (now - t < width)

/-- How many of the times lie in `[lo, lo + width)`. -/
def countFrom (width : τ) (times : List τ) (lo : τ) : ℕ :=
  (times.filter fun t => decide (lo ≤ t) && decide (t < lo + width)).length

variable {width now : τ} {times more : List τ} {max : ℕ}

theorem recent_append : recent width now (times ++ more) = recent width now times ++ recent width now more :=
  List.filter_append ..

theorem countFrom_append (lo : τ) :
    countFrom width (times ++ more) lo = countFrom width times lo + countFrom width more lo := by
  simp [countFrom, List.filter_append]

/-- A part of the times has no more of them. -/
theorem countFrom_le_of_sublist (h : more.Sublist times) (lo : τ) : countFrom width more lo ≤ countFrom width times lo :=
  (h.filter _).length_le

theorem mem_recent {t : τ} : t ∈ recent width now times ↔ t ∈ times ∧ now - t < width := by
  simp [recent]

variable [IsOrderedAddMonoid τ]

/-- What is recent at a later time was recent before. -/
theorem recent_recent {before : τ} (h : before ≤ now) :
    recent width now (recent width before times) = recent width now times := by
  unfold recent
  rw [List.filter_filter]
  refine List.filter_congr fun t _ => ?_
  have hle : before - t ≤ now - t := sub_le_sub_right h t
  by_cases ht : now - t < width
  · simp [ht, hle.trans_lt ht]
  · simp [ht]

/-- Among times that have come, what a stretch with `now` has is recent. -/
theorem countFrom_le_recent {lo : τ} (hnow : now < lo + width) :
    countFrom width times lo ≤ (recent width now times).length := by
  unfold countFrom recent
  refine (List.monotone_filter_right _ fun t ht => ?_).length_le
  simp only [Bool.and_eq_true, decide_eq_true_eq] at ht ⊢
  exact sub_lt_iff_lt_add'.2 (hnow.trans_le (add_le_add_left ht.1 width))

/-- A stretch with `now` begins where the recent times begin. -/
theorem exists_begin (hsorted : times.Pairwise (· ≤ ·)) (hnow : ∀ t ∈ times, t ≤ now) (hwidth : 0 < width) :
    ∃ lo ≤ now, now < lo + width ∧ ∀ t ∈ times, lo ≤ t ↔ now - t < width := by
  cases hrecent : recent width now times with
  | nil =>
      refine ⟨now, le_rfl, lt_add_of_pos_right now hwidth, fun t ht => ?_⟩
      have hold : ¬ now - t < width := by
        intro h
        have hmem : t ∈ recent width now times := mem_recent.2 ⟨ht, h⟩
        rw [hrecent] at hmem
        cases hmem
      refine iff_of_false (fun hle => hold ?_) hold
      rwa [le_antisymm (hnow t ht) hle, sub_self]
  | cons a rest =>
      have ha : a ∈ times ∧ now - a < width := by
        apply mem_recent.1
        rw [hrecent]
        exact List.mem_cons_self
      refine ⟨a, hnow a ha.1, sub_lt_iff_lt_add'.1 ha.2, fun t ht => ⟨fun hle => ?_, fun h => ?_⟩⟩
      · exact (sub_le_sub_left hle now).trans_lt ha.2
      · have hmem : t ∈ recent width now times := mem_recent.2 ⟨ht, h⟩
        have hfirst : (recent width now times).Pairwise (· ≤ ·) := hsorted.sublist List.filter_sublist
        rw [hrecent] at hmem hfirst
        obtain rfl | hrest := List.mem_cons.1 hmem
        · exact le_rfl
        · exact (List.pairwise_cons.1 hfirst).1 t hrest

/-- That stretch has all recent times and the present. -/
theorem exists_countFrom (hsorted : times.Pairwise (· ≤ ·)) (hnow : ∀ t ∈ times, t ≤ now) (hwidth : 0 < width) :
    ∃ lo, countFrom width (times ++ [now]) lo = (recent width now times).length + 1 := by
  obtain ⟨lo, hlo, hhi, hbegin⟩ := exists_begin hsorted hnow hwidth
  refine ⟨lo, ?_⟩
  have hold : countFrom width times lo = (recent width now times).length := by
    unfold countFrom recent
    refine congrArg List.length (List.filter_congr fun t ht => ?_)
    have hbefore : t < lo + width := (hnow t ht).trans_lt hhi
    simp [hbegin t ht, hbefore]
  have hone : countFrom width [now] lo = 1 := by
    simp [countFrom, hlo, hhi]
  rw [countFrom_append, hold, hone]

/-- Every stretch has at most `max` of the times just when each finds fewer than `max` recent ones. -/
theorem bounded_iff (hsorted : times.Pairwise (· ≤ ·)) (hwidth : 0 < width) :
    (∀ lo, countFrom width times lo ≤ max) ↔
      ∀ past now later, times = past ++ now :: later → (recent width now past).length < max := by
  constructor
  · rintro hbounded past now later rfl
    rw [List.pairwise_append, List.pairwise_cons] at hsorted
    obtain ⟨lo, hlo⟩ := exists_countFrom hsorted.1 (fun t ht => hsorted.2.2 t ht now List.mem_cons_self) hwidth
    have hle := hbounded lo
    rw [← List.singleton_append, ← List.append_assoc, countFrom_append, hlo] at hle
    omega
  · intro hroom lo
    induction times using List.reverseRecOn with
    | nil =>
        exact Nat.zero_le max
    | append_singleton past now ih =>
        have hpast := ih (List.pairwise_append.1 hsorted).1 fun past' now' later' hsplit =>
          hroom past' now' (later' ++ [now]) (by simp [hsplit])
        by_cases hin : lo ≤ now ∧ now < lo + width
        · have hcount : countFrom width past lo ≤ (recent width now past).length := countFrom_le_recent hin.2
          have hfree := hroom past now [] rfl
          have hone : countFrom width [now] lo = 1 := by
            simp [countFrom, hin.1, hin.2]
          rw [countFrom_append, hone]
          omega
        · have hnone : countFrom width [now] lo = 0 := by
            rw [countFrom, List.length_eq_zero_iff, List.filter_eq_nil_iff]
            simpa using hin
          rw [countFrom_append, hnone]
          omega

end OpenWindow
