import Mathlib.Algebra.Order.Group.Defs
import Mathlib.Algebra.Order.Group.Unbundled.Basic
import Mathlib.Data.List.Basic
import Mathlib.Data.List.Pairwise

/-!
# Sliding windows

A limit of `max` calls in any stretch of time of length `width`, kept by a queue of the times of the calls that were
admitted: a new call first drops what has fallen out of the window and is admitted while there is room.  `Serves`
relates what was offered to the queue; `Serves.kept` says that the queue is as good as the whole history, and so
`Serves.bounded` that no stretch has too many calls and `Serves.refused` that a refused call found the window full.
-/

namespace SlidingWindow

/-! ### Histories -/

section Histories

variable {τ : Type*}

/-- The times of the calls that were admitted. -/
def accepted (history : List (τ × Bool)) : List τ :=
  (history.filter fun x => x.2).map Prod.fst

@[simp] theorem accepted_admitted (history : List (τ × Bool)) (now : τ) :
    accepted (history ++ [(now, true)]) = accepted history ++ [now] := by
  simp [accepted]

@[simp] theorem accepted_refused (history : List (τ × Bool)) (now : τ) :
    accepted (history ++ [(now, false)]) = accepted history := by
  simp [accepted]

theorem mem_of_accepted {history : List (τ × Bool)} {t : τ} (h : t ∈ accepted history) : ∃ x ∈ history, x.1 = t := by
  obtain ⟨x, hx, rfl⟩ := List.mem_map.1 h
  exact ⟨x, (List.mem_filter.1 hx).1, rfl⟩

variable [LinearOrder τ]

/-- The times of a history do not go back. -/
def Forward (history : List (τ × Bool)) : Prop :=
  (history.map Prod.fst).Pairwise (· ≤ ·)

/-- How many of the times lie between two, both included. -/
def countIn (times : List τ) (lo hi : τ) : ℕ :=
  (times.filter fun t => decide (lo ≤ t) && decide (t ≤ hi)).length

variable {history : List (τ × Bool)}

theorem Forward.accepted (h : Forward history) : (accepted history).Pairwise (· ≤ ·) :=
  h.sublist (List.filter_sublist.map Prod.fst)

theorem Forward.of_append {more : List (τ × Bool)} (h : Forward (history ++ more)) : Forward history := by
  unfold Forward at h ⊢
  rw [List.map_append] at h
  exact (List.pairwise_append.1 h).1

/-- The last reading of the clock is the latest. -/
theorem Forward.le_last {x : τ × Bool} (h : Forward (history ++ [x])) : ∀ y ∈ history, y.1 ≤ x.1 := by
  unfold Forward at h
  rw [List.map_append] at h
  intro y hy
  exact (List.pairwise_append.1 h).2.2 _ (List.mem_map_of_mem hy) _ (by simp)

/-- In a list that does not go back, what is dropped in front is all that is too early. -/
theorem dropWhile_lt {l : List τ} (hl : l.Pairwise (· ≤ ·)) (c : τ) :
    (l.dropWhile fun t => decide (t < c)) = l.filter fun t => decide (c ≤ t) := by
  induction l with
  | nil =>
      rfl
  | cons a l ih =>
      obtain ⟨ha, hl⟩ := List.pairwise_cons.1 hl
      by_cases hlt : a < c
      · rw [List.dropWhile_cons_of_pos (by simpa using hlt), List.filter_cons_of_neg (by simpa using hlt), ih hl]
      · have hle : c ≤ a := not_lt.1 hlt
        rw [List.dropWhile_cons_of_neg (by simpa using hle), List.filter_cons_of_pos (by simpa using hle),
          List.filter_eq_self.2 fun b hb => by simpa using hle.trans (ha b hb)]

end Histories

/-! ### The queue -/

section Queue

variable {τ : Type*} [AddCommGroup τ] [LinearOrder τ]

/-- The times that have not fallen out of the window. -/
def prune (width now : τ) (calls : List τ) : List τ :=
  calls.dropWhile fun t => decide (t < now - width)

/-- The calls offered so far, each with its answer, and the queue that they leave. -/
inductive Serves (width : τ) (max : ℕ) : List (τ × Bool) → List τ → Prop where
  | nil : Serves width max [] []
  | pass {history : List (τ × Bool)} {calls : List τ} {now : τ} (h : Serves width max history calls)
      (hroom : (prune width now calls).length < max) :
      Serves width max (history ++ [(now, true)]) (prune width now calls ++ [now])
  | refuse {history : List (τ × Bool)} {calls : List τ} {now : τ} (h : Serves width max history calls)
      (hfull : ¬ (prune width now calls).length < max) :
      Serves width max (history ++ [(now, false)]) (prune width now calls)

variable {width now : τ} {max : ℕ} {history : List (τ × Bool)} {calls : List τ}

theorem prune_eq {l : List τ} (hl : l.Pairwise (· ≤ ·)) :
    prune width now l = l.filter fun t => decide (now - width ≤ t) :=
  dropWhile_lt hl (now - width)

variable [IsOrderedAddMonoid τ]

/-- What has fallen out of an earlier window has fallen out of a later one. -/
theorem filter_filter_le {l : List τ} {before : τ} (h : before ≤ now) :
    ((l.filter fun t => decide (before - width ≤ t)).filter fun t => decide (now - width ≤ t)) =
      l.filter fun t => decide (now - width ≤ t) := by
  rw [List.filter_filter]
  refine List.filter_congr fun t _ => ?_
  have hle : before - width ≤ now - width := sub_le_sub_right h width
  by_cases ht : now - width ≤ t
  · simp [ht, hle.trans ht]
  · simp [ht]

/-- At the next reading of the clock, the queue has of the whole history what is in the window. -/
theorem Serves.kept (h : Serves width max history calls) (hclock : Forward history) (hnow : ∀ x ∈ history, x.1 ≤ now) :
    prune width now calls = (accepted history).filter fun t => decide (now - width ≤ t) := by
  induction h generalizing now with
  | nil =>
      rfl
  | @pass history calls before h hroom ih =>
      have hbefore : before ≤ now := hnow (before, true) (by simp)
      have hqueue := ih hclock.of_append hclock.le_last
      have hsorted : (prune width before calls ++ [before]).Pairwise (· ≤ ·) := by
        rw [hqueue]
        have haccepted := hclock.accepted
        rw [accepted_admitted] at haccepted
        exact haccepted.sublist (List.filter_sublist.append_right [before])
      rw [prune_eq hsorted, hqueue, List.filter_append, filter_filter_le hbefore, accepted_admitted, List.filter_append]
  | @refuse history calls before h hfull ih =>
      have hbefore : before ≤ now := hnow (before, false) (by simp)
      have hqueue := ih hclock.of_append hclock.le_last
      rw [hqueue, prune_eq (hclock.of_append.accepted.sublist List.filter_sublist), filter_filter_le hbefore,
        accepted_refused]

/-- Until the next reading of the clock, the window is what the queue has. -/
theorem Serves.countIn_eq (h : Serves width max history calls) (hclock : Forward history)
    (hnow : ∀ x ∈ history, x.1 ≤ now) : countIn (accepted history) (now - width) now = (prune width now calls).length := by
  unfold countIn
  rw [h.kept hclock hnow]
  refine congrArg List.length (List.filter_congr fun t ht => ?_)
  obtain ⟨x, hx, rfl⟩ := mem_of_accepted ht
  simp [hnow x hx]

/-- No stretch of the length of the window has more than `max` admitted calls. -/
theorem Serves.bounded (h : Serves width max history calls) (hclock : Forward history) (t : τ) :
    countIn (accepted history) t (t + width) ≤ max := by
  induction h with
  | nil =>
      exact Nat.zero_le max
  | @pass history calls now h hroom ih =>
      have hold := ih hclock.of_append
      rw [accepted_admitted]
      by_cases hin : t ≤ now ∧ now ≤ t + width
      · have hwindow : countIn (accepted history) t (t + width) ≤ (prune width now calls).length := by
          rw [h.kept hclock.of_append hclock.le_last]
          refine (List.monotone_filter_right _ fun s hs => ?_).length_le
          simp only [Bool.and_eq_true, decide_eq_true_eq] at hs ⊢
          exact (sub_le_iff_le_add.2 hin.2).trans hs.1
        have hone : countIn (accepted history ++ [now]) t (t + width) = countIn (accepted history) t (t + width) + 1 := by
          simp [countIn, List.filter_append, hin.1, hin.2]
        omega
      · have hnone : countIn (accepted history ++ [now]) t (t + width) = countIn (accepted history) t (t + width) := by
          unfold countIn
          rw [List.filter_append, List.filter_eq_nil_iff (l := [now]) |>.2 (by simpa using hin), List.append_nil]
        omega
  | @refuse history calls now h hfull ih =>
      rw [accepted_refused]
      exact ih hclock.of_append

/-- A refused call found `max` calls in the window that ends with it. -/
theorem Serves.refused (h : Serves width max history calls) (hclock : Forward history)
    {past later : List (τ × Bool)} (hsplit : history = past ++ (now, false) :: later) :
    countIn (accepted past) (now - width) now = max := by
  induction h generalizing later with
  | nil =>
      simp at hsplit
  | @pass history calls last h hroom ih =>
      rcases List.eq_nil_or_concat later with rfl | ⟨later, x, rfl⟩
      · have hlast := (List.append_inj' hsplit rfl).2
        simp at hlast
      · have hsplit : history ++ [(last, true)] = (past ++ (now, false) :: later) ++ [x] := by simpa using hsplit
        exact ih hclock.of_append (List.append_inj' hsplit rfl).1
  | @refuse history calls last h hfull ih =>
      rcases List.eq_nil_or_concat later with rfl | ⟨later, x, rfl⟩
      · obtain ⟨rfl, hlast⟩ := List.append_inj' hsplit rfl
        obtain rfl : last = now := by simpa using hlast
        have hcount : countIn (accepted history) (last - width) last = (prune width last calls).length :=
          h.countIn_eq hclock.of_append hclock.le_last
        have hle := h.bounded hclock.of_append (last - width)
        rw [sub_add_cancel] at hle
        omega
      · have hsplit : history ++ [(last, false)] = (past ++ (now, false) :: later) ++ [x] := by simpa using hsplit
        exact ih hclock.of_append (List.append_inj' hsplit rfl).1

end Queue

end SlidingWindow
