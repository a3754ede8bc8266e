import Mathlib.Data.List.Basic
import Mathlib.Order.UpperLower.Principal

/-!
# Intakes

A consumer that works through items in the order of their keys and keeps a mark between one batch and the
next: everything below the mark counts as done.  `Works` is one batch, `Tracked` what holds of the mark and the
history, and `Tracked.batch` says that a batch keeps it as long as the items that the new mark passes are in
the batch.
-/

namespace Intake

variable {α κ : Type}

/-- What became of an item in a batch. -/
inductive Handling (α : Type) where
  /-- passed over: nothing is due -/
  | ignored (a : α)
  | answered (a : α)
  /-- given up -/
  | failed (a : α)
  /-- kept for another batch -/
  | held (a : α)
deriving DecidableEq

namespace Handling

def item : Handling α → α
  | ignored a => a
  | answered a => a
  | failed a => a
  | held a => a

/-- The item is done with. -/
def consumed : Handling α → Bool
  | held _ => false
  | _ => true

end Handling

/-- One batch: the items on offer, those done with, and the history. -/
inductive Works (handle : α → Handling α) : List α → List α → List (Handling α) → Prop where
  | stop {items : List α} : Works handle items [] []
  | hold {a : α} {items : List α} (h : (handle a).consumed = false) : Works handle (a :: items) [] [handle a]
  | next {a : α} {items done : List α} {history : List (Handling α)} (h : (handle a).consumed = true)
      (hrest : Works handle items done history) : Works handle (a :: items) (a :: done) (handle a :: history)

section Works

variable {handle : α → Handling α} {items done : List α} {history : List (Handling α)}

theorem Works.begins (h : Works handle items done history) : done <+: items := by
  induction h with
  | stop =>
      exact List.nil_prefix
  | hold _ =>
      exact List.nil_prefix
  | next _ _ ih =>
      exact List.cons_prefix_cons.2 ⟨rfl, ih⟩

/-- The history is that of items on offer. -/
theorem Works.mem (h : Works handle items done history) {e : Handling α} (he : e ∈ history) :
    ∃ a ∈ items, e = handle a ∧ (e.consumed = true → a ∈ done) := by
  induction h with
  | stop =>
      cases he
  | @hold a _ hheld =>
      obtain rfl := List.mem_singleton.1 he
      exact ⟨a, by simp, rfl, fun hc => by simp [hheld] at hc⟩
  | @next a _ _ _ _ _ ih =>
      rcases List.mem_cons.1 he with rfl | he
      · exact ⟨a, by simp, rfl, fun _ => by simp⟩
      · obtain ⟨b, hb, heq, hdone⟩ := ih he
        exact ⟨b, by simp [hb], heq, fun hc => by simp [hdone hc]⟩

theorem Works.handled (h : Works handle items done history) {a : α} (ha : a ∈ done) :
    handle a ∈ history ∧ (handle a).consumed = true := by
  induction h with
  | stop =>
      cases ha
  | hold _ =>
      cases ha
  | next hconsumed _ ih =>
      rcases List.mem_cons.1 ha with rfl | ha
      · exact ⟨by simp, hconsumed⟩
      · exact ⟨by simp [(ih ha).1], (ih ha).2⟩

/-- A batch goes through its items in order. -/
theorem Works.pairwise (h : Works handle items done history) (hitem : ∀ a, (handle a).item = a) {R : α → α → Prop}
    (hsorted : items.Pairwise R) : history.Pairwise fun e e' => R e.item e'.item := by
  induction h with
  | stop =>
      exact List.Pairwise.nil
  | hold _ =>
      exact List.pairwise_singleton _ _
  | @next a items _ _ _ hrest ih =>
      rw [List.pairwise_cons] at hsorted ⊢
      refine ⟨fun e he => ?_, ih hsorted.2⟩
      obtain ⟨b, hb, rfl, -⟩ := hrest.mem he
      rw [hitem, hitem]
      exact hsorted.1 b hb

end Works

variable [LinearOrder κ]

/-- A beginning of an ordered list has all that comes before one of its items. -/
theorem mem_of_prefix {key : α → κ} {l items : List α} {a b : α} (h : l <+: items)
    (hsorted : items.Pairwise fun a b => key a < key b) (hb : b ∈ l) (ha : a ∈ items) (hle : key a ≤ key b) : a ∈ l := by
  obtain ⟨rest, rfl⟩ := h
  rcases List.mem_append.1 ha with ha | ha
  · exact ha
  · have hlt := (List.pairwise_append.1 hsorted).2.2 b hb a ha
    exact absurd hle (not_le_of_gt hlt)

/-- In an ordered list nothing comes after the last item. -/
theorem le_last {key : α → κ} {items : List α} {a b : α} (hsorted : items.Pairwise fun a b => key a < key b)
    (hlast : items.getLast? = some b) (ha : a ∈ items) : key a ≤ key b := by
  obtain ⟨init, rfl⟩ := List.getLast?_eq_some_iff.1 hlast
  rcases List.mem_append.1 ha with ha | ha
  · exact ((List.pairwise_append.1 hsorted).2.2 a ha b (by simp)).le
  · exact (congrArg key (List.mem_singleton.1 ha)).le

/-- An item is among the last of an ordered list when few come at or after it. -/
theorem mem_newest {key : α → κ} {items : List α} {a : α} {n : ℕ} (hsorted : items.Pairwise fun a b => key a < key b)
    (ha : a ∈ items) (h : (items.filter fun b => decide (key a ≤ key b)).length ≤ n) :
    a ∈ items.drop (items.length - n) := by
  obtain ⟨front, back, rfl⟩ := List.append_of_mem ha
  have hback : (a :: back).filter (fun b => decide (key a ≤ key b)) = a :: back := by
    have hlater := (List.pairwise_cons.1 (List.pairwise_append.1 hsorted).2.1).1
    refine List.filter_eq_self.2 fun b hb => decide_eq_true ?_
    rcases List.mem_cons.1 hb with rfl | hb
    · exact le_rfl
    · exact (hlater b hb).le
  rw [List.filter_append, List.length_append, hback, List.length_cons] at h
  rw [List.length_append, List.length_cons, List.drop_append_of_le_length (by omega)]
  simp

/-- What holds between two batches: whatever is done with lies below the mark, what is done with comes before
everything that is handled later, and whatever is due below the mark was answered or given up. -/
structure Tracked (key : α → κ) (due : α → Prop) (mark : LowerSet κ) (history : List (Handling α)) : Prop where
  below : ∀ e ∈ history, e.consumed = true → key e.item ∈ mark
  ordered : history.Pairwise fun e e' => e.consumed = true → key e.item < key e'.item
  covered : ∀ a, due a → key a ∈ mark → .answered a ∈ history ∨ .failed a ∈ history

section Tracked

variable {key : α → κ} {due due' : α → Prop} {mark mark' : LowerSet κ} {history new : List (Handling α)}
  {handle : α → Handling α} {items done : List α}

/-- Nothing is due that has not come. -/
theorem Tracked.begin (h : ∀ a, due a → key a ∉ mark) : Tracked key due mark [] where
  below := by simp
  ordered := List.Pairwise.nil
  covered := fun a ha hmark => absurd hmark (h a ha)

/-- What comes later comes above the mark. -/
theorem Tracked.arrive (h : Tracked key due mark history) (hnew : ∀ a, due' a → due a ∨ key a ∉ mark) :
    Tracked key due' mark history where
  below := h.below
  ordered := h.ordered
  covered := fun a ha hmark =>
    match hnew a ha with
    | .inl hold => h.covered a hold hmark
    | .inr hnot => absurd hmark hnot

/-- A batch of items above the mark, after which the mark has passed what is done with, and nothing else that is
due. -/
theorem Tracked.batch (h : Tracked key due mark history) (hworks : Works handle items done new)
    (hitem : ∀ a, (handle a).item = a)
    (hdue : ∀ a, due a → (handle a).consumed = true → handle a = .answered a ∨ handle a = .failed a)
    (hsorted : items.Pairwise fun a b => key a < key b) (habove : ∀ a ∈ items, key a ∉ mark) (hle : mark ≤ mark')
    (hdone : ∀ a ∈ done, key a ∈ mark') (honly : ∀ a, due a → key a ∉ mark → key a ∈ mark' → a ∈ done) :
    Tracked key due mark' (history ++ new) where
  below := by
    intro e he hconsumed
    rcases List.mem_append.1 he with he | he
    · exact hle (h.below e he hconsumed)
    · obtain ⟨a, -, rfl, hmem⟩ := hworks.mem he
      rw [hitem]
      exact hdone a (hmem hconsumed)
  ordered := by
    have hbatch := hworks.pairwise hitem hsorted
    rw [List.pairwise_append]
    refine ⟨h.ordered, hbatch.imp (by intro _ _ hlt _; exact hlt), fun e he e' he' hconsumed => ?_⟩
    obtain ⟨a, ha, rfl, -⟩ := hworks.mem he'
    rw [hitem]
    exact lt_of_not_ge fun hle' => habove a ha (mark.lower hle' (h.below e he hconsumed))
  covered := by
    intro a ha hmark'
    by_cases hmark : key a ∈ mark
    · rcases h.covered a ha hmark with hmem | hmem
      · exact .inl (by simp [hmem])
      · exact .inr (by simp [hmem])
    · obtain ⟨hmem, hconsumed⟩ := hworks.handled (honly a ha hmark hmark')
      rcases hdue a ha hconsumed with heq | heq
      · exact .inl (by simp [← heq, hmem])
      · exact .inr (by simp [← heq, hmem])

end Tracked

end Intake
