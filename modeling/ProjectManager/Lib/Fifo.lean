import Mathlib.Data.List.Basic

/-!
# Histories of a queue

What a first-in first-out queue received, dropped and gave away, in the order in which it did.  `Fifo.Explains` says
that a history leads to a queue; it goes through receiving at the back and removing at the front.
-/

namespace Fifo

/-- What happens at a queue. -/
inductive Event (α : Type*) where
  | received (x : α)
  | dropped (x : α)
  | taken (x : α)

variable {α : Type*} {log : List (Event α)} {q : List α} {x : α}

/-- What the queue received. -/
def received (log : List (Event α)) : List α :=
  log.filterMap fun e =>
    match e with
    | .received x => some x
    | _ => none

/-- What was dropped or taken. -/
def removed (log : List (Event α)) : List α :=
  log.filterMap fun e =>
    match e with
    | .received _ => none
    | .dropped x => some x
    | .taken x => some x

/-- What is in the queue is what it received without what was removed, which is older. -/
def Explains (log : List (Event α)) (q : List α) : Prop :=
  received log = removed log ++ q

@[simp] theorem received_append (log log' : List (Event α)) : received (log ++ log') = received log ++ received log' :=
  List.filterMap_append

@[simp] theorem removed_append (log log' : List (Event α)) : removed (log ++ log') = removed log ++ removed log' :=
  List.filterMap_append

theorem explains_nil : Explains ([] : List (Event α)) [] :=
  rfl

theorem Explains.receive (h : Explains log q) (x : α) : Explains (log ++ [.received x]) (q ++ [x]) := by
  unfold Explains at h ⊢
  rw [received_append, removed_append, h]
  simp [received, removed]

theorem Explains.drop (h : Explains log (x :: q)) : Explains (log ++ [.dropped x]) q := by
  unfold Explains at h ⊢
  rw [received_append, removed_append, h]
  simp [received, removed]

theorem Explains.take (h : Explains log (x :: q)) : Explains (log ++ [.taken x]) q := by
  unfold Explains at h ⊢
  rw [received_append, removed_append, h]
  simp [received, removed]

/-- The queue holds only what it received. -/
theorem Explains.mem_received {y : α} (h : Explains log q) (hy : y ∈ q) : y ∈ received log :=
  h ▸ List.mem_append_right _ hy

/-- What was received last is last in the queue, or the queue is empty and it was dropped or taken. -/
theorem Explains.last {front : List α} (h : Explains log q) (hlast : received log = front ++ [x]) :
    (∃ front', q = front' ++ [x]) ∨ q = [] ∧ (.dropped x ∈ log ∨ .taken x ∈ log) := by
  unfold Explains at h
  rcases List.eq_nil_or_concat q with rfl | ⟨front', y, rfl⟩
  · rw [hlast, List.append_nil] at h
    have hmem : x ∈ removed log := by
      rw [← h]
      simp
    obtain ⟨e, he, hx⟩ := List.mem_filterMap.1 hmem
    cases e with
    | received _ =>
        cases hx
    | dropped y =>
        cases hx
        exact .inr ⟨rfl, .inl he⟩
    | taken y =>
        cases hx
        exact .inr ⟨rfl, .inr he⟩
  · rw [hlast, List.concat_eq_append, ← List.append_assoc] at h
    obtain ⟨-, hxy⟩ := List.append_inj' h rfl
    cases List.singleton_inj.1 hxy
    exact .inl ⟨front', List.concat_eq_append⟩

end Fifo
