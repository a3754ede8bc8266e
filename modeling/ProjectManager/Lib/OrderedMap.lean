import Mathlib.Data.List.Basic
import Mathlib.Data.List.Nodup
import ProjectManager.Lib.Table

/-!
# Maps that keep the order of insertion

An `OrderedMap` is a list of entries with one entry for each key.  A key that is new goes to the end; changing a value
leaves the order alone.  Everything that is said of a map follows from `keys` and `get?`, and each operation has one
lemma about either.
-/

/-- A map in the order in which its keys were inserted. -/
structure OrderedMap (κ ν : Type) where
  entries : List (κ × ν)
  nodup : (entries.map Prod.fst).Nodup

namespace OrderedMap

open Table

variable {κ ν : Type}

/-- The keys, oldest first. -/
def keys (m : OrderedMap κ ν) : List κ :=
  m.entries.map Prod.fst

/-- The map without entries. -/
def empty : OrderedMap κ ν where
  entries := []
  nodup := List.nodup_nil

@[simp] theorem keys_empty : (empty : OrderedMap κ ν).keys = [] :=
  rfl

theorem nodup_keys (m : OrderedMap κ ν) : m.keys.Nodup :=
  m.nodup

/-- Changes all values. -/
def map (m : OrderedMap κ ν) (f : ν → ν) : OrderedMap κ ν where
  entries := m.entries.map fun x => (x.1, f x.2)
  nodup := by
    rw [List.map_map]
    exact m.nodup

@[simp] theorem keys_map (m : OrderedMap κ ν) (f : ν → ν) : (m.map f).keys = m.keys := by
  simp only [keys, map, List.map_map]
  rfl

variable [DecidableEq κ]

/-- The value under a key. -/
def get? (m : OrderedMap κ ν) (k : κ) : Option ν :=
  (m.entries.find? fun x => decide (x.1 = k)).map Prod.snd

/-- Changes the value under a key, if there is one. -/
def modify (m : OrderedMap κ ν) (k : κ) (f : ν → ν) : OrderedMap κ ν where
  entries := m.entries.map fun x => if x.1 = k then (x.1, f x.2) else x
  nodup := by
    have hsame : (Prod.fst ∘ fun x : κ × ν => if x.1 = k then (x.1, f x.2) else x) = Prod.fst := by
      funext x
      simp only [Function.comp_apply]
      split <;> rfl
    rw [List.map_map, hsame]
    exact m.nodup

/-- Inserts a value under a key that is new. -/
def ensure (m : OrderedMap κ ν) (k : κ) (v : ν) : OrderedMap κ ν :=
  if h : k ∈ m.keys then
    m
  else
    { entries := m.entries ++ [(k, v)]
      nodup := by
        rw [List.map_append]
        refine List.nodup_append.2 ⟨m.nodup, List.nodup_singleton k, fun a ha b hb hab => h ?_⟩
        rw [List.map_singleton, List.mem_singleton] at hb
        rw [hab, hb] at ha
        exact ha }

/-! ### Keys -/

@[simp] theorem keys_modify (m : OrderedMap κ ν) (k : κ) (f : ν → ν) : (m.modify k f).keys = m.keys := by
  simp only [keys, modify, List.map_map]
  refine List.map_congr_left fun x _ => ?_
  simp only [Function.comp_apply]
  split <;> rfl

theorem keys_ensure (m : OrderedMap κ ν) (k : κ) (v : ν) :
    (m.ensure k v).keys = if k ∈ m.keys then m.keys else m.keys ++ [k] := by
  unfold ensure
  split
  · rfl
  · simp [keys]

theorem mem_keys_ensure {m : OrderedMap κ ν} {k k' : κ} {v : ν} : k' ∈ (m.ensure k v).keys ↔ k' = k ∨ k' ∈ m.keys := by
  rw [keys_ensure]
  split
  · rename_i hk
    constructor
    · exact .inr
    · rintro (rfl | h)
      · exact hk
      · exact h
  · simp [or_comm]

theorem get?_isSome {m : OrderedMap κ ν} {k : κ} : (m.get? k).isSome = true ↔ k ∈ m.keys := by
  simp [get?, keys, List.find?_isSome]

theorem get?_eq_none {m : OrderedMap κ ν} {k : κ} : m.get? k = none ↔ k ∉ m.keys := by
  rw [← get?_isSome, Bool.not_eq_true, Option.isSome_eq_false_iff, Option.isNone_iff_eq_none]

/-- The entries are the pairs that the look-ups give. -/
theorem mem_entries {m : OrderedMap κ ν} {k : κ} {v : ν} : (k, v) ∈ m.entries ↔ m.get? k = some v := by
  have hfind := fun x : κ × ν => find?_key m.nodup (k := k) (a := x)
  unfold get?
  rw [Option.map_eq_some_iff]
  constructor
  · intro hmem
    exact ⟨(k, v), (hfind (k, v)).2 ⟨hmem, rfl⟩, rfl⟩
  · rintro ⟨x, hx, rfl⟩
    obtain ⟨hmem, rfl⟩ := (hfind x).1 hx
    exact hmem

/-! ### Values -/

@[simp] theorem get?_empty (k : κ) : (empty : OrderedMap κ ν).get? k = none :=
  rfl

@[simp] theorem get?_map (m : OrderedMap κ ν) (f : ν → ν) (k : κ) : (m.map f).get? k = (m.get? k).map f := by
  simp only [get?, map, List.find?_map, Option.map_map]
  rfl

@[simp] theorem get?_modify (m : OrderedMap κ ν) (k k' : κ) (f : ν → ν) :
    (m.modify k f).get? k' = if k' = k then (m.get? k').map f else m.get? k' := by
  have htest : ((fun x : κ × ν => decide (x.1 = k')) ∘ fun x : κ × ν => if x.1 = k then (x.1, f x.2) else x) =
      fun x => decide (x.1 = k') := by
    funext x
    simp only [Function.comp_apply]
    split <;> rfl
  simp only [get?, modify, List.find?_map, htest, Option.map_map]
  cases hfound : m.entries.find? fun x => decide (x.1 = k') with
  | none =>
      simp
  | some x =>
      have hkey : x.1 = k' := by simpa using List.find?_some hfound
      subst hkey
      simp only [Option.map_some, Function.comp_apply]
      split <;> rfl

@[simp] theorem get?_ensure (m : OrderedMap κ ν) (k k' : κ) (v : ν) :
    (m.ensure k v).get? k' = if k' = k then some ((m.get? k').getD v) else m.get? k' := by
  unfold ensure
  split
  · rename_i hk
    split
    · rename_i heq
      subst heq
      obtain ⟨old, hold⟩ := Option.isSome_iff_exists.1 (get?_isSome.2 hk)
      rw [hold]
      rfl
    · rfl
  · rename_i hk
    simp only [get?, List.find?_append]
    split
    · rename_i heq
      subst heq
      have hnone : m.get? k' = none := get?_eq_none.2 hk
      simp only [get?, Option.map_eq_none_iff] at hnone
      simp [hnone]
    · rename_i hne
      have hmiss : [(k, v)].find? (fun x => decide (x.1 = k')) = none := by
        simp [Ne.symm hne]
      rw [hmiss, Option.or_none]

end OrderedMap
