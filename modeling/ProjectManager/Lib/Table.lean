import Mathlib.Data.List.Nodup
import Mathlib.Data.List.Pairwise

/-!
# Tables

Two kinds of database table, each carrying what the database enforces.

* `Keyed`: rows under a primary key.
* `Auto`: rows numbered by an auto-increment column that is never reused, under a unique key.

The operations are those of the statements the modelled programs issue: insert (which a taken key
refuses), update of the rows that match, delete of the rows that match, and look-up by key.
-/

namespace Table

variable {α β κ : Type}

/-! ### Primary keys -/

/-- Rows under a primary key. -/
structure Keyed (α κ : Type) (key : α → κ) where
  rows : List α
  nodup : (rows.map key).Nodup

namespace Keyed

variable {key : α → κ}

/-- The table without rows. -/
def empty : Keyed α κ key where
  rows := []
  nodup := List.nodup_nil

/-- A taken key refuses the row. -/
def insert? [DecidableEq κ] (t : Keyed α κ key) (a : α) : Option (Keyed α κ key) :=
  if h : key a ∈ t.rows.map key then
    none
  else
    some
      { rows := t.rows ++ [a]
        nodup := by
          rw [List.map_append, List.nodup_append]
          refine ⟨t.nodup, by simp, ?_⟩
          rintro x hx y hy rfl
          rw [List.map_singleton, List.mem_singleton] at hy
          exact h (hy ▸ hx) }

/-- Changes the rows that match; the key stays. -/
def updateWhere (t : Keyed α κ key) (p : α → Bool) (f : α → α) (hkey : ∀ a, key (f a) = key a) :
    Keyed α κ key where
  rows := t.rows.map fun a => if p a then f a else a
  nodup := by
    have hmap : (t.rows.map fun a => if p a then f a else a).map key = t.rows.map key := by
      rw [List.map_map]
      refine List.map_congr_left fun a _ => ?_
      by_cases hp : p a = true <;> simp [hp, hkey]
    rw [hmap]
    exact t.nodup

/-- The row under a key. -/
def find? [DecidableEq κ] (t : Keyed α κ key) (k : κ) : Option α :=
  t.rows.find? fun a => decide (key a = k)

theorem insert?_eq_some [DecidableEq κ] {t t' : Keyed α κ key} {a : α} (h : t.insert? a = some t') :
    key a ∉ t.rows.map key ∧ t'.rows = t.rows ++ [a] := by
  unfold insert? at h
  split at h
  case isTrue =>
    exact absurd h (by simp)
  case isFalse hfree =>
    obtain rfl := Option.some.inj h
    exact ⟨hfree, rfl⟩

theorem mem_updateWhere {t : Keyed α κ key} {p : α → Bool} {f : α → α} {hkey : ∀ a, key (f a) = key a}
    {b : α} : b ∈ (t.updateWhere p f hkey).rows ↔ ∃ a ∈ t.rows, b = if p a then f a else a := by
  constructor
  · intro hb
    obtain ⟨a, ha, rfl⟩ := List.mem_map.1 hb
    exact ⟨a, ha, rfl⟩
  · rintro ⟨a, ha, rfl⟩
    exact List.mem_map.2 ⟨a, ha, rfl⟩

end Keyed

/-- In a list without repeated keys a key has one element. -/
theorem eq_of_key {key : α → κ} {l : List α} (hnodup : (l.map key).Nodup) {a b : α} (ha : a ∈ l)
    (hb : b ∈ l) (hkey : key a = key b) : a = b :=
  List.inj_on_of_nodup_map hnodup ha hb hkey

theorem find?_key [DecidableEq κ] {key : α → κ} {l : List α} (hnodup : (l.map key).Nodup) {k : κ} {a : α} :
    l.find? (fun b => decide (key b = k)) = some a ↔ a ∈ l ∧ key a = k := by
  constructor
  · intro h
    exact ⟨List.mem_of_find?_eq_some h, by simpa using List.find?_some h⟩
  · rintro ⟨hmem, rfl⟩
    cases hfind : l.find? (fun b => decide (key b = key a)) with
    | none =>
        exact absurd (List.find?_eq_none.1 hfind a hmem) (by simp)
    | some b =>
        have hb := List.mem_of_find?_eq_some hfind
        have hkey : key b = key a := by simpa using List.find?_some hfind
        rw [eq_of_key hnodup hb hmem hkey]

theorem Keyed.find?_eq_some [DecidableEq κ] {key : α → κ} {t : Keyed α κ key} {k : κ} {a : α} :
    t.find? k = some a ↔ a ∈ t.rows ∧ key a = k :=
  find?_key t.nodup

theorem Keyed.find?_eq_none [DecidableEq κ] {key : α → κ} {t : Keyed α κ key} {k : κ} :
    t.find? k = none ↔ ∀ a ∈ t.rows, key a ≠ k := by
  simp [Keyed.find?]

/-! ### Auto-increment -/

/-- Rows in the order of a number that is never given twice, under a unique key. -/
structure Auto (α κ : Type) (seq : α → ℕ) (key : α → κ) where
  rows : List α
  last : ℕ
  sorted : rows.Pairwise fun a b => seq a < seq b
  le_last : ∀ a ∈ rows, seq a ≤ last
  nodup : (rows.map key).Nodup

namespace Auto

variable {seq : α → ℕ} {key : α → κ}

/-- The table before its first row. -/
def empty : Auto α κ seq key where
  rows := []
  last := 0
  sorted := List.Pairwise.nil
  le_last := by simp
  nodup := List.nodup_nil

/-- Appends the row `mk n` under the next number `n`; a taken key refuses it. -/
def insert? [DecidableEq κ] (t : Auto α κ seq key) (mk : ℕ → α) (hseq : ∀ n, seq (mk n) = n) :
    Option (Auto α κ seq key) :=
  if h : key (mk (t.last + 1)) ∈ t.rows.map key then
    none
  else
    some
      { rows := t.rows ++ [mk (t.last + 1)]
        last := t.last + 1
        sorted := by
          rw [List.pairwise_append]
          refine ⟨t.sorted, List.pairwise_singleton _ _, ?_⟩
          intro a ha b hb
          rw [List.mem_singleton] at hb
          rw [hb, hseq]
          exact Nat.lt_succ_of_le (t.le_last a ha)
        le_last := by
          intro a ha
          rw [List.mem_append, List.mem_singleton] at ha
          rcases ha with ha | rfl
          · exact Nat.le_succ_of_le (t.le_last a ha)
          · exact Nat.le_of_eq (hseq _)
        nodup := by
          rw [List.map_append, List.nodup_append]
          refine ⟨t.nodup, by simp, ?_⟩
          rintro x hx y hy rfl
          rw [List.map_singleton, List.mem_singleton] at hy
          exact h (hy ▸ hx) }

/-- Changes the rows that match; number and key stay. -/
def updateWhere (t : Auto α κ seq key) (p : α → Bool) (f : α → α) (hseq : ∀ a, seq (f a) = seq a)
    (hkey : ∀ a, key (f a) = key a) : Auto α κ seq key where
  rows := t.rows.map fun a => if p a then f a else a
  last := t.last
  sorted := by
    rw [List.pairwise_map]
    refine t.sorted.imp fun {a b} hab => ?_
    by_cases ha : p a = true <;> by_cases hb : p b = true <;> simp [ha, hb, hseq, hab]
  le_last := by
    intro b hb
    obtain ⟨a, ha, rfl⟩ := List.mem_map.1 hb
    by_cases hp : p a = true <;> simp [hp, hseq, t.le_last a ha]
  nodup := by
    have hmap : (t.rows.map fun a => if p a then f a else a).map key = t.rows.map key := by
      rw [List.map_map]
      refine List.map_congr_left fun a _ => ?_
      by_cases hp : p a = true <;> simp [hp, hkey]
    rw [hmap]
    exact t.nodup

/-- Removes the rows that match; their numbers are not given again. -/
def deleteWhere (t : Auto α κ seq key) (p : α → Bool) : Auto α κ seq key where
  rows := t.rows.filter fun a => !p a
  last := t.last
  sorted := t.sorted.filter _
  le_last := fun a ha => t.le_last a (List.mem_of_mem_filter ha)
  nodup := t.nodup.sublist (List.filter_sublist.map key)

/-- The row under a key. -/
def find? [DecidableEq κ] (t : Auto α κ seq key) (k : κ) : Option α :=
  t.rows.find? fun a => decide (key a = k)

/-- Inserts one row for each element of a list, in order. -/
def insertAll? [DecidableEq κ] (mk : β → ℕ → α) (hseq : ∀ b n, seq (mk b n) = n) :
    List β → Auto α κ seq key → Option (Auto α κ seq key)
  | [], t => some t
  | b :: bs, t => (t.insert? (mk b) (hseq b)).bind (insertAll? mk hseq bs)

/-- The rows a list makes when the last number given is `n`. -/
def numbered (mk : β → ℕ → α) : ℕ → List β → List α
  | _, [] => []
  | n, b :: bs => mk b (n + 1) :: numbered mk (n + 1) bs

theorem find?_eq_some [DecidableEq κ] {t : Auto α κ seq key} {k : κ} {a : α} :
    t.find? k = some a ↔ a ∈ t.rows ∧ key a = k :=
  find?_key t.nodup

theorem find?_eq_none [DecidableEq κ] {t : Auto α κ seq key} {k : κ} : t.find? k = none ↔ ∀ a ∈ t.rows, key a ≠ k := by
  simp [find?]

theorem insert?_eq_some [DecidableEq κ] {t t' : Auto α κ seq key} {mk : ℕ → α} {hseq : ∀ n, seq (mk n) = n}
    (h : t.insert? mk hseq = some t') :
    key (mk (t.last + 1)) ∉ t.rows.map key ∧ t'.rows = t.rows ++ [mk (t.last + 1)] ∧
      t'.last = t.last + 1 := by
  unfold insert? at h
  split at h
  case isTrue =>
    exact absurd h (by simp)
  case isFalse hfree =>
    obtain rfl := Option.some.inj h
    exact ⟨hfree, rfl, rfl⟩

theorem insert?_eq_none [DecidableEq κ] {t : Auto α κ seq key} {mk : ℕ → α} {hseq : ∀ n, seq (mk n) = n} :
    t.insert? mk hseq = none ↔ key (mk (t.last + 1)) ∈ t.rows.map key := by
  unfold insert?
  split
  case isTrue htaken =>
    simp only [htaken]
  case isFalse hfree =>
    simp only [reduceCtorEq, hfree]

theorem insertAll?_eq_some [DecidableEq κ] {mk : β → ℕ → α} {hseq : ∀ b n, seq (mk b n) = n} {bs : List β}
    {t t' : Auto α κ seq key} (h : insertAll? mk hseq bs t = some t') :
    t'.rows = t.rows ++ numbered mk t.last bs ∧ t'.last = t.last + bs.length := by
  induction bs generalizing t with
  | nil =>
      obtain rfl := Option.some.inj h
      simp [numbered]
  | cons b bs ih =>
      obtain ⟨s, hs, hrest⟩ := Option.bind_eq_some_iff.1 h
      obtain ⟨-, hrows, hlast⟩ := insert?_eq_some hs
      obtain ⟨hrows', hlast'⟩ := ih hrest
      rw [hrows', hlast', hrows, hlast]
      constructor
      · simp [numbered]
      · simp only [List.length_cons]
        omega

theorem mem_numbered {mk : β → ℕ → α} {n : ℕ} {bs : List β} {a : α} (h : a ∈ numbered mk n bs) :
    ∃ b ∈ bs, ∃ m, n < m ∧ m ≤ n + bs.length ∧ a = mk b m := by
  induction bs generalizing n with
  | nil =>
      simp [numbered] at h
  | cons b bs ih =>
      simp only [numbered, List.mem_cons] at h
      rcases h with rfl | h
      · exact ⟨b, by simp, n + 1, by omega, by simp, rfl⟩
      · obtain ⟨c, hc, m, hlo, hhi, rfl⟩ := ih h
        refine ⟨c, by simp [hc], m, by omega, ?_, rfl⟩
        simp only [List.length_cons]
        omega

/-- A list function that does not look at the number sees the elements in order. -/
theorem map_numbered {γ : Type} (mk : β → ℕ → α) (g : α → γ) (g' : β → γ) (hg : ∀ b n, g (mk b n) = g' b)
    (n : ℕ) (bs : List β) : (numbered mk n bs).map g = bs.map g' := by
  induction bs generalizing n with
  | nil =>
      rfl
  | cons b bs ih =>
      simp [numbered, hg, ih]

/-- A test that every made row passes keeps all of them. -/
theorem filter_numbered {mk : β → ℕ → α} {p : α → Bool} (hp : ∀ b n, p (mk b n) = true) (n : ℕ)
    (bs : List β) : (numbered mk n bs).filter p = numbered mk n bs := by
  rw [List.filter_eq_self]
  intro a ha
  obtain ⟨b, -, m, -, -, rfl⟩ := mem_numbered ha
  exact hp b m

theorem mem_updateWhere {t : Auto α κ seq key} {p : α → Bool} {f : α → α}
    {hseq : ∀ a, seq (f a) = seq a} {hkey : ∀ a, key (f a) = key a} {b : α} :
    b ∈ (t.updateWhere p f hseq hkey).rows ↔ ∃ a ∈ t.rows, b = if p a then f a else a := by
  constructor
  · intro hb
    obtain ⟨a, ha, rfl⟩ := List.mem_map.1 hb
    exact ⟨a, ha, rfl⟩
  · rintro ⟨a, ha, rfl⟩
    exact List.mem_map.2 ⟨a, ha, rfl⟩

/-- A row is found under its key before and after an update. -/
theorem find?_updateWhere [DecidableEq κ] {t : Auto α κ seq key} {p : α → Bool} {f : α → α}
    {hseq : ∀ a, seq (f a) = seq a} {hkey : ∀ a, key (f a) = key a} {k : κ} :
    (t.updateWhere p f hseq hkey).find? k = (t.find? k).map fun a => if p a then f a else a := by
  have hsame : (fun a => decide (key a = k)) ∘ (fun a => if p a then f a else a) = fun a => decide (key a = k) := by
    funext a
    by_cases hp : p a = true <;> simp [hp, hkey]
  unfold find? updateWhere
  rw [List.find?_map, hsame]

@[simp] theorem updateWhere_last {t : Auto α κ seq key} {p : α → Bool} {f : α → α}
    {hseq : ∀ a, seq (f a) = seq a} {hkey : ∀ a, key (f a) = key a} :
    (t.updateWhere p f hseq hkey).last = t.last :=
  rfl

@[simp] theorem deleteWhere_last {t : Auto α κ seq key} {p : α → Bool} : (t.deleteWhere p).last = t.last :=
  rfl

end Auto

end Table
