import Mathlib

/-!
# Text operations

The string operations of the modelled programs that Lean's own library spells differently:
`startsWith` and `contains` as tests on character lists, and `strip`, which removes white space
(in the Unicode sense) at both ends.  `strip_strip` says that stripping twice is stripping once,
`digits_last` that a number at the end of a text can be read off, and `mem_splitOnP_iff` that cutting a text
at separators yields its words.
-/

namespace Text

/-! ### Tests -/

/-- `s` begins with `p`. -/
def startsWith (s p : String) : Bool :=
  p.toList.isPrefixOf s.toList

theorem startsWith_iff {s p : String} : startsWith s p = true ↔ p.toList <+: s.toList := by
  simp [startsWith]

/-- `sub` occurs somewhere in `s`. -/
def contains (s sub : String) : Bool :=
  s.toList.tails.any fun rest => sub.toList.isPrefixOf rest

theorem contains_iff {s sub : String} : contains s sub = true ↔ sub.toList <:+: s.toList := by
  simp only [contains, List.any_eq_true, List.mem_tails, List.isPrefixOf_iff_prefix]
  constructor
  · rintro ⟨rest, hsuffix, hleads⟩
    exact hleads.isInfix.trans hsuffix.isInfix
  · intro h
    obtain ⟨rest, hleads, hsuffix⟩ := List.infix_iff_prefix_suffix.1 h
    exact ⟨rest, hsuffix, hleads⟩

/-- The empty text contains only the empty text. -/
theorem contains_empty_iff {sub : String} : contains "" sub = true ↔ sub = "" := by
  rw [contains_iff, String.toList_empty, List.infix_nil, String.toList_eq_nil_iff]

/-- Every text contains the empty text. -/
theorem contains_empty (s : String) : contains s "" = true := by
  rw [contains_iff, String.toList_empty]
  exact List.nil_infix

/-- One of the two character lists begins the other. -/
def meets (a b : List Char) : Bool :=
  a.isPrefixOf b || b.isPrefixOf a

/-- Two beginnings of one list meet. -/
theorem meets_of_begins {a b l : List Char} (ha : a <+: l) (hb : b <+: l) : meets a b = true := by
  simpa [meets] using List.prefix_or_prefix_of_prefix ha hb

/-- A text is checked character by character, not over all the characters there are. -/
instance decidableForallMem (p : Char → Prop) [DecidablePred p] (l : List Char) : Decidable (∀ c ∈ l, p c) :=
  List.decidableBAll p l

/-! ### Letter case -/

/-- What holds of all codes below 128 holds of all ASCII characters. -/
theorem ascii_induction {p : Char → Prop} (h : ∀ n < 128, p (Char.ofNat n)) (c : Char) (hc : c.toNat < 128) : p c := by
  have := h c.toNat hc
  rwa [Char.ofNat_toNat] at this

theorem toLower_of_not_ascii {c : Char} (hc : ¬ c.toNat < 128) : c.toLower = c := by
  unfold Char.toLower
  split
  · rename_i hupper
    have hle : c.toNat ≤ 90 := UInt32.le_iff_toNat_le.1 hupper.2
    omega
  · rfl

/-! ### Words -/

section Words

variable {α : Type} {sep : α → Bool} {word l : List α}

/-- A longest run of elements that do not separate. -/
def IsRunOf (sep : α → Bool) (word l : List α) : Prop :=
  (∀ c ∈ word, sep c = false) ∧ ∃ before after, l = before ++ word ++ after ∧
    (∀ c ∈ before.getLast?, sep c = true) ∧ ∀ c ∈ after.head?, sep c = true

/-- The first piece begins the list, and each other one comes after a separator. -/
theorem splitOnP_pieces (sep : α → Bool) (l : List α) : ∃ first others, l.splitOnP sep = first :: others ∧
    (∀ c ∈ first, sep c = false) ∧ (∃ after, l = first ++ after ∧ ∀ c ∈ after.head?, sep c = true) ∧
    ∀ word ∈ others, (∀ c ∈ word, sep c = false) ∧ ∃ before s after, l = before ++ s :: (word ++ after) ∧
      sep s = true ∧ ∀ c ∈ after.head?, sep c = true := by
  induction l with
  | nil =>
      exact ⟨[], [], rfl, by simp, ⟨[], rfl, by simp⟩, by simp⟩
  | cons c l ih =>
      obtain ⟨first, others, hsplit, hfirst, ⟨rest, hl, hrest⟩, hothers⟩ := ih
      have hlater : ∀ word ∈ others, (∀ d ∈ word, sep d = false) ∧ ∃ before s after,
          c :: l = before ++ s :: (word ++ after) ∧ sep s = true ∧ ∀ d ∈ after.head?, sep d = true := by
        intro word hword
        obtain ⟨hall, before, s, after, hl, hs, hafter⟩ := hothers word hword
        exact ⟨hall, c :: before, s, after, congrArg (c :: ·) hl, hs, hafter⟩
      rw [List.splitOnP_cons_eq_if_modifyHead, hsplit]
      by_cases hc : sep c = true
      · rw [if_pos hc]
        refine ⟨[], first :: others, rfl, by simp, ⟨c :: l, rfl, by simpa using hc⟩, ?_⟩
        exact List.forall_mem_cons.2 ⟨⟨hfirst, [], c, rest, congrArg (c :: ·) hl, hc, hrest⟩, hlater⟩
      · rw [if_neg hc]
        refine ⟨c :: first, others, rfl, ?_, ⟨rest, congrArg (c :: ·) hl, hrest⟩, hlater⟩
        exact List.forall_mem_cons.2 ⟨Bool.not_eq_true _ ▸ hc, hfirst⟩

/-- The pieces of a list are its longest runs without a separator. -/
theorem mem_splitOnP_iff : word ∈ l.splitOnP sep ↔ IsRunOf sep word l := by
  constructor
  · intro hword
    obtain ⟨first, others, hsplit, hfirst, ⟨rest, hl, hrest⟩, hothers⟩ := splitOnP_pieces sep l
    rw [hsplit] at hword
    obtain rfl | hword := List.mem_cons.1 hword
    · exact ⟨hfirst, [], rest, hl, by simp, hrest⟩
    · obtain ⟨hall, before, s, after, hl, hs, hafter⟩ := hothers word hword
      refine ⟨hall, before ++ [s], after, by simp [hl], ?_, hafter⟩
      simpa using hs
  · rintro ⟨hall, before, after, rfl, hbefore, hafter⟩
    have hfrom : word ∈ (word ++ after).splitOnP sep := by
      cases after with
      | nil =>
          simp [List.splitOnP_eq_singleton hall]
      | cons s after =>
          rw [List.splitOnP_append_cons_of_forall_mem hall s (hafter s rfl)]
          exact List.mem_cons_self
    obtain rfl | ⟨front, s, rfl⟩ := List.eq_nil_or_concat before
    · exact hfrom
    · have hs : sep s = true := hbefore s (by simp)
      rw [List.append_assoc, List.concat_eq_append, List.append_assoc, List.singleton_append,
        List.splitOnP_append_cons front _ hs]
      exact List.mem_append_right _ hfrom

end Words

/-! ### Numbers -/

/-- What ends a text begins after the last character that does not belong to it. -/
theorem tail_unique {p : Char → Bool} {ds ds' rest rest' : List Char} {c d : Char} (hds : ∀ x ∈ ds, p x = true)
    (hds' : ∀ x ∈ ds', p x = true) (hc : p c = false) (hd : p d = false)
    (h : rest ++ c :: ds = rest' ++ d :: ds') : rest = rest' ∧ c = d ∧ ds = ds' := by
  have htake : ∀ (rest : List Char) {ds : List Char} {c : Char}, (∀ x ∈ ds, p x = true) → p c = false →
      (rest ++ c :: ds).reverse.takeWhile p = ds.reverse := by
    intro rest ds c hds hc
    rw [List.reverse_append, List.reverse_cons, List.append_assoc, List.takeWhile_append_of_pos fun x hx =>
      hds x (List.mem_reverse.1 hx)]
    simp [hc]
  have hsame : ds = ds' := by
    rw [← List.reverse_inj, ← htake rest hds hc, ← htake rest' hds' hd, h]
  subst hsame
  obtain ⟨hrest, htail⟩ := List.append_inj' h rfl
  exact ⟨hrest, (List.cons.inj htail).1, rfl⟩

/-- A number at the end of a text begins after the last character that is no digit. -/
theorem digits_last {ds ds' rest rest' : List Char} {c d : Char} (hds : ∀ x ∈ ds, x.isDigit = true)
    (hds' : ∀ x ∈ ds', x.isDigit = true) (hc : c.isDigit = false) (hd : d.isDigit = false)
    (h : rest ++ c :: ds = rest' ++ d :: ds') : rest = rest' ∧ c = d ∧ ds = ds' :=
  tail_unique hds hds' hc hd h

theorem repr_digits (n : ℕ) : ∀ x ∈ n.repr.toList, x.isDigit = true := by
  intro x hx
  rw [Nat.toList_repr] at hx
  exact Nat.isDigit_of_mem_toDigits (by omega) (by omega) hx

theorem repr_inj {m n : ℕ} (h : m.repr.toList = n.repr.toList) : m = n :=
  Nat.repr_injective (String.toList_injective h)

/-- The digits of a number end where another character stands. -/
theorem digits_unique {m n : ℕ} {c d : Char} {rest rest' : List Char} (hc : c.isDigit = false)
    (hd : d.isDigit = false) (h : m.repr.toList ++ c :: rest = n.repr.toList ++ d :: rest') : m = n ∧ c = d := by
  have htake : ∀ (k : ℕ) (x : Char) (l : List Char), x.isDigit = false →
      (k.repr.toList ++ x :: l).takeWhile Char.isDigit = k.repr.toList := by
    intro k x l hx
    rw [List.takeWhile_append_of_pos (repr_digits k)]
    simp [hx]
  have hsame : m.repr.toList = n.repr.toList := by
    rw [← htake m c rest hc, ← htake n d rest' hd, h]
  refine ⟨repr_inj hsame, ?_⟩
  rw [hsame] at h
  exact (List.cons.inj (List.append_cancel_left h)).1

/-! ### Stripping -/

/-- White space, as `str.isspace` has it. -/
def isSpace (c : Char) : Bool :=
  let n := c.toNat
  (9 ≤ n && n ≤ 13) || (28 ≤ n && n ≤ 32) || n == 0x85 || n == 0xA0 || n == 0x1680 ||
    (0x2000 ≤ n && n ≤ 0x200A) || n == 0x2028 || n == 0x2029 || n == 0x202F || n == 0x205F ||
    n == 0x3000

/-- The text without the white space at its two ends. -/
def strip (s : String) : String :=
  String.ofList (((s.toList.dropWhile isSpace).reverse.dropWhile isSpace).reverse)

theorem dropWhile_of_head {p : Char → Bool} {l : List Char} (h : ∀ c ∈ l.head?, p c = false) :
    l.dropWhile p = l := by
  cases l with
  | nil =>
      rfl
  | cons c rest =>
      have hc : p c = false := h c (by simp)
      simp [hc]

theorem head_dropWhile {p : Char → Bool} (l : List Char) : ∀ c ∈ (l.dropWhile p).head?, p c = false := by
  intro c hc
  have := List.head?_dropWhile_not p l
  rw [Option.mem_def.1 hc] at this
  exact this

/-- Dropping at the far end leaves the near end as it is, unless nothing is left. -/
theorem head_reverse_dropWhile {p : Char → Bool} {l : List Char} (h : ∀ c ∈ l.head?, p c = false) :
    ∀ c ∈ ((l.reverse.dropWhile p).reverse).head?, p c = false := by
  intro c hc
  have hleads : (l.reverse.dropWhile p).reverse <+: l := by
    rw [← List.reverse_suffix, List.reverse_reverse]
    exact List.dropWhile_suffix p
  obtain ⟨rest, hrest⟩ := hleads
  apply h
  rw [← hrest, List.head?_append, Option.mem_def.1 hc]
  rfl

/-- Stripping twice is stripping once. -/
theorem strip_strip (s : String) : strip (strip s) = strip s := by
  simp only [strip, String.toList_ofList]
  rw [dropWhile_of_head (head_reverse_dropWhile (head_dropWhile s.toList)), List.reverse_reverse,
    dropWhile_of_head (head_dropWhile _)]

end Text
