import Mathlib.Data.List.Basic
import Mathlib.Tactic.SplitIfs

/-!
# Canonical JSON texts

The compact ASCII-only JSON of values of a fixed shape: strings, lists and objects whose keys are
known in advance.  A `Code` writes the values of one type and carries the proof that the text can
be read back, whatever follows it; `Code.render_injective` says that two values with one text are
equal.
-/

namespace CanonicalJson

/-! ### Escapes -/

def hexDigits : List Char :=
  "0123456789abcdef".toList

/-- A hexadecimal digit below sixteen. -/
def hexDigit (k : ℕ) : Char :=
  hexDigits.getD k '0'

def hexVal (c : Char) : ℕ :=
  hexDigits.idxOf c

theorem hexVal_hexDigit : ∀ k < 16, hexVal (hexDigit k) = k := by
  decide

/-- The escape of a code unit: a backslash, `u` and four hexadecimal digits. -/
def unicode (n : ℕ) : List Char :=
  ['\\', 'u', hexDigit (n / 4096 % 16), hexDigit (n / 256 % 16), hexDigit (n / 16 % 16), hexDigit (n % 16)]

/-- The code unit that four hexadecimal digits stand for. -/
def unhex (a b c d : Char) : ℕ :=
  hexVal a * 4096 + hexVal b * 256 + hexVal c * 16 + hexVal d

theorem unhex_unicode {n : ℕ} (h : n < 65536) :
    unhex (hexDigit (n / 4096 % 16)) (hexDigit (n / 256 % 16)) (hexDigit (n / 16 % 16))
      (hexDigit (n % 16)) = n := by
  unfold unhex
  rw [hexVal_hexDigit _ (by omega), hexVal_hexDigit _ (by omega), hexVal_hexDigit _ (by omega),
    hexVal_hexDigit _ (by omega)]
  omega

/-- A character inside a string: printable ASCII stands for itself, the rest is escaped, above the
basic plane as a surrogate pair. -/
def escape (c : Char) : List Char :=
  if c = '"' then ['\\', '"']
  else if c = '\\' then ['\\', '\\']
  else if c = '\n' then ['\\', 'n']
  else if c = '\r' then ['\\', 'r']
  else if c = '\t' then ['\\', 't']
  else if c = '\x08' then ['\\', 'b']
  else if c = '\x0c' then ['\\', 'f']
  else if 32 ≤ c.toNat ∧ c.toNat ≤ 126 then [c]
  else if c.toNat < 0x10000 then unicode c.toNat
  else unicode (0xd800 + (c.toNat - 0x10000) / 1024) ++ unicode (0xdc00 + (c.toNat - 0x10000) % 1024)

/-- Reads one character back, and what follows it. -/
def unescape : List Char → Option (Char × List Char)
  | '\\' :: 'u' :: a :: b :: c :: d :: rest =>
      if 0xd800 ≤ unhex a b c d ∧ unhex a b c d < 0xdc00 then
        match rest with
        | '\\' :: 'u' :: a' :: b' :: c' :: d' :: rest' =>
            some (Char.ofNat (0x10000 + (unhex a b c d - 0xd800) * 1024 + (unhex a' b' c' d' - 0xdc00)), rest')
        | _ => none
      else
        some (Char.ofNat (unhex a b c d), rest)
  | '\\' :: 'n' :: rest => some ('\n', rest)
  | '\\' :: 'r' :: rest => some ('\r', rest)
  | '\\' :: 't' :: rest => some ('\t', rest)
  | '\\' :: 'b' :: rest => some ('\x08', rest)
  | '\\' :: 'f' :: rest => some ('\x0c', rest)
  | '\\' :: c :: rest => some (c, rest)
  | c :: rest => some (c, rest)
  | [] => none

theorem toNat_valid (c : Char) : c.toNat < 0xd800 ∨ 0xdfff < c.toNat ∧ c.toNat < 0x110000 := by
  have h := c.valid
  simpa [UInt32.isValidChar, Nat.isValidChar] using h

/-- A character that stands for itself is read back as itself. -/
theorem unescape_plain {c : Char} (h : c ≠ '\\') (rest : List Char) :
    unescape (c :: rest) = some (c, rest) := by
  unfold unescape
  split <;> simp_all

theorem unescape_unicode {n : ℕ} (hn : n < 65536) (hplain : ¬ (0xd800 ≤ n ∧ n < 0xdc00)) (rest : List Char) :
    unescape (unicode n ++ rest) = some (Char.ofNat n, rest) := by
  simp only [unicode, List.cons_append, List.nil_append, unescape, unhex_unicode hn]
  rw [if_neg hplain]

theorem unescape_pair {v : ℕ} (hv : v < 0x100000) (rest : List Char) :
    unescape (unicode (0xd800 + v / 1024) ++ unicode (0xdc00 + v % 1024) ++ rest) =
      some (Char.ofNat (0x10000 + v), rest) := by
  have hhi : 0xd800 + v / 1024 < 65536 := by omega
  have hlo : 0xdc00 + v % 1024 < 65536 := by omega
  simp only [unicode, List.cons_append, List.nil_append, unescape, unhex_unicode hhi, unhex_unicode hlo]
  rw [if_pos (by omega)]
  have hsum : 0x10000 + (0xd800 + v / 1024 - 0xd800) * 1024 + (0xdc00 + v % 1024 - 0xdc00) = 0x10000 + v := by
    omega
  rw [hsum]

theorem unescape_escape (c : Char) (rest : List Char) : unescape (escape c ++ rest) = some (c, rest) := by
  have hvalid := toNat_valid c
  unfold escape
  split_ifs with h1 h2 h3 h4 h5 h6 h7 hprint hbasic
  · subst h1
    rfl
  · subst h2
    rfl
  · subst h3
    rfl
  · subst h4
    rfl
  · subst h5
    rfl
  · subst h6
    rfl
  · subst h7
    rfl
  · exact unescape_plain h2 rest
  · rw [unescape_unicode (by omega) (by omega), Char.ofNat_toNat]
  · rw [unescape_pair (by omega)]
    have hsum : 0x10000 + (c.toNat - 0x10000) = c.toNat := by omega
    rw [hsum, Char.ofNat_toNat]

/-- No escape begins with a quotation mark. -/
theorem escape_head (c : Char) : ∃ d t, escape c = d :: t ∧ d ≠ '"' := by
  unfold escape
  split_ifs with h1 <;> first | exact ⟨_, _, rfl, h1⟩ | exact ⟨_, _, rfl, by decide⟩

/-! ### Parts and codes -/

/-- Texts that can be read back, whatever follows. -/
structure Part (α : Type) where
  enc : α → List Char
  inj : ∀ {a b : α} {r s : List Char}, enc a ++ r = enc b ++ s → a = b ∧ r = s

/-- A part whose texts all begin with one character, by which a reader knows what comes. -/
structure Code (α : Type) extends Part α where
  head : Char
  starts : ∀ a, ∃ t, enc a = head :: t

variable {α β : Type}

/-- The characters of a string up to its closing quotation mark. -/
theorem quoted_inj {l m r s : List Char}
    (h : l.flatMap escape ++ '"' :: r = m.flatMap escape ++ '"' :: s) : l = m ∧ r = s := by
  induction l generalizing m with
  | nil =>
      cases m with
      | nil =>
          simpa using h
      | cons d m =>
          obtain ⟨e, t, he, hne⟩ := escape_head d
          simp only [List.flatMap_nil, List.flatMap_cons, he, List.nil_append, List.cons_append] at h
          exact absurd (List.cons.inj h).1.symm hne
  | cons c l ih =>
      cases m with
      | nil =>
          obtain ⟨e, t, he, hne⟩ := escape_head c
          simp only [List.flatMap_nil, List.flatMap_cons, he, List.nil_append, List.cons_append] at h
          exact absurd (List.cons.inj h).1 hne
      | cons d m =>
          rw [List.flatMap_cons, List.flatMap_cons, List.append_assoc, List.append_assoc] at h
          have hread := congrArg unescape h
          rw [unescape_escape, unescape_escape] at hread
          obtain ⟨rfl, htail⟩ := Prod.mk.inj (Option.some.inj hread)
          obtain ⟨rfl, rfl⟩ := ih htail
          exact ⟨rfl, rfl⟩

/-- A string. -/
def text : Code String where
  enc s := '"' :: (s.toList.flatMap escape ++ ['"'])
  inj := by
    intro a b r s h
    have hquoted : a.toList.flatMap escape ++ '"' :: r = b.toList.flatMap escape ++ '"' :: s := by
      simpa using h
    obtain ⟨hchars, rfl⟩ := quoted_inj hquoted
    exact ⟨String.toList_injective hchars, rfl⟩
  head := '"'
  starts := fun _ => ⟨_, rfl⟩

/-- The elements after the first, each behind a comma. -/
def behindCommas (c : Part α) (l : List α) : List Char :=
  l.flatMap fun a => ',' :: c.enc a

theorem behindCommas_inj (c : Part α) {l m : List α} {r s : List Char}
    (h : behindCommas c l ++ ']' :: r = behindCommas c m ++ ']' :: s) : l = m ∧ r = s := by
  induction l generalizing m with
  | nil =>
      cases m with
      | nil =>
          simpa [behindCommas] using h
      | cons b m =>
          simp [behindCommas] at h
  | cons a l ih =>
      cases m with
      | nil =>
          simp [behindCommas] at h
      | cons b m =>
          simp only [behindCommas, List.flatMap_cons, List.cons_append, List.append_assoc, List.cons.injEq,
            true_and] at h
          obtain ⟨rfl, htail⟩ := c.inj h
          obtain ⟨rfl, rfl⟩ := ih htail
          exact ⟨rfl, rfl⟩

/-- The elements of a list, separated by commas, and the closing bracket. -/
def elements (c : Part α) : List α → List Char
  | [] => [']']
  | a :: l => c.enc a ++ (behindCommas c l ++ [']'])

/-- A list. -/
def list (c : Code α) (hhead : c.head ≠ ']') : Code (List α) where
  enc l := '[' :: elements c.toPart l
  inj := by
    intro l m r s h
    simp only [List.cons_append, List.cons.injEq, true_and] at h
    cases l with
    | nil =>
        cases m with
        | nil =>
            simpa [elements] using h
        | cons b m =>
            obtain ⟨t, ht⟩ := c.starts b
            simp only [elements, ht, List.cons_append, List.nil_append, List.cons.injEq] at h
            exact absurd h.1.symm hhead
    | cons a l =>
        cases m with
        | nil =>
            obtain ⟨t, ht⟩ := c.starts a
            simp only [elements, ht, List.cons_append, List.nil_append, List.cons.injEq] at h
            exact absurd h.1 hhead
        | cons b m =>
            simp only [elements, List.append_assoc, List.cons_append, List.nil_append] at h
            obtain ⟨rfl, htail⟩ := c.inj h
            obtain ⟨rfl, rfl⟩ := behindCommas_inj c.toPart htail
            exact ⟨rfl, rfl⟩
  head := '['
  starts := fun _ => ⟨_, rfl⟩

/-- One field of an object: its name, a colon and its value. -/
def field (name : String) (c : Code α) : Part α where
  enc a := text.enc name ++ ':' :: c.enc a
  inj := by
    intro a b r s h
    simp only [List.append_assoc, List.cons_append] at h
    exact c.inj (List.cons.inj (List.append_cancel_left h)).2

/-- Two groups of fields, one after the other. -/
def Part.comma (p : Part α) (q : Part β) : Part (α × β) where
  enc x := p.enc x.1 ++ ',' :: q.enc x.2
  inj := by
    intro x y r s h
    simp only [List.append_assoc, List.cons_append] at h
    obtain ⟨hfst, htail⟩ := p.inj h
    obtain ⟨hsnd, rfl⟩ := q.inj (List.cons.inj htail).2
    exact ⟨Prod.ext hfst hsnd, rfl⟩

/-- An object with these fields. -/
def object (p : Part α) : Code α where
  enc a := '{' :: (p.enc a ++ ['}'])
  inj := by
    intro a b r s h
    simp only [List.cons_append, List.append_assoc, List.nil_append, List.cons.injEq, true_and] at h
    obtain ⟨rfl, htail⟩ := p.inj h
    exact ⟨rfl, (List.cons.inj htail).2⟩
  head := '{'
  starts := fun _ => ⟨_, rfl⟩

/-- The text of a value. -/
def Code.render (c : Code α) (a : α) : String :=
  String.ofList (c.enc a)

/-- Two values with one text are equal. -/
theorem Code.render_injective (c : Code α) : Function.Injective c.render := by
  intro a b h
  have henc : c.enc a ++ [] = c.enc b ++ [] := by
    simpa [render] using congrArg String.toList h
  exact (c.inj henc).1

example : (list text (by decide)).render ["a\"b", "é"] = "[\"a\\\"b\",\"\\u00e9\"]" := by
  decide

end CanonicalJson
