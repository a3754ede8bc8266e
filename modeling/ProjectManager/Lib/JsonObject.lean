import ProjectManager.Lib.CanonicalJson
import ProjectManager.Lib.Text

/-!
# JSON objects of numbers

The text that `json.dumps` writes of a dict from strings to natural numbers, and its reading: `loads_dumps`.
-/

namespace JsonObject

open CanonicalJson

/-! ### Writing -/

/-- A key and its number. -/
def entry (x : String × ℕ) : List Char :=
  '"' :: (x.1.toList.flatMap escape ++ '"' :: ':' :: ' ' :: x.2.repr.toList)

/-- The entries behind the first, and the end. -/
def behind : List (String × ℕ) → List Char
  | [] => ['}']
  | x :: d => ',' :: ' ' :: (entry x ++ behind d)

/-- `json.dumps`. -/
def dumps : List (String × ℕ) → String
  | [] => "\x7b\x7d"
  | x :: d => String.ofList ('\x7b' :: (entry x ++ behind d))

/-! ### Reading -/

/-- The characters up to the closing quotation mark, at most `n`, and what follows. -/
def readQuoted : ℕ → List Char → Option (List Char × List Char)
  | _, '"' :: l => some ([], l)
  | 0, _ => none
  | n + 1, l => do
      let (c, l) ← unescape l
      let (s, l) ← readQuoted n l
      return (c :: s, l)

/-- A number, and what follows. -/
def readNumber (l : List Char) : Option (ℕ × List Char) :=
  if l.takeWhile Char.isDigit = [] then none
  else some (Nat.ofDigitChars 10 (l.takeWhile Char.isDigit) 0, l.dropWhile Char.isDigit)

/-- An entry, and what follows. -/
def readEntry : List Char → Option ((String × ℕ) × List Char)
  | '"' :: l => do
      match ← readQuoted l.length l with
      | (key, ':' :: ' ' :: l) => do
          let (n, l) ← readNumber l
          return ((String.ofList key, n), l)
      | _ => none
  | _ => none

/-- At most `n` entries behind the first. -/
def readBehind : ℕ → List Char → Option (List (String × ℕ))
  | _, ['}'] => some []
  | n + 1, ',' :: ' ' :: l => do
      let (x, l) ← readEntry l
      let d ← readBehind n l
      return x :: d
  | _, _ => none

/-- `json.loads`, on texts that `dumps` writes; other texts are refused. -/
def loads (s : String) : Option (List (String × ℕ)) :=
  match s.toList with
  | ['\x7b', '\x7d'] => some []
  | '\x7b' :: l => do
      let (x, l) ← readEntry l
      let d ← readBehind l.length l
      return x :: d
  | _ => none

/-! ### The round trip -/

theorem readQuoted_quoted (s rest : List Char) {n : ℕ} (hn : s.length ≤ n) :
    readQuoted n (s.flatMap escape ++ '"' :: rest) = some (s, rest) := by
  induction s generalizing n with
  | nil =>
      cases n <;> rfl
  | cons c s ih =>
      obtain ⟨d, t, hescape, hd⟩ := escape_head c
      cases n with
      | zero =>
          simp at hn
      | succ n =>
          have hread : unescape (d :: (t ++ (s.flatMap escape ++ '"' :: rest))) = some (c, s.flatMap escape ++ '"' :: rest) := by
            have h := unescape_escape c (s.flatMap escape ++ '"' :: rest)
            rwa [hescape] at h
          rw [List.flatMap_cons, List.append_assoc, hescape, List.cons_append]
          rw [readQuoted]
          · rw [hread]
            simp only [Option.bind_eq_bind, Option.bind_some]
            rw [ih (by simpa using hn)]
            rfl
          · intro l h
            exact hd (List.cons.inj h).1

theorem readNumber_repr (n : ℕ) {c : Char} (hc : c.isDigit = false) (rest : List Char) :
    readNumber (n.repr.toList ++ c :: rest) = some (n, c :: rest) := by
  have htake : (n.repr.toList ++ c :: rest).takeWhile Char.isDigit = n.repr.toList := by
    rw [List.takeWhile_append_of_pos (Text.repr_digits n)]
    simp [hc]
  have hdrop : (n.repr.toList ++ c :: rest).dropWhile Char.isDigit = c :: rest := by
    rw [List.dropWhile_append_of_pos (Text.repr_digits n)]
    simp [hc]
  have hne : n.repr.toList ≠ [] := by
    rw [Nat.toList_repr]
    exact Nat.toDigits_ne_nil
  unfold readNumber
  rw [htake, hdrop, if_neg hne, Nat.toList_repr, Nat.ofDigitChars_ten_toDigits]

theorem length_flatMap_escape (s : List Char) : s.length ≤ (s.flatMap escape).length := by
  induction s with
  | nil =>
      simp
  | cons c s ih =>
      obtain ⟨d, t, hescape, -⟩ := escape_head c
      rw [List.flatMap_cons, hescape, List.length_cons, List.length_append, List.length_cons]
      omega

theorem readEntry_entry (x : String × ℕ) {c : Char} (hc : c.isDigit = false) (rest : List Char) :
    readEntry (entry x ++ c :: rest) = some (x, c :: rest) := by
  obtain ⟨key, n⟩ := x
  have hfuel : key.toList.length ≤ (key.toList.flatMap escape ++ '"' :: ':' :: ' ' :: (n.repr.toList ++ c :: rest)).length := by
    rw [List.length_append]
    exact (length_flatMap_escape _).trans (Nat.le_add_right _ _)
  have hquoted := readQuoted_quoted key.toList (':' :: ' ' :: (n.repr.toList ++ c :: rest)) hfuel
  simp only [entry, List.cons_append, List.append_assoc, readEntry]
  rw [hquoted]
  simp only [Option.bind_eq_bind, Option.bind_some]
  rw [readNumber_repr n hc]
  simp

theorem behind_head (d : List (String × ℕ)) : ∃ c rest, behind d = c :: rest ∧ c.isDigit = false := by
  cases d with
  | nil =>
      exact ⟨'}', [], rfl, by decide⟩
  | cons x d =>
      exact ⟨',', _, rfl, by decide⟩

theorem readBehind_behind (d : List (String × ℕ)) {n : ℕ} (hn : d.length ≤ n) : readBehind n (behind d) = some d := by
  induction d generalizing n with
  | nil =>
      cases n <;> rfl
  | cons x d ih =>
      cases n with
      | zero =>
          simp at hn
      | succ n =>
          obtain ⟨c, rest, hbehind, hc⟩ := behind_head d
          rw [behind, hbehind, readBehind, readEntry_entry x hc, ← hbehind]
          simp only [Option.bind_eq_bind, Option.bind_some]
          rw [ih (by simpa using hn)]
          rfl

theorem length_behind (d : List (String × ℕ)) : d.length ≤ (behind d).length := by
  induction d with
  | nil =>
      simp
  | cons x d ih =>
      rw [behind, List.length_cons, List.length_cons, List.length_cons, List.length_append]
      omega

/-- What was written is read back. -/
theorem loads_dumps (d : List (String × ℕ)) : loads (dumps d) = some d := by
  cases d with
  | nil =>
      rfl
  | cons x d =>
      obtain ⟨c, rest, hbehind, hc⟩ := behind_head d
      unfold loads dumps
      rw [String.toList_ofList, entry, List.cons_append]
      change (readEntry (entry x ++ behind d)).bind _ = _
      rw [hbehind, readEntry_entry x hc, ← hbehind, Option.bind_some]
      change (readBehind (behind d).length (behind d)).bind _ = _
      rw [readBehind_behind d (length_behind d)]
      rfl

example : loads "\x7b\"t/s1\": 1, \"t/s2\": 0\x7d" = some [("t/s1", 1), ("t/s2", 0)] := by decide +kernel

end JsonObject
