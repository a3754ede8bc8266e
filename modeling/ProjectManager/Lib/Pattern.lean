import Mathlib.Data.List.Infix

/-!
# Patterns

The regular expressions of the modelled programs: runs of characters of a class, one after the other,
and word boundaries.  A run takes as many characters as it can and gives back one at a time, so that
`matchAt` finds the match that a backtracking matcher finds first.
-/

namespace Pattern

/-- One part of a pattern: between `lo` and `hi` characters of a class, or a word boundary. -/
inductive Part where
  | run (cls : Char → Bool) (lo : ℕ) (hi : Option ℕ)
  | boundary

/-- The characters of a text, one after the other. -/
def lit (s : String) : List Part :=
  s.toList.map fun c => .run (fun d => d == c) 1 (some 1)

/-- One character of a class. -/
def one (cls : Char → Bool) : Part :=
  .run cls 1 (some 1)

/-- At least `lo` characters of a class. -/
def atLeast (lo : ℕ) (cls : Char → Bool) : Part :=
  .run cls lo none

/-- Exactly `n` characters of a class. -/
def exactly (n : ℕ) (cls : Char → Bool) : Part :=
  .run cls n (some n)

/-! ### Matching -/

/-- How many characters a run takes at most. -/
def runLength (cls : Char → Bool) : Option ℕ → List Char → ℕ
  | some 0, _ => 0
  | _, [] => 0
  | hi, c :: cs => if cls c then 1 + runLength cls (hi.map fun n => n - 1) cs else 0

/-- The first success among `n`, `n - 1`, ..., `lo`. -/
def firstDown {α : Type} (lo : ℕ) (f : ℕ → Option α) : ℕ → Option α
  | 0 => if lo = 0 then f 0 else none
  | n + 1 => if n + 1 < lo then none else (f (n + 1)).or (firstDown lo f n)

/-- Whether exactly one of the neighbours is a word character. -/
def atBoundary (word : Char → Bool) (prev next : Option Char) : Bool :=
  prev.any word != next.any word

/-- The text after the match that begins here; `prev` is the character before. -/
def matchAt (word : Char → Bool) : List Part → Option Char → List Char → Option (List Char)
  | [], _, text => some text
  | .boundary :: parts, prev, text =>
      if atBoundary word prev text.head? then matchAt word parts prev text else none
  | .run cls lo hi :: parts, prev, text =>
      firstDown lo
        (fun n => matchAt word parts ((text.take n).getLast?.or prev) (text.drop n))
        (runLength cls hi text)

/-- `re.search`: the pattern matches somewhere. -/
def search (word : Char → Bool) (parts : List Part) : Option Char → List Char → Bool
  | prev, [] => (matchAt word parts prev []).isSome
  | prev, c :: cs => (matchAt word parts prev (c :: cs)).isSome || search word parts (some c) cs

/-- The loop of `re.sub` on patterns that match no empty text; `fuel` bounds the characters left. -/
def replaceFrom (word : Char → Bool) (parts : List Part) (new : List Char) :
    ℕ → Option Char → List Char → List Char
  | 0, _, text => text
  | _ + 1, _, [] => []
  | fuel + 1, prev, c :: cs =>
      match matchAt word parts prev (c :: cs) with
      | some rest =>
          new ++ replaceFrom word parts new fuel (((c :: cs).take (cs.length + 1 - rest.length)).getLast?) rest
      | none => c :: replaceFrom word parts new fuel (some c) cs

/-- `re.sub`: every match, from the left, replaced. -/
def replaceAll (word : Char → Bool) (parts : List Part) (new text : String) : String :=
  String.ofList (replaceFrom word parts new.toList text.length none text.toList)

example : search Char.isAlphanum (lit "AKIA" ++ [exactly 2 Char.isDigit]) none "x AKIA17".toList = true := by
  decide

example : replaceAll Char.isAlphanum (lit "ab" ++ [atLeast 1 Char.isDigit]) "*" "ab12ab c ab7" = "*ab c *" := by
  decide

end Pattern
