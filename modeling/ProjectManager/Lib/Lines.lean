import Mathlib.Data.List.Infix
import Mathlib.Data.List.TakeWhile

/-!
# Lines

`linesBy` cuts a text at the line boundaries of some kind, and a text that ends with one has no empty line behind it;
`splitlines` takes every line boundary of Unicode.  What is free of boundaries stays in one line (`infix_iff_line`),
joined lines are read back (`splitlines_join`), and a text that is put together at a line feed has the lines of its parts
(`linesBy_append`).
-/

namespace Lines

/-- Characters that end a line, the carriage return and the line feed among them. -/
structure Breaks (brk : Char → Bool) : Prop where
  cr : brk '\r' = true
  lf : brk '\n' = true

/-- No line boundary is in the text. -/
def OneLineBy (brk : Char → Bool) (l : List Char) : Prop :=
  ∀ c ∈ l, brk c = false

/-- The lines of a text, without their boundaries; a carriage return and a line feed are one boundary. -/
def linesBy (brk : Char → Bool) : List Char → List (List Char)
  | [] => []
  | '\r' :: '\n' :: rest => [] :: linesBy brk rest
  | c :: rest =>
    if brk c then
      [] :: linesBy brk rest
    else
      match linesBy brk rest with
      | [] => [[c]]
      | line :: lines => (c :: line) :: lines

/-- The line boundaries of Unicode. -/
def isBreak (c : Char) : Bool :=
  let n := c.toNat
  (10 ≤ n && n ≤ 13) || (28 ≤ n && n ≤ 30) || n == 0x85 || n == 0x2028 || n == 0x2029

/-- `str.splitlines`. -/
abbrev splitlines : List Char → List (List Char) :=
  linesBy isBreak

/-- No line boundary of Unicode is in the text. -/
abbrev OneLine : List Char → Prop :=
  OneLineBy isBreak

theorem isBreak_breaks : Breaks isBreak :=
  ⟨by decide, by decide⟩

variable {brk : Char → Bool} {l w t rest : List Char} {c : Char} {ls : List (List Char)}

theorem OneLineBy.nil : OneLineBy brk [] := by
  simp [OneLineBy]

theorem OneLineBy.of_infix (h : OneLineBy brk l) (hw : w <:+: l) : OneLineBy brk w :=
  fun c hc => h c (hw.subset hc)

theorem oneLine_cons : OneLineBy brk (c :: l) ↔ brk c = false ∧ OneLineBy brk l := by
  simp [OneLineBy]

/-! ### A line and what follows -/

theorem linesBy_other (hc : brk c = false) (hcr : ∀ rest', c = '\r' → rest = '\n' :: rest' → False) :
    linesBy brk (c :: rest) =
      match linesBy brk rest with
      | [] => [[c]]
      | line :: lines => (c :: line) :: lines := by
  rw [linesBy.eq_def]
  split
  · rename_i heq
    cases heq
  · rename_i heq
    obtain ⟨rfl, rfl⟩ := List.cons.inj heq
    exact (hcr _ rfl rfl).elim
  · rename_i heq
    obtain ⟨rfl, rfl⟩ := List.cons.inj heq
    rw [if_neg (by simp [hc])]

theorem linesBy_cons (hbrk : Breaks brk) (hc : brk c = false) (rest : List Char) : linesBy brk (c :: rest) =
    match linesBy brk rest with
    | [] => [[c]]
    | line :: lines => (c :: line) :: lines := by
  apply linesBy_other hc
  rintro rest' rfl -
  rw [hbrk.cr] at hc
  cases hc

theorem linesBy_break_of_ne (hc : brk c = true) (hcr : ∀ rest', c = '\r' → rest = '\n' :: rest' → False) :
    linesBy brk (c :: rest) = [] :: linesBy brk rest := by
  rw [linesBy.eq_def]
  split
  · rename_i heq
    cases heq
  · rename_i heq
    obtain ⟨rfl, rfl⟩ := List.cons.inj heq
    exact (hcr _ rfl rfl).elim
  · rename_i heq
    obtain ⟨rfl, rfl⟩ := List.cons.inj heq
    rw [if_pos hc]

/-- A text that is not empty has a line. -/
theorem linesBy_cons_ne_nil (c : Char) (rest : List Char) : linesBy brk (c :: rest) ≠ [] := by
  by_cases hpair : c = '\r' ∧ rest.head? = some '\n'
  · obtain ⟨rfl, hhead⟩ := hpair
    obtain ⟨rest, rfl⟩ := List.head?_eq_some_iff.1 hhead
    exact List.cons_ne_nil [] (linesBy brk rest)
  · have hcr : ∀ rest', c = '\r' → rest = '\n' :: rest' → False := by
      rintro rest' rfl rfl
      exact hpair ⟨rfl, rfl⟩
    cases hc : brk c with
    | true =>
        rw [linesBy_break_of_ne hc hcr]
        exact List.cons_ne_nil _ _
    | false =>
        rw [linesBy_other hc hcr]
        cases linesBy brk rest with
        | nil => exact List.cons_ne_nil _ _
        | cons line lines => exact List.cons_ne_nil _ _

theorem linesBy_break (hc : brk c = true) (hcr : c ≠ '\r') (rest : List Char) :
    linesBy brk (c :: rest) = [] :: linesBy brk rest :=
  linesBy_break_of_ne hc fun _ heq => absurd heq hcr

theorem linesBy_oneLine (hbrk : Breaks brk) (h : OneLineBy brk l) (hne : l ≠ []) : linesBy brk l = [l] := by
  induction l with
  | nil =>
      exact absurd rfl hne
  | cons c l ih =>
      obtain ⟨hc, hl⟩ := oneLine_cons.1 h
      rw [linesBy_cons hbrk hc]
      cases l with
      | nil =>
          rfl
      | cons d l =>
          rw [ih hl (by simp)]

theorem linesBy_append_break (hbrk : Breaks brk) (h : OneLineBy brk l) (hc : brk c = true) (hcr : c ≠ '\r') (rest : List Char) :
    linesBy brk (l ++ c :: rest) = l :: linesBy brk rest := by
  induction l with
  | nil =>
      exact linesBy_break hc hcr rest
  | cons d l ih =>
      obtain ⟨hd, hl⟩ := oneLine_cons.1 h
      rw [List.cons_append, linesBy_cons hbrk hd, ih hl]

/-- Behind a line comes the rest of the text, perhaps without the second half of the boundary. -/
theorem linesBy_append_any_break (hbrk : Breaks brk) (h : OneLineBy brk l) (hc : brk c = true) (rest : List Char) :
    ∃ behind, behind <:+ rest ∧ linesBy brk (l ++ c :: rest) = l :: linesBy brk behind := by
  induction l with
  | nil =>
      by_cases hpair : c = '\r' ∧ rest.head? = some '\n'
      · obtain ⟨rfl, hhead⟩ := hpair
        obtain ⟨rest, rfl⟩ := List.head?_eq_some_iff.1 hhead
        exact ⟨rest, List.suffix_cons _ _, by rw [List.nil_append, linesBy]⟩
      · refine ⟨rest, List.suffix_rfl, linesBy_break_of_ne hc ?_⟩
        rintro rest' rfl rfl
        exact hpair ⟨rfl, rfl⟩
  | cons d l ih =>
      obtain ⟨hd, hl⟩ := oneLine_cons.1 h
      obtain ⟨behind, hsuffix, heq⟩ := ih hl
      exact ⟨behind, hsuffix, by rw [List.cons_append, linesBy_cons hbrk hd, heq]⟩

/-- Lines that are joined by line feeds are read back, unless the last one is empty. -/
theorem linesBy_join (hbrk : Breaks brk) (h : ∀ l ∈ ls, OneLineBy brk l) (hlast : ∀ l ∈ ls.getLast?, l ≠ []) :
    linesBy brk (['\n'].intercalate ls) = ls := by
  induction ls with
  | nil =>
      rfl
  | cons l ls ih =>
      obtain ⟨hl, hls⟩ := List.forall_mem_cons.1 h
      cases ls with
      | nil =>
          rw [List.intercalate_singleton]
          exact linesBy_oneLine hbrk hl (hlast l rfl)
      | cons l' ls =>
          rw [List.intercalate_cons_cons, List.append_assoc, List.singleton_append,
            linesBy_append_break hbrk hl hbrk.lf (by decide), ih hls hlast]

/-- Along the lines of a text: a boundary of two characters or of one, a last character, and one inside a line. -/
@[elab_as_elim]
theorem lines_induction (brk : Char → Bool) {motive : List Char → Prop} (t : List Char) (nil : motive [])
    (pair : ∀ rest, linesBy brk ('\r' :: '\n' :: rest) = [] :: linesBy brk rest → motive rest →
      motive ('\r' :: '\n' :: rest))
    (ends : ∀ c rest, (∀ rest', c = '\r' → rest = '\n' :: rest' → False) → brk c = true →
      linesBy brk (c :: rest) = [] :: linesBy brk rest → motive rest → motive (c :: rest))
    (last : ∀ c, brk c = false → linesBy brk [c] = [[c]] → motive [c])
    (inside : ∀ c rest line lines, (∀ rest', c = '\r' → rest = '\n' :: rest' → False) → brk c = false →
      linesBy brk rest = line :: lines → linesBy brk (c :: rest) = (c :: line) :: lines → motive rest →
        motive (c :: rest)) : motive t := by
  fun_induction linesBy brk t with
  | case1 =>
      exact nil
  | case2 rest ih =>
      exact pair rest rfl ih
  | case3 c rest hcr hc ih =>
      exact ends c rest hcr hc (linesBy_break_of_ne hc hcr) ih
  | case4 c rest hcr hc hnone ih =>
      have hc : brk c = false := by simpa using hc
      cases rest with
      | nil =>
          exact last c hc (linesBy_other hc hcr)
      | cons d rest =>
          exact absurd hnone (linesBy_cons_ne_nil d rest)
  | case5 c rest hcr hc line lines hsome ih =>
      have hc : brk c = false := by simpa using hc
      exact inside c rest line lines hcr hc hsome (by rw [linesBy_other hc hcr, hsome]) ih

theorem linesBy_eq_nil_iff : linesBy brk t = [] ↔ t = [] := by
  cases t with
  | nil =>
      exact iff_of_true rfl rfl
  | cons c rest =>
      exact iff_of_false (linesBy_cons_ne_nil c rest) (List.cons_ne_nil c rest)

/-- A text that is put together at a line feed has the lines of its parts, and perhaps an empty one between them. -/
theorem linesBy_append (hbrk : Breaks brk) (l rest : List Char) :
    ∃ gap, (gap = [] ∨ gap = [[]]) ∧ linesBy brk (l ++ '\n' :: rest) = linesBy brk l ++ gap ++ linesBy brk rest := by
  have hfeed : ∀ rest, linesBy brk ('\n' :: rest) = [] :: linesBy brk rest := fun rest =>
    linesBy_break hbrk.lf (by decide) rest
  have hpair : ∀ rest, linesBy brk ('\r' :: '\n' :: rest) = [] :: linesBy brk rest := fun _ => rfl
  induction l using lines_induction brk with
  | nil =>
      exact ⟨[[]], .inr rfl, hfeed rest⟩
  | pair l hl ih =>
      obtain ⟨gap, hgap, heq⟩ := ih
      refine ⟨gap, hgap, ?_⟩
      rw [List.cons_append, List.cons_append, hpair, heq, hl]
      rfl
  | ends c l hcr hc hl ih =>
      obtain ⟨gap, hgap, heq⟩ := ih
      rw [hl]
      cases l with
      | nil =>
          by_cases hreturn : c = '\r'
          · subst hreturn
            exact ⟨[], .inl rfl, hpair rest⟩
          · refine ⟨gap, hgap, ?_⟩
            rw [List.cons_append, linesBy_break hc hreturn, heq]
            rfl
      | cons d l =>
          refine ⟨gap, hgap, ?_⟩
          have hbehind : ∀ rest', c = '\r' → d :: l ++ '\n' :: rest = '\n' :: rest' → False := by
            intro rest' hreturn hline
            exact hcr l hreturn (by rw [(List.cons.inj hline).1])
          rw [List.cons_append, linesBy_break_of_ne hc hbehind, heq]
          rfl
  | last c hc hl =>
      refine ⟨[], .inl rfl, ?_⟩
      rw [List.singleton_append, linesBy_cons hbrk hc, hfeed, hl]
      rfl
  | inside c l line lines hcr hc hsome hl ih =>
      obtain ⟨gap, hgap, heq⟩ := ih
      refine ⟨gap, hgap, ?_⟩
      rw [List.cons_append, linesBy_cons hbrk hc, heq, hsome, hl]
      rfl

/-- Only the boundaries that are in the text matter. -/
theorem linesBy_congr {brk' : Char → Bool} (h : ∀ c ∈ t, brk c = brk' c) : linesBy brk t = linesBy brk' t := by
  induction t using lines_induction brk with
  | nil =>
      rfl
  | pair rest hl ih =>
      have hpair : linesBy brk' ('\r' :: '\n' :: rest) = [] :: linesBy brk' rest := rfl
      rw [hl, hpair, ih fun c hc => h c (List.mem_cons_of_mem _ (List.mem_cons_of_mem _ hc))]
  | ends c rest hcr hc hl ih =>
      rw [hl, linesBy_break_of_ne ((h c List.mem_cons_self).symm.trans hc) hcr,
        ih fun c hc => h c (List.mem_cons_of_mem _ hc)]
  | last c hc hl =>
      rw [hl, linesBy_other ((h c List.mem_cons_self).symm.trans hc) fun _ _ heq => by cases heq]
      rfl
  | inside c rest line lines hcr hc hsome hl ih =>
      rw [hl, linesBy_other ((h c List.mem_cons_self).symm.trans hc) hcr,
        ← ih fun c hc => h c (List.mem_cons_of_mem _ hc), hsome]

/-! ### Words in a line -/

/-- The lines are without boundaries and parts of the text, and the first one begins it. -/
theorem linesBy_parts (t : List Char) :
    (∀ l ∈ linesBy brk t, OneLineBy brk l ∧ l <:+: t) ∧ ∀ l ∈ (linesBy brk t).head?, l <+: t := by
  induction t using lines_induction brk with
  | nil =>
      exact ⟨List.forall_mem_nil _, fun _ hl => by cases hl⟩
  | pair rest hlines ih =>
      rw [hlines]
      refine ⟨List.forall_mem_cons.2 ⟨⟨OneLineBy.nil, List.nil_infix⟩, fun l hl => ?_⟩, by simp⟩
      obtain ⟨hone, hpiece⟩ := ih.1 l hl
      exact ⟨hone, hpiece.trans ((List.suffix_cons _ _).trans (List.suffix_cons _ _)).isInfix⟩
  | ends c rest hcr hc hlines ih =>
      rw [hlines]
      refine ⟨List.forall_mem_cons.2 ⟨⟨OneLineBy.nil, List.nil_infix⟩, fun l hl => ?_⟩, by simp⟩
      obtain ⟨hone, hpiece⟩ := ih.1 l hl
      exact ⟨hone, hpiece.trans (List.suffix_cons _ _).isInfix⟩
  | last c hc hlines =>
      rw [hlines]
      have hone : OneLineBy brk [c] := by
        simpa [OneLineBy] using hc
      have hleads : [c] <+: [c] := List.prefix_rfl
      exact ⟨List.forall_mem_singleton.2 ⟨hone, hleads.isInfix⟩, by simp⟩
  | inside c rest line lines hcr hc hsome hlines ih =>
      rw [hsome] at ih
      rw [hlines]
      obtain ⟨⟨hfirst, hlater⟩, hleads⟩ := And.imp_left List.forall_mem_cons.1 ih
      have hcons : c :: line <+: c :: rest := List.cons_prefix_cons.2 ⟨rfl, hleads line rfl⟩
      refine ⟨List.forall_mem_cons.2 ⟨⟨?_, hcons.isInfix⟩, fun l hl => ?_⟩, by simpa using hleads line rfl⟩
      · exact oneLine_cons.2 ⟨hc, hfirst.1⟩
      · obtain ⟨hone, hpiece⟩ := hlater l hl
        exact ⟨hone, hpiece.trans (List.suffix_cons _ _).isInfix⟩

theorem mem_linesBy (h : l ∈ linesBy brk t) : OneLineBy brk l ∧ l <:+: t :=
  (linesBy_parts t).1 l h

/-- A word that begins a text begins its first line. -/
theorem prefix_first_line (hbrk : Breaks brk) (hw : OneLineBy brk w) (hne : w ≠ []) (h : w <+: t) :
    ∃ line lines, linesBy brk t = line :: lines ∧ w <+: line := by
  induction w generalizing t with
  | nil =>
      exact absurd rfl hne
  | cons c w ih =>
      obtain ⟨hc, hw⟩ := oneLine_cons.1 hw
      obtain ⟨rest, rfl⟩ := h
      rw [List.cons_append, linesBy_cons hbrk hc]
      cases w with
      | nil =>
          cases linesBy brk ([] ++ rest) with
          | nil =>
              exact ⟨_, _, rfl, List.prefix_rfl⟩
          | cons line lines =>
              exact ⟨_, _, rfl, List.prefix_append [c] line⟩
      | cons d w =>
          obtain ⟨line, lines, hlines, hleads⟩ := ih hw (by simp) (List.prefix_append (d :: w) rest)
          rw [hlines]
          exact ⟨_, _, rfl, List.cons_prefix_cons.2 ⟨rfl, hleads⟩⟩

/-- The first line of a text that begins with a word: the other lines are parts of what is behind the line. -/
theorem linesBy_first (hbrk : Breaks brk) (hw : OneLineBy brk w) (hne : w ≠ []) (t : List Char) :
    ∃ front back lines, t = front ++ back ∧ linesBy brk (w ++ t) = (w ++ front) :: lines ∧
      ∀ l ∈ lines, l <:+: back := by
  have hfront : OneLineBy brk (t.takeWhile fun c => !brk c) := fun c hc => by
    simpa using List.mem_takeWhile_imp hc
  have hone : OneLineBy brk (w ++ t.takeWhile fun c => !brk c) := fun c hc =>
    (List.mem_append.1 hc).elim (hw c) (hfront c)
  refine ⟨t.takeWhile fun c => !brk c, t.dropWhile fun c => !brk c, ?_⟩
  have hsplit : t = (t.takeWhile fun c => !brk c) ++ t.dropWhile fun c => !brk c :=
    List.takeWhile_append_dropWhile.symm
  cases hback : t.dropWhile fun c => !brk c with
  | nil =>
      rw [hback, List.append_nil] at hsplit
      refine ⟨[], by rw [List.append_nil, ← hsplit], ?_, by simp⟩
      rw [← hsplit] at hone ⊢
      exact linesBy_oneLine hbrk hone (by simp [hne])
  | cons c rest =>
      have hc : brk c = true := by
        have hhead := List.head?_dropWhile_not (fun c => !brk c) t
        rw [hback] at hhead
        simpa using hhead
      obtain ⟨behind, hsuffix, heq⟩ := linesBy_append_any_break hbrk hone hc rest
      refine ⟨linesBy brk behind, by rw [← hback]; exact hsplit, ?_, fun l hl => ?_⟩
      · rw [← heq, List.append_assoc, ← hback, ← hsplit]
      · exact (mem_linesBy hl).2.trans (hsuffix.trans (List.suffix_cons _ _)).isInfix

/-- A word without line boundaries is in a text when it is in one of its lines. -/
theorem infix_iff_line (hbrk : Breaks brk) (hw : OneLineBy brk w) (hne : w ≠ []) : w <:+: t ↔ ∃ line ∈ linesBy brk t, w <:+: line := by
  constructor
  · intro h
    induction t using lines_induction brk with
    | nil =>
        exact absurd (List.infix_nil.1 h) hne
    | pair rest hl ih =>
        rw [hl]
        -- the word is behind both characters of the boundary
        rw [List.infix_cons_iff, List.infix_cons_iff] at h
        have hhead : ∀ {c : Char} {rest : List Char}, brk c = true → ¬ w <+: c :: rest := by
          intro c rest hc hleads
          cases w with
          | nil =>
              exact hne rfl
          | cons d w =>
              obtain ⟨rfl, -⟩ := List.cons_prefix_cons.1 hleads
              simp [(oneLine_cons.1 hw).1] at hc
        obtain h | h | h := h
        · exact absurd h (hhead hbrk.cr)
        · exact absurd h (hhead hbrk.lf)
        · obtain ⟨line, hline, hpiece⟩ := ih h
          exact ⟨line, List.mem_cons_of_mem _ hline, hpiece⟩
    | ends c rest hcr hc hl ih =>
        rw [hl]
        obtain h | h := List.infix_cons_iff.1 h
        · cases w with
          | nil =>
              exact absurd rfl hne
          | cons d w =>
              obtain ⟨rfl, -⟩ := List.cons_prefix_cons.1 h
              simp [(oneLine_cons.1 hw).1] at hc
        · obtain ⟨line, hline, hpiece⟩ := ih h
          exact ⟨line, List.mem_cons_of_mem _ hline, hpiece⟩
    | last c hc hl =>
        rw [hl]
        exact ⟨[c], List.mem_cons_self, h⟩
    | inside c rest line lines hcr hc hsome hl ih =>
        obtain h | h := List.infix_cons_iff.1 h
        · obtain ⟨line', lines', hlines, hleads⟩ := prefix_first_line hbrk hw hne h
          exact ⟨line', by rw [hlines]; exact List.mem_cons_self, hleads.isInfix⟩
        · obtain ⟨line', hline, hpiece⟩ := ih h
          rw [hsome] at hline
          rw [hl]
          obtain rfl | hline := List.mem_cons.1 hline
          · exact ⟨_, List.mem_cons_self, hpiece.trans (List.suffix_cons _ _).isInfix⟩
          · exact ⟨_, List.mem_cons_of_mem _ hline, hpiece⟩
  · rintro ⟨line, hline, hpiece⟩
    exact hpiece.trans (mem_linesBy hline).2

/-! ### Unicode lines -/

theorem splitlines_feed (h : OneLine l) (rest : List Char) : splitlines (l ++ '\n' :: rest) = l :: splitlines rest :=
  linesBy_append_break isBreak_breaks h (by decide) (by decide) rest

theorem splitlines_join (h : ∀ l ∈ ls, OneLine l) (hlast : ∀ l ∈ ls.getLast?, l ≠ []) :
    splitlines (['\n'].intercalate ls) = ls :=
  linesBy_join isBreak_breaks h hlast

theorem mem_splitlines (h : l ∈ splitlines t) : OneLine l ∧ l <:+: t :=
  mem_linesBy h

/-! ### Stripping -/

/-- What a pattern may match before its `$`: the text, without a last line feed. -/
def beforeDollar (text : List Char) : List Char :=
  if text.getLast? = some '\n' then text.dropLast else text

/-- The text without such characters at its two ends. -/
def stripWhere (p : Char → Bool) (l : List Char) : List Char :=
  ((l.dropWhile p).reverse.dropWhile p).reverse

/-- The text without such characters at its end. -/
def rstripWhere (p : Char → Bool) (l : List Char) : List Char :=
  (l.reverse.dropWhile p).reverse

theorem rstripWhere_leads (p : Char → Bool) (l : List Char) : rstripWhere p l <+: l := by
  rw [rstripWhere, ← List.reverse_suffix, List.reverse_reverse]
  exact List.dropWhile_suffix p

theorem stripWhere_within (p : Char → Bool) (l : List Char) : stripWhere p l <:+: l :=
  (rstripWhere_leads p (l.dropWhile p)).isInfix.trans (List.dropWhile_suffix p).isInfix

/-- A stripped text does not end with such a character. -/
theorem stripWhere_getLast (p : Char → Bool) (l : List Char) : ∀ c ∈ (stripWhere p l).getLast?, p c = false := by
  intro c hc
  rw [stripWhere, List.getLast?_reverse] at hc
  have hhead := List.head?_dropWhile_not p (l.dropWhile p).reverse
  rw [hc] at hhead
  exact hhead

/-- Stripping leaves the other characters. -/
theorem countP_stripWhere (p : Char → Bool) (l : List Char) :
    (stripWhere p l).countP (fun c => !p c) = l.countP fun c => !p c := by
  have hdrop : ∀ l : List Char, (l.dropWhile p).countP (fun c => !p c) = l.countP fun c => !p c := by
    intro l
    have hzero : (l.takeWhile p).countP (fun c => !p c) = 0 := by
      rw [List.countP_eq_zero]
      intro c hc
      simp [List.mem_takeWhile_imp hc]
    rw [← congrArg (List.countP fun c => !p c) (List.takeWhile_append_dropWhile (p := p) (l := l)),
      List.countP_append, hzero, Nat.zero_add]
  rw [stripWhere, List.countP_reverse, hdrop, List.countP_reverse, hdrop]

/-- What has other characters at its two ends is not stripped of anything else. -/
theorem stripWhere_surrounded {p : Char → Bool} {front back : List Char} (hfront : ∀ c ∈ front, p c = true)
    (hback : ∀ c ∈ back, p c = true) (hhead : ∀ c ∈ l.head?, p c = false) (hlast : ∀ c ∈ l.getLast?, p c = false) :
    stripWhere p (front ++ (l ++ back)) = l := by
  have hdrop : ∀ {l back : List Char}, (∀ c ∈ l.head?, p c = false) → (∀ c ∈ back, p c = true) → l ≠ [] →
      (back ++ l).dropWhile p = l := by
    intro l back hl hback hne
    cases l with
    | nil =>
        exact absurd rfl hne
    | cons c l =>
        rw [List.dropWhile_append_of_pos hback, List.dropWhile_cons_of_neg]
        simp [hl c rfl]
  by_cases hl : l = []
  · subst hl
    have hall : (front ++ back).dropWhile p = [] := by
      rw [List.dropWhile_eq_nil_iff]
      exact List.forall_mem_append.2 ⟨hfront, hback⟩
    simp [stripWhere, hall]
  · have hhead' : ∀ c ∈ (l ++ back).head?, p c = false := by
      rwa [List.head?_append_of_ne_nil _ hl]
    have hlast' : ∀ c ∈ l.reverse.head?, p c = false := by
      rwa [List.head?_reverse]
    rw [stripWhere, hdrop hhead' hfront (by simp [hl]), List.reverse_append,
      hdrop hlast' (fun c hc => hback c (List.mem_reverse.1 hc)) (by simpa using hl), List.reverse_reverse]

end Lines
