import ProjectManager.Lib.Pattern

/-!
# What patterns match

`Accepts` says which words a pattern matches between two neighbours, with no search order in it, and
`matchAt_isSome` and `search_iff` say that the matcher finds a match exactly where there is one.

The second half is about masking: a replacement that begins and ends with a separator which no match
contains.  What stands between two separators of the masked text stood so before (`infix_of_replaceFrom`),
so that masking one pattern brings no match of another (`unmatched_replaceFrom`), and leaves none of its own
(`replaceFrom_unmatched`), with word boundaries at its two ends or without.
-/

namespace Pattern

variable {word : Char → Bool} {parts : List Part} {prev next : Option Char} {text w rest : List Char}

/-- The words that the parts match after `prev` and before `next`. -/
def Accepts (word : Char → Bool) : List Part → Option Char → List Char → Option Char → Prop
  | [], _, w, _ => w = []
  | .boundary :: parts, prev, w, next =>
      atBoundary word prev (w.head?.or next) = true ∧ Accepts word parts prev w next
  | .run cls lo hi :: parts, prev, w, next =>
      ∃ u v, w = u ++ v ∧ (∀ c ∈ u, cls c = true) ∧ lo ≤ u.length ∧ (∀ n ∈ hi, u.length ≤ n) ∧
        Accepts word parts (u.getLast?.or prev) v next

/-- There is a match in the text, which follows `prev`. -/
def Found (word : Char → Bool) (parts : List Part) (prev : Option Char) (text : List Char) : Prop :=
  ∃ pre w post, text = pre ++ w ++ post ∧ Accepts word parts (pre.getLast?.or prev) w post.head?

/-! ### The matcher -/

/-- A run can take `n` characters when they are there, are of the class, and are not too many. -/
theorem le_runLength_iff {cls : Char → Bool} {n : ℕ} {hi : Option ℕ} :
    n ≤ runLength cls hi text ↔ n ≤ text.length ∧ (∀ c ∈ text.take n, cls c = true) ∧ ∀ k ∈ hi, n ≤ k := by
  induction text generalizing n hi with
  | nil =>
      have hzero : runLength cls hi [] = 0 := by
        cases hi with
        | none => rfl
        | some k => cases k <;> rfl
      simp only [hzero, List.length_nil, List.take_nil, List.not_mem_nil]
      constructor
      · intro h
        exact ⟨h, by simp, fun k _ => by omega⟩
      · intro h
        exact h.1
  | cons c cs ih =>
      cases n with
      | zero =>
          simp
      | succ n =>
          have hstep : n + 1 ≤ runLength cls hi (c :: cs) ↔
              hi ≠ some 0 ∧ cls c = true ∧ n ≤ runLength cls (hi.map fun k => k - 1) cs := by
            cases hi with
            | none =>
                by_cases hc : cls c = true <;> simp [runLength, hc]
                omega
            | some k =>
                cases k with
                | zero => simp [runLength]
                | succ k =>
                    by_cases hc : cls c = true <;> simp [runLength, hc]
                    omega
          rw [hstep, ih]
          cases hi with
          | none =>
              simp
              tauto
          | some k =>
              simp
              constructor
              · rintro ⟨hk, hc, hlen, hall, hle⟩
                exact ⟨hlen, ⟨hc, hall⟩, by omega⟩
              · rintro ⟨hlen, ⟨hc, hall⟩, hle⟩
                exact ⟨by omega, hc, hlen, hall, by omega⟩

theorem exists_of_firstDown {α : Type} {lo : ℕ} {f : ℕ → Option α} {n : ℕ} {a : α}
    (h : firstDown lo f n = some a) : ∃ k, lo ≤ k ∧ k ≤ n ∧ f k = some a := by
  induction n with
  | zero =>
      simp only [firstDown] at h
      split at h
      · exact ⟨0, by omega, le_refl 0, h⟩
      · cases h
  | succ n ih =>
      simp only [firstDown] at h
      split at h
      · cases h
      · rename_i hlo
        cases hf : f (n + 1) with
        | some b =>
            rw [hf] at h
            exact ⟨n + 1, by omega, le_refl _, hf.trans h⟩
        | none =>
            rw [hf] at h
            obtain ⟨k, hlk, hkn, hk⟩ := ih h
            exact ⟨k, hlk, by omega, hk⟩

theorem firstDown_isSome {α : Type} {lo k : ℕ} {f : ℕ → Option α} {n : ℕ} (hlo : lo ≤ k) (hkn : k ≤ n)
    (hk : (f k).isSome = true) : (firstDown lo f n).isSome = true := by
  induction n with
  | zero =>
      obtain rfl : k = 0 := by omega
      obtain rfl : lo = 0 := by omega
      simpa [firstDown] using hk
  | succ n ih =>
      have hle : ¬ n + 1 < lo := by omega
      simp only [firstDown, hle, if_false, Option.isSome_or, Bool.or_eq_true]
      by_cases hlast : k = n + 1
      · left
        rwa [← hlast]
      · right
        exact ih (by omega)

/-- What the matcher takes is a word of the pattern. -/
theorem accepts_of_matchAt (h : matchAt word parts prev text = some rest) :
    ∃ w, text = w ++ rest ∧ Accepts word parts prev w rest.head? := by
  induction parts generalizing prev text with
  | nil =>
      simp only [matchAt, Option.some.injEq] at h
      exact ⟨[], by simp [h], rfl⟩
  | cons part parts ih =>
      cases part with
      | boundary =>
          simp only [matchAt] at h
          split at h
          · rename_i hbound
            obtain ⟨w, rfl, hw⟩ := ih h
            refine ⟨w, rfl, ?_, hw⟩
            rwa [List.head?_append] at hbound
          · cases h
      | run cls lo hi =>
          obtain ⟨n, hlo, hn, hrest⟩ := exists_of_firstDown h
          obtain ⟨hlen, hall, hhi⟩ := le_runLength_iff.1 hn
          obtain ⟨w, hw, hacc⟩ := ih hrest
          have htake : (text.take n).length = n := List.length_take_of_le hlen
          refine ⟨text.take n ++ w, ?_, text.take n, w, rfl, hall, by omega, ?_, hacc⟩
          · rw [List.append_assoc, ← hw, List.take_append_drop]
          · intro k hk
            have := hhi k hk
            omega

/-- Where a word of the pattern stands, the matcher takes one. -/
theorem matchAt_of_accepts (h : Accepts word parts prev w rest.head?) :
    (matchAt word parts prev (w ++ rest)).isSome = true := by
  induction parts generalizing prev w with
  | nil =>
      rfl
  | cons part parts ih =>
      cases part with
      | boundary =>
          obtain ⟨hbound, hacc⟩ := h
          simp only [matchAt, List.head?_append, hbound, if_true]
          exact ih hacc
      | run cls lo hi =>
          obtain ⟨u, v, rfl, hall, hlo, hhi, hacc⟩ := h
          have hn : u.length ≤ runLength cls hi (u ++ v ++ rest) := by
            rw [le_runLength_iff]
            refine ⟨by simp, ?_, hhi⟩
            simpa [List.append_assoc] using hall
          apply firstDown_isSome hlo hn
          simpa [List.append_assoc] using ih hacc

theorem matchAt_isSome : (matchAt word parts prev text).isSome = true ↔
    ∃ w rest, text = w ++ rest ∧ Accepts word parts prev w rest.head? := by
  constructor
  · intro h
    obtain ⟨rest, hrest⟩ := Option.isSome_iff_exists.1 h
    obtain ⟨w, hw, hacc⟩ := accepts_of_matchAt hrest
    exact ⟨w, rest, hw, hacc⟩
  · rintro ⟨w, rest, rfl, hacc⟩
    exact matchAt_of_accepts hacc

/-- A match in a text begins at once or after the first character. -/
theorem found_cons_iff {c : Char} {cs : List Char} : Found word parts prev (c :: cs) ↔
    (matchAt word parts prev (c :: cs)).isSome = true ∨ Found word parts (some c) cs := by
  rw [matchAt_isSome]
  constructor
  · rintro ⟨pre, w, post, htext, hacc⟩
    cases pre with
    | nil =>
        left
        exact ⟨w, post, htext, hacc⟩
    | cons d pre =>
        right
        simp only [List.cons_append, List.cons.injEq] at htext
        refine ⟨pre, w, post, htext.2, ?_⟩
        rw [htext.1]
        simpa [List.getLast?_cons] using hacc
  · rintro (⟨w, post, htext, hacc⟩ | ⟨pre, w, post, rfl, hacc⟩)
    · exact ⟨[], w, post, htext, hacc⟩
    · refine ⟨c :: pre, w, post, by simp, ?_⟩
      simpa [List.getLast?_cons] using hacc

/-- `search` finds a match exactly when there is one. -/
theorem search_iff : search word parts prev text = true ↔ Found word parts prev text := by
  induction text generalizing prev with
  | nil =>
      rw [search, matchAt_isSome]
      constructor
      · rintro ⟨w, rest, htext, hacc⟩
        exact ⟨[], w, rest, htext, hacc⟩
      · rintro ⟨pre, w, post, htext, hacc⟩
        obtain ⟨rfl, rfl, rfl⟩ : pre = [] ∧ w = [] ∧ post = [] := by simpa using htext.symm
        exact ⟨[], [], rfl, hacc⟩
  | cons c cs ih =>
      rw [search, Bool.or_eq_true, ih, found_cons_iff]

/-- A text with no match is left as it is. -/
theorem replaceFrom_of_not_found {new : List Char} {fuel : ℕ} (h : ¬ Found word parts prev text) :
    replaceFrom word parts new fuel prev text = text := by
  induction fuel generalizing prev text with
  | zero =>
      rfl
  | succ fuel ih =>
      cases text with
      | nil =>
          rfl
      | cons c cs =>
          rw [found_cons_iff, not_or, Bool.not_eq_true, Option.isSome_eq_false_iff, Option.isNone_iff_eq_none] at h
          simp only [replaceFrom, h.1]
          rw [ih h.2]

/-! ### Words of a pattern -/

/-- A part that takes characters. -/
def Part.isRun : Part → Bool
  | .run _ _ _ => true
  | .boundary => false

/-- The part takes no `s`. -/
def Part.avoids (s : Char) : Part → Bool
  | .run cls _ _ => !cls s
  | .boundary => true

/-- The fewest characters of a match. -/
def minLength : List Part → ℕ
  | [] => 0
  | .boundary :: parts => minLength parts
  | .run _ lo _ :: parts => lo + minLength parts

theorem minLength_le (h : Accepts word parts prev w next) : minLength parts ≤ w.length := by
  induction parts generalizing prev w with
  | nil =>
      exact Nat.zero_le _
  | cons part parts ih =>
      cases part with
      | boundary =>
          exact ih h.2
      | run cls lo hi =>
          obtain ⟨u, v, rfl, _, hlo, _, hacc⟩ := h
          have := ih hacc
          simp only [minLength, List.length_append]
          omega

/-- Every character that the part takes has the property. -/
def Part.Within (p : Char → Prop) : Part → Prop
  | .run cls _ _ => ∀ c, cls c = true → p c
  | .boundary => True

/-- With each character the part takes its image. -/
def Part.Closed (f : Char → Char) : Part → Prop
  | .run cls _ _ => ∀ c, cls c = true → cls (f c) = true
  | .boundary => True

theorem forall_of_accepts {p : Char → Prop} (hparts : ∀ part ∈ parts, part.Within p)
    (h : Accepts word parts prev w next) : ∀ c ∈ w, p c := by
  induction parts generalizing prev w with
  | nil =>
      obtain rfl : w = [] := h
      simp
  | cons part parts ih =>
      obtain ⟨hpart, hrest⟩ := List.forall_mem_cons.1 hparts
      cases part with
      | boundary =>
          exact ih hrest h.2
      | run cls lo hi =>
          obtain ⟨u, v, rfl, hall, _, _, hacc⟩ := h
          intro c hc
          obtain hc | hc := List.mem_append.1 hc
          · exact hpart c (hall c hc)
          · exact ih hrest hacc c hc

theorem not_mem_of_accepts {s : Char} (havoids : ∀ part ∈ parts, part.avoids s = true)
    (h : Accepts word parts prev w next) : s ∉ w := by
  have hparts : ∀ part ∈ parts, part.Within (· ≠ s) := by
    intro part hpart
    have hs := havoids part hpart
    cases part with
    | boundary =>
        exact trivial
    | run cls lo hi =>
        rintro c hc rfl
        simp [Part.avoids, hc] at hs
  exact fun hmem => forall_of_accepts hparts h s hmem rfl

/-- Without boundaries the neighbours do not matter. -/
theorem accepts_neighbours {prev' next' : Option Char} (hruns : ∀ part ∈ parts, part.isRun = true)
    (h : Accepts word parts prev w next) : Accepts word parts prev' w next' := by
  induction parts generalizing prev prev' w with
  | nil =>
      exact h
  | cons part parts ih =>
      have hrest : ∀ p ∈ parts, p.isRun = true := fun p hp => hruns p (List.mem_cons_of_mem _ hp)
      cases part with
      | boundary =>
          have : Part.isRun .boundary = true := hruns _ List.mem_cons_self
          cases this
      | run cls lo hi =>
          obtain ⟨u, v, hw, hall, hlo, hhi, hacc⟩ := h
          exact ⟨u, v, hw, hall, hlo, hhi, ih hrest hacc⟩

/-- A pattern that takes images matches the image of a word. -/
theorem accepts_map {f : Char → Char} {prev' next' : Option Char} (hruns : ∀ part ∈ parts, part.isRun = true)
    (hclosed : ∀ part ∈ parts, part.Closed f) (h : Accepts word parts prev w next) :
    Accepts word parts prev' (w.map f) next' := by
  induction parts generalizing prev prev' w with
  | nil =>
      obtain rfl : w = [] := h
      rfl
  | cons part parts ih =>
      obtain ⟨hrun, hruns'⟩ := List.forall_mem_cons.1 hruns
      obtain ⟨hpart, hclosed'⟩ := List.forall_mem_cons.1 hclosed
      cases part with
      | boundary =>
          cases hrun
      | run cls lo hi =>
          obtain ⟨u, v, rfl, hall, hlo, hhi, hacc⟩ := h
          refine ⟨u.map f, v.map f, List.map_append, ?_, by simpa using hlo, by simpa using hhi, ih hruns' hclosed' hacc⟩
          intro c hc
          obtain ⟨d, hd, rfl⟩ := List.mem_map.1 hc
          exact hpart d (hall d hd)

theorem accepts_append_boundary : Accepts word (parts ++ [.boundary]) prev w next ↔
    Accepts word parts prev w next ∧ atBoundary word (w.getLast?.or prev) next = true := by
  induction parts generalizing prev w with
  | nil =>
      simp only [List.nil_append, Accepts]
      constructor
      · rintro ⟨hbound, rfl⟩
        exact ⟨rfl, by simpa using hbound⟩
      · rintro ⟨rfl, hbound⟩
        exact ⟨by simpa using hbound, rfl⟩
  | cons part parts ih =>
      cases part with
      | boundary =>
          simp only [List.cons_append, Accepts, ih, and_assoc]
      | run cls lo hi =>
          simp only [List.cons_append, Accepts, ih]
          constructor
          · rintro ⟨u, v, rfl, hall, hlo, hhi, hacc, hbound⟩
            refine ⟨⟨u, v, rfl, hall, hlo, hhi, hacc⟩, ?_⟩
            rwa [List.getLast?_append, Option.or_assoc]
          · rintro ⟨⟨u, v, rfl, hall, hlo, hhi, hacc⟩, hbound⟩
            rw [List.getLast?_append, Option.or_assoc] at hbound
            exact ⟨u, v, rfl, hall, hlo, hhi, hacc, hbound⟩

/-- The parts, with a word boundary at each end if `edges` is set. -/
def edged (edges : Bool) (mid : List Part) : List Part :=
  if edges then .boundary :: mid ++ [.boundary] else mid

theorem accepts_edged {edges : Bool} {mid : List Part} (hruns : ∀ part ∈ mid, part.isRun = true) :
    Accepts word (edged edges mid) prev w next ↔ Accepts word mid none w none ∧
      (edges = true → atBoundary word prev (w.head?.or next) = true ∧
        atBoundary word (w.getLast?.or prev) next = true) := by
  cases edges with
  | false =>
      simp only [edged, Bool.false_eq_true, if_false, false_implies, and_true]
      exact ⟨accepts_neighbours hruns, accepts_neighbours hruns⟩
  | true =>
      simp only [edged, if_true, List.cons_append, Accepts, accepts_append_boundary, true_implies]
      constructor
      · rintro ⟨hleft, hacc, hright⟩
        exact ⟨accepts_neighbours hruns hacc, hleft, hright⟩
      · rintro ⟨hacc, hleft, hright⟩
        exact ⟨hleft, accepts_neighbours hruns hacc, hright⟩

/-! ### Separators -/

/-- What the neighbours are does not matter, but whether they are word characters. -/
theorem accepts_congr {prev' next' : Option Char} (hprev : prev.any word = prev'.any word)
    (hnext : next.any word = next'.any word) (h : Accepts word parts prev w next) :
    Accepts word parts prev' w next' := by
  have hor : ∀ {u : Option Char} {p p' : Option Char}, p.any word = p'.any word → (u.or p).any word = (u.or p').any word := by
    intro u p p' hp
    cases u with
    | none =>
        exact hp
    | some c =>
        rfl
  induction parts generalizing prev prev' w with
  | nil =>
      exact h
  | cons part parts ih =>
      cases part with
      | boundary =>
          refine ⟨?_, ih hprev h.2⟩
          have hbound := h.1
          rw [atBoundary] at hbound ⊢
          rw [← hprev, ← hor hnext]
          exact hbound
      | run cls lo hi =>
          obtain ⟨u, v, rfl, hall, hlo, hhi, hacc⟩ := h
          exact ⟨u, v, rfl, hall, hlo, hhi, ih (hor hprev) hacc⟩

/-- A match takes a character for every part that must take one. -/
theorem exists_of_accepts {cls : Char → Bool} {lo : ℕ} {hi : Option ℕ} (hpart : .run cls lo hi ∈ parts) (hlo : 0 < lo)
    (h : Accepts word parts prev w next) : ∃ c ∈ w, cls c = true := by
  induction parts generalizing prev w with
  | nil =>
      cases hpart
  | cons part parts ih =>
      obtain rfl | hrest := List.mem_cons.1 hpart
      · obtain ⟨u, v, rfl, hall, hlen, -, -⟩ := h
        obtain ⟨c, hc⟩ := List.exists_mem_of_length_pos (Nat.lt_of_lt_of_le hlo hlen)
        exact ⟨c, List.mem_append_left v hc, hall c hc⟩
      · cases part with
        | boundary =>
            exact ih hrest h.2
        | run cls' lo' hi' =>
            obtain ⟨u, v, rfl, -, -, -, hacc⟩ := h
            obtain ⟨c, hc, hcls⟩ := ih hrest hacc
            exact ⟨c, List.mem_append_right u hc, hcls⟩

/-- Before a last run stands a word of the other parts. -/
theorem accepts_append_run {cls : Char → Bool} {lo : ℕ} {hi : Option ℕ}
    (h : Accepts word (parts ++ [.run cls lo hi]) prev w next) :
    ∃ u v, w = u ++ v ∧ Accepts word parts prev u (v.head?.or next) ∧ (∀ c ∈ v, cls c = true) ∧ lo ≤ v.length := by
  induction parts generalizing prev w with
  | nil =>
      obtain ⟨u, v, rfl, hall, hlo, -, hnil⟩ := h
      obtain rfl : v = [] := hnil
      exact ⟨[], u, by simp, rfl, hall, hlo⟩
  | cons part parts ih =>
      cases part with
      | boundary =>
          obtain ⟨u, v, rfl, hacc, hall, hlo⟩ := ih h.2
          refine ⟨u, v, rfl, ⟨?_, hacc⟩, hall, hlo⟩
          have hbound := h.1
          rwa [List.head?_append, Option.or_assoc] at hbound
      | run cls' lo' hi' =>
          obtain ⟨u', v', rfl, hall', hlo', hhi', hacc'⟩ := h
          obtain ⟨u, v, rfl, hacc, hall, hlo⟩ := ih hacc'
          exact ⟨u' ++ u, v, by simp, ⟨u', u, rfl, hall', hlo', hhi', hacc⟩, hall, hlo⟩

theorem accepts_append_optional {cls : Char → Bool} {hi : Option ℕ} (h : Accepts word parts prev w next) :
    Accepts word (parts ++ [.run cls 0 hi]) prev w next := by
  induction parts generalizing prev w with
  | nil =>
      obtain rfl : w = [] := h
      exact ⟨[], [], rfl, by simp, Nat.zero_le _, by simp, rfl⟩
  | cons part parts ih =>
      cases part with
      | boundary =>
          exact ⟨h.1, ih h.2⟩
      | run cls' lo' hi' =>
          obtain ⟨u, v, hw, hall, hlo, hhi, hacc⟩ := h
          exact ⟨u, v, hw, hall, hlo, hhi, ih hacc⟩

/-- At the end a run that need not take anything changes nothing. -/
theorem found_append_optional {cls : Char → Bool} {hi : Option ℕ} :
    Found word (parts ++ [.run cls 0 hi]) prev text ↔ Found word parts prev text := by
  constructor
  · rintro ⟨pre, w, post, rfl, hacc⟩
    obtain ⟨u, v, rfl, hacc, -, -⟩ := accepts_append_run hacc
    refine ⟨pre, u, v ++ post, by simp, ?_⟩
    rwa [List.head?_append]
  · rintro ⟨pre, w, post, htext, hacc⟩
    exact ⟨pre, w, post, htext, accepts_append_optional hacc⟩

/-! ### Masking -/

/-- A replacement between two separators, with at most `k` other characters in a row. -/
structure Mask (s : Char) (k : ℕ) (new : List Char) : Prop where
  head : new.head? = some s
  last : new.getLast? = some s
  short : ∀ w, w <:+: new → s ∉ w → w.length ≤ k

/-- Parts that take characters other than the separator, and more of them than a mask has in a row. -/
structure Maskable (s : Char) (k : ℕ) (mid : List Part) : Prop where
  runs : ∀ part ∈ mid, part.isRun = true
  avoids : ∀ part ∈ mid, part.avoids s = true
  long : k < minLength mid

instance {s : Char} {k : ℕ} {mid : List Part} : Decidable (Maskable s k mid) :=
  decidable_of_iff ((∀ part ∈ mid, part.isRun = true) ∧ (∀ part ∈ mid, part.avoids s = true) ∧ k < minLength mid)
    ⟨fun h => ⟨h.1, h.2.1, h.2.2⟩, fun h => ⟨h.runs, h.avoids, h.long⟩⟩

/-- What holds no separator stands before or after it, at the same place. -/
theorem cut_separator {s : Char} {a b pre post : List Char} (hw : s ∉ w) (h : a ++ s :: b = pre ++ w ++ post) :
    (∃ post', a = pre ++ w ++ post' ∧ post = post' ++ s :: b) ∨ ∃ pre', pre = a ++ s :: pre' ∧ b = pre' ++ w ++ post := by
  obtain ⟨t, ht, hpost⟩ | ⟨t, ha, hpost⟩ := List.append_eq_append_iff.1 h
  · -- the separator stands in `pre ++ w`
    cases t with
    | nil =>
        left
        rw [List.append_nil] at ht
        exact ⟨[], by rw [List.append_nil, ht], by rw [List.nil_append]; exact hpost.symm⟩
    | cons d t =>
        obtain ⟨rfl, rfl⟩ : d = s ∧ t ++ post = b := by simpa using hpost.symm
        obtain ⟨u, hu, hw'⟩ | ⟨u, hu, hw'⟩ := List.append_eq_append_iff.1 ht
        · exact absurd (by rw [hw']; simp) hw
        · cases u with
          | nil =>
              exact absurd (by rw [← List.nil_append w, ← hw']; simp) hw
          | cons e u =>
              obtain ⟨rfl, rfl⟩ : e = d ∧ t = u ++ w := by simpa [eq_comm] using hw'
              right
              exact ⟨u, hu, rfl⟩
  · left
    exact ⟨t, ha, hpost⟩

/-- What holds no separator stands before or after it. -/
theorem split_separator {s : Char} {a b pre post : List Char} (hw : s ∉ w)
    (h : a ++ s :: b = pre ++ w ++ post) : w <:+: a ∨ ∃ pre', pre = a ++ s :: pre' ∧ b = pre' ++ w ++ post := by
  obtain ⟨post', ha, -⟩ | hbehind := cut_separator hw h
  · exact .inl ⟨pre, post', ha.symm⟩
  · exact .inr hbehind

/-- A separator that is no word character cuts a text for every pattern that does not take it. -/
theorem found_separator {s : Char} {a b : List Char} (havoids : ∀ part ∈ parts, part.avoids s = true)
    (hword : word s = false) : Found word parts prev (a ++ s :: b) ↔ Found word parts prev a ∨ Found word parts none b := by
  have hnone : (some s).any word = (none : Option Char).any word := by
    simpa using hword
  constructor
  · rintro ⟨pre, w, post, htext, hacc⟩
    obtain ⟨post', rfl, rfl⟩ | ⟨pre', rfl, rfl⟩ := cut_separator (not_mem_of_accepts havoids hacc) htext
    · refine .inl ⟨pre, w, post', rfl, accepts_congr rfl ?_ hacc⟩
      cases post' with
      | nil =>
          exact hnone
      | cons c post' =>
          rfl
    · refine .inr ⟨pre', w, post, rfl, accepts_congr ?_ rfl hacc⟩
      rw [List.getLast?_append, List.getLast?_cons]
      cases pre'.getLast? with
      | none =>
          exact hnone
      | some c =>
          rfl
  · rintro (⟨pre, w, post, rfl, hacc⟩ | ⟨pre, w, post, rfl, hacc⟩)
    · refine ⟨pre, w, post ++ s :: b, by simp, accepts_congr rfl ?_ hacc⟩
      cases post with
      | nil =>
          exact hnone.symm
      | cons c post =>
          rfl
    · refine ⟨a ++ s :: pre, w, post, by simp, accepts_congr ?_ rfl hacc⟩
      rw [List.getLast?_append, List.getLast?_cons]
      cases pre.getLast? with
      | none =>
          exact hnone.symm
      | some c =>
          rfl

section

variable {s : Char} {k : ℕ} {new : List Char} {edges : Bool} {mid : List Part}

/-- A match of a maskable pattern: its word, and what its ends say. -/
theorem matchAt_edged (hmid : Maskable s k mid) (h : matchAt word (edged edges mid) prev text = some rest) :
    ∃ w, text = w ++ rest ∧ w ≠ [] ∧ (edges = true → atBoundary word prev text.head? = true ∧
      atBoundary word w.getLast? rest.head? = true) := by
  obtain ⟨w, rfl, hacc⟩ := accepts_of_matchAt h
  obtain ⟨hword, hedges⟩ := (accepts_edged hmid.runs).1 hacc
  have hne : w ≠ [] := by
    rintro rfl
    have := minLength_le hword
    have := hmid.long
    simp only [List.length_nil] at *
    omega
  refine ⟨w, rfl, hne, fun h => ?_⟩
  obtain ⟨hleft, hright⟩ := hedges h
  rw [List.head?_append]
  obtain ⟨c, hc⟩ := Option.isSome_iff_exists.1 (List.getLast?_isSome.2 hne)
  rw [hc] at hright ⊢
  exact ⟨hleft, hright⟩

/-- What begins a masked text and holds no separator began the text before; where it ends there were the same
character before, or a word boundary if the masked pattern begins with one. -/
theorem begins_of_replaceFrom (hnew : Mask s k new) (hmid : Maskable s k mid) {fuel : ℕ} {post : List Char}
    (hw : s ∉ w) (h : replaceFrom word (edged edges mid) new fuel prev text = w ++ post) :
    ∃ post₀, text = w ++ post₀ ∧ (post₀.head? = post.head? ∨
      (edges = true → atBoundary word (w.getLast?.or prev) post₀.head? = true)) := by
  induction fuel generalizing prev text w with
  | zero =>
      exact ⟨post, h, Or.inl rfl⟩
  | succ fuel ih =>
      cases text with
      | nil =>
          obtain ⟨rfl, rfl⟩ : w = [] ∧ post = [] := by simpa [replaceFrom, eq_comm] using h
          exact ⟨[], rfl, Or.inl rfl⟩
      | cons c cs =>
          cases hmatch : matchAt word (edged edges mid) prev (c :: cs) with
          | some rest =>
              -- the mask begins with the separator, so nothing stands before it
              simp only [replaceFrom, hmatch] at h
              have hnil : w = [] := by
                cases w with
                | nil => rfl
                | cons d w =>
                    have hhead := congrArg List.head? h
                    simp only [List.head?_append, hnew.head, Option.some_or, List.cons_append, List.head?_cons,
                      Option.some.injEq] at hhead
                    exact absurd (by simp [hhead]) hw
              subst hnil
              obtain ⟨_, _, _, hedges⟩ := matchAt_edged hmid hmatch
              exact ⟨c :: cs, rfl, Or.inr fun h => by simpa using (hedges h).1⟩
          | none =>
              simp only [replaceFrom, hmatch] at h
              cases w with
              | nil =>
                  refine ⟨c :: cs, rfl, Or.inl ?_⟩
                  rw [← List.nil_append post, ← h]
                  rfl
              | cons d w =>
                  simp only [List.cons_append, List.cons.injEq] at h
                  obtain ⟨rfl, hrest⟩ := h
                  obtain ⟨post₀, rfl, hend⟩ := ih (fun hs => hw (List.mem_cons_of_mem _ hs)) hrest
                  refine ⟨post₀, rfl, ?_⟩
                  simpa [List.getLast?_cons] using hend

/-- What holds no separator stands in the mask or after it, and there it follows the separator. -/
theorem Mask.split (hnew : Mask s k new) {out pre post : List Char} (hw : s ∉ w)
    (h : new ++ out = pre ++ w ++ post) :
    w <:+: new ∨ ∃ pre', out = pre' ++ w ++ post ∧ ∀ p, pre.getLast?.or p = pre'.getLast?.or (some s) := by
  obtain ⟨a, ha⟩ := List.getLast?_eq_some_iff.1 hnew.last
  have hout : a ++ s :: out = pre ++ w ++ post := by
    rw [← h, ha, List.append_assoc, List.singleton_append]
  obtain hin | ⟨pre', rfl, hout'⟩ := split_separator hw hout
  · left
    exact hin.trans ⟨[], [s], by simp [ha]⟩
  · right
    refine ⟨pre', hout', fun p => ?_⟩
    rw [List.getLast?_append, List.getLast?_cons, Option.or_assoc]
    cases pre'.getLast? <;> rfl

/-- What holds no separator stands in a masked text only if it stood in the text or in the mask. -/
theorem infix_of_replaceFrom (hnew : Mask s k new) (hmid : Maskable s k mid) {fuel : ℕ} (hw : s ∉ w)
    (h : w <:+: replaceFrom word (edged edges mid) new fuel prev text) : w <:+: new ∨ w <:+: text := by
  induction fuel generalizing prev text with
  | zero =>
      right
      exact h
  | succ fuel ih =>
      cases text with
      | nil =>
          right
          exact h
      | cons c cs =>
          cases hmatch : matchAt word (edged edges mid) prev (c :: cs) with
          | some rest =>
              simp only [replaceFrom, hmatch] at h
              obtain ⟨pre, post, hout⟩ := h
              obtain hin | ⟨pre', hout', _⟩ := hnew.split hw hout.symm
              · exact Or.inl hin
              · obtain hin | hin := ih ⟨pre', post, hout'.symm⟩
                · exact Or.inl hin
                · right
                  obtain ⟨m, hm, _⟩ := matchAt_edged hmid hmatch
                  rw [hm]
                  exact hin.trans (List.suffix_append m rest).isInfix
          | none =>
              simp only [replaceFrom, hmatch] at h
              obtain ⟨pre, post, hout⟩ := h
              cases pre with
              | nil =>
                  -- at the very beginning: the first character is untouched, the others begin what follows
                  cases w with
                  | nil =>
                      exact Or.inr List.nil_infix
                  | cons d w =>
                      simp only [List.nil_append, List.cons_append, List.cons.injEq] at hout
                      obtain ⟨rfl, hrest⟩ := hout
                      obtain ⟨post₀, rfl, _⟩ := begins_of_replaceFrom hnew hmid
                        (fun hs => hw (List.mem_cons_of_mem _ hs)) hrest.symm
                      exact Or.inr ⟨[], post₀, rfl⟩
              | cons d pre =>
                  simp only [List.cons_append, List.cons.injEq] at hout
                  obtain hin | hin := ih ⟨pre, post, hout.2⟩
                  · exact Or.inl hin
                  · exact Or.inr (hin.trans (List.suffix_cons c cs).isInfix)

/-- Without boundaries a match is a word of the pattern anywhere in the text. -/
theorem found_runs_iff (hruns : ∀ part ∈ mid, part.isRun = true) :
    Found word mid prev text ↔ ∃ w, w <:+: text ∧ Accepts word mid none w none := by
  constructor
  · rintro ⟨pre, w, post, htext, hacc⟩
    exact ⟨w, ⟨pre, post, htext.symm⟩, accepts_neighbours hruns hacc⟩
  · rintro ⟨w, ⟨pre, post, htext⟩, hacc⟩
    exact ⟨pre, w, post, htext.symm, accepts_neighbours hruns hacc⟩

/-- Masking one pattern brings no match of another that has no boundaries. -/
theorem not_found_replaceFrom {other : List Part} (hnew : Mask s k new) (hmid : Maskable s k mid)
    (hother : Maskable s k other) {fuel : ℕ} (h : ¬ Found word other none text) :
    ¬ Found word other none (replaceFrom word (edged edges mid) new fuel prev text) := by
  rw [found_runs_iff hother.runs] at h ⊢
  rintro ⟨w, hin, hacc⟩
  have hsep : s ∉ w := not_mem_of_accepts hother.avoids hacc
  obtain hin' | hin' := infix_of_replaceFrom hnew hmid hsep hin
  · have := hnew.short w hin' hsep
    have := minLength_le hacc
    have := hother.long
    omega
  · exact h ⟨w, hin', hacc⟩

/-- Masking a pattern leaves no match of it.  After a replaced match the separator stands where the last
character of the match stood; both are followed by a word boundary if the pattern ends with one. -/
theorem replaceFrom_not_found (hnew : Mask s k new) (hmid : Maskable s k mid) {fuel : ℕ} {prev' : Option Char}
    (hfuel : text.length ≤ fuel)
    (hprev : prev' = prev ∨ (edges = true → atBoundary word prev text.head? = true)) :
    ¬ Found word (edged edges mid) prev' (replaceFrom word (edged edges mid) new fuel prev text) := by
  have hlong : ∀ {p n v}, Accepts word mid p v n → k < v.length := fun hacc =>
    Nat.lt_of_lt_of_le hmid.long (minLength_le hacc)
  have hnil : ∀ p, ¬ Found word (edged edges mid) p [] := by
    rintro p ⟨pre, w, post, htext, hacc⟩
    obtain ⟨rfl, rfl, rfl⟩ : pre = [] ∧ w = [] ∧ post = [] := by simpa using htext.symm
    have := hlong ((accepts_edged hmid.runs).1 hacc).1
    simp at this
  induction fuel generalizing prev prev' text with
  | zero =>
      obtain rfl : text = [] := List.length_eq_zero_iff.1 (by omega)
      exact hnil prev'
  | succ fuel ih =>
      cases text with
      | nil =>
          exact hnil prev'
      | cons c cs =>
          cases hmatch : matchAt word (edged edges mid) prev (c :: cs) with
          | some rest =>
              simp only [replaceFrom, hmatch]
              rintro ⟨pre, w, post, hout, hacc⟩
              obtain ⟨hword, _⟩ := (accepts_edged hmid.runs).1 hacc
              have hsep : s ∉ w := not_mem_of_accepts hmid.avoids hword
              obtain hin | ⟨pre', hout', hlast⟩ := hnew.split hsep hout
              · have := hnew.short w hin hsep
                have := hlong hword
                omega
              · obtain ⟨m, hm, hne, hedges⟩ := matchAt_edged hmid hmatch
                have hlen := congrArg List.length hm
                have hpos := List.length_pos_iff.2 hne
                simp only [List.length_cons, List.length_append] at hlen hfuel
                have htake : (c :: cs).take (cs.length + 1 - rest.length) = m := by
                  rw [hm, List.take_left' (by omega)]
                have hprev : some s = ((c :: cs).take (cs.length + 1 - rest.length)).getLast? ∨
                    (edges = true → atBoundary word ((c :: cs).take (cs.length + 1 - rest.length)).getLast?
                      rest.head? = true) := by
                  right
                  rw [htake]
                  exact fun h => (hedges h).2
                apply ih (by omega) hprev
                refine ⟨pre', w, post, hout', ?_⟩
                rwa [hlast] at hacc
          | none =>
              simp only [replaceFrom, hmatch]
              rw [found_cons_iff, not_or, matchAt_isSome]
              constructor
              · rintro ⟨w, post, hout, hacc⟩
                obtain ⟨hword, hedges⟩ := (accepts_edged hmid.runs).1 hacc
                have hsep : s ∉ w := not_mem_of_accepts hmid.avoids hword
                cases w with
                | nil =>
                    have := hlong hword
                    simp at this
                | cons d w =>
                    simp only [List.cons_append, List.cons.injEq] at hout
                    obtain ⟨rfl, hrest⟩ := hout
                    obtain ⟨post₀, rfl, hend⟩ := begins_of_replaceFrom hnew hmid
                      (fun hs => hsep (List.mem_cons_of_mem _ hs)) hrest
                    -- the same word would have matched here
                    have hacc₀ : Accepts word (edged edges mid) prev (c :: w) post₀.head? := by
                      refine (accepts_edged hmid.runs).2 ⟨hword, fun h => ⟨?_, ?_⟩⟩
                      · obtain rfl | hprev := hprev
                        · exact (hedges h).1
                        · exact hprev h
                      · obtain hend | hend := hend
                        · rw [hend]
                          simpa [List.getLast?_cons] using (hedges h).2
                        · simpa [List.getLast?_cons] using hend h
                    have := matchAt_of_accepts hacc₀
                    rw [List.cons_append, hmatch] at this
                    cases this
              · exact ih (by simpa using hfuel) (Or.inl rfl)

/-! ### Several patterns -/

/-- One pattern after the other masked. -/
def maskAll (word : Char → Bool) (new : List Char) (patterns : List (List Part)) (text : List Char) : List Char :=
  patterns.foldl (fun text parts => replaceFrom word parts new text.length none text) text

variable {patterns : List (List Part)}

theorem maskAll_cons : maskAll word new (parts :: patterns) text =
    maskAll word new patterns (replaceFrom word parts new text.length none text) :=
  rfl

/-- Masking any patterns brings no match of one that has no boundaries. -/
theorem not_found_maskAll_of_runs {other : List Part} (hnew : Mask s k new)
    (hall : ∀ parts ∈ patterns, ∃ edges mid, parts = edged edges mid ∧ Maskable s k mid)
    (hother : Maskable s k other) (h : ¬ Found word other none text) :
    ¬ Found word other none (maskAll word new patterns text) := by
  induction patterns generalizing text with
  | nil =>
      exact h
  | cons parts patterns ih =>
      obtain ⟨edges, mid, rfl, hmid⟩ := hall _ List.mem_cons_self
      rw [maskAll_cons]
      apply ih fun p hp => hall p (List.mem_cons_of_mem _ hp)
      exact not_found_replaceFrom hnew hmid hother h

/-- Masking several patterns, of which at most the last has boundaries, leaves no match of any. -/
theorem maskAll_not_found (hnew : Mask s k new)
    (hall : ∀ parts ∈ patterns, ∃ edges mid, parts = edged edges mid ∧ Maskable s k mid)
    (hruns : patterns.Pairwise fun parts _ => Maskable s k parts) :
    ∀ parts ∈ patterns, ¬ Found word parts none (maskAll word new patterns text) := by
  induction patterns generalizing text with
  | nil =>
      intro parts hparts
      cases hparts
  | cons parts patterns ih =>
      have hrest : ∀ p ∈ patterns, ∃ edges mid, p = edged edges mid ∧ Maskable s k mid := fun p hp =>
        hall p (List.mem_cons_of_mem _ hp)
      obtain ⟨hfirst, htail⟩ := List.pairwise_cons.1 hruns
      intro p hp
      rw [maskAll_cons]
      obtain rfl | hp := List.mem_cons.1 hp
      · obtain ⟨edges, mid, rfl, hmid⟩ := hall p List.mem_cons_self
        have hclean : ¬ Found word (edged edges mid) none
            (replaceFrom word (edged edges mid) new text.length none text) :=
          replaceFrom_not_found hnew hmid (le_refl _) (Or.inl rfl)
        cases patterns with
        | nil =>
            exact hclean
        | cons q patterns =>
            exact not_found_maskAll_of_runs hnew hrest (hfirst q List.mem_cons_self) hclean
      · exact ih hrest htail p hp

/-- A text without matches is left as it is. -/
theorem maskAll_of_not_found (h : ∀ parts ∈ patterns, ¬ Found word parts none text) :
    maskAll word new patterns text = text := by
  induction patterns with
  | nil =>
      rfl
  | cons parts patterns ih =>
      rw [maskAll_cons, replaceFrom_of_not_found (h parts List.mem_cons_self)]
      exact ih fun p hp => h p (List.mem_cons_of_mem _ hp)

end

end Pattern
