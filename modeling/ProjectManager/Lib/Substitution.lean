import Mathlib.Data.List.Forall2
import ProjectManager.Lib.Matching

/-!
# Substitution of phrases

A phrase is a pattern of single characters, up to a relation such as the same letter in another case.  The equations
`substitute_hit` and `substitute_skip` and the induction `substitute_induction` say what one pass over a text does to
the occurrences of a phrase; no fuel and no neighbours are left in them.
-/

namespace Pattern

variable {word : Char → Bool} {parts : List Part} {new text rest x : List Char} {prev : Option Char}

/-! ### One pass -/

/-- Without boundaries the character before a match does not matter. -/
theorem matchAt_neighbours {prev' : Option Char} (hruns : ∀ part ∈ parts, part.isRun = true) :
    matchAt word parts prev text = matchAt word parts prev' text := by
  induction parts generalizing prev prev' text with
  | nil =>
      rfl
  | cons part parts ih =>
      obtain ⟨hrun, hrest⟩ := List.forall_mem_cons.1 hruns
      cases part with
      | boundary =>
          cases hrun
      | run cls lo hi =>
          have hsame : (fun n => matchAt word parts ((text.take n).getLast?.or prev) (text.drop n)) =
              fun n => matchAt word parts ((text.take n).getLast?.or prev') (text.drop n) :=
            funext fun n => ih hrest
          simp only [matchAt, hsame]

/-- The matches of a pattern that takes something, replaced from the left. -/
def substitute (word : Char → Bool) (parts : List Part) (new text : List Char) : List Char :=
  replaceFrom word parts new text.length none text

/-- With enough fuel the loop is one pass over the text. -/
theorem replaceFrom_eq_substitute (hruns : ∀ part ∈ parts, part.isRun = true) (hpos : 0 < minLength parts) {fuel : ℕ}
    (hfuel : text.length ≤ fuel) : replaceFrom word parts new fuel prev text = substitute word parts new text := by
  suffices hgen : ∀ (fuel fuel' : ℕ) (prev prev' : Option Char) (text : List Char), text.length ≤ fuel →
      text.length ≤ fuel' → replaceFrom word parts new fuel prev text = replaceFrom word parts new fuel' prev' text from
    hgen fuel text.length prev none text hfuel (le_refl _)
  intro fuel
  induction fuel with
  | zero =>
      intro fuel' prev prev' text hfuel hfuel'
      obtain rfl : text = [] := List.length_eq_zero_iff.1 (by omega)
      cases fuel' <;> rfl
  | succ fuel ih =>
      intro fuel' prev prev' text hfuel hfuel'
      cases text with
      | nil =>
          cases fuel' <;> rfl
      | cons c cs =>
          cases fuel' with
          | zero =>
              simp at hfuel'
          | succ fuel' =>
              simp only [List.length_cons] at hfuel hfuel'
              have hsame : matchAt word parts prev (c :: cs) = matchAt word parts prev' (c :: cs) :=
                matchAt_neighbours hruns
              simp only [replaceFrom, hsame]
              cases hmatch : matchAt word parts prev' (c :: cs) with
              | none =>
                  simp only
                  rw [ih fuel' (some c) (some c) cs (by omega) (by omega)]
              | some rest =>
                  obtain ⟨w, hw, hacc⟩ := accepts_of_matchAt hmatch
                  have hlong := minLength_le hacc
                  have hlen := congrArg List.length hw
                  simp only [List.length_cons, List.length_append] at hlen
                  simp only
                  rw [ih fuel' _ _ rest (by omega) (by omega)]

/-! ### Phrases -/

/-- A character of the phrase may stand as one of several. -/
def phrase (same : Char → Char → Bool) (cs : List Char) : List Part :=
  cs.map fun c => one (same c)

/-- What stands for the phrase in a text. -/
abbrev Variant (same : Char → Char → Bool) (cs x : List Char) : Prop :=
  List.Forall₂ (fun c d => same c d = true) cs x

variable {same : Char → Char → Bool} {cs : List Char} {next : Option Char}

theorem exists_of_variant {d : Char} (h : Variant same cs x) (hd : d ∈ x) : ∃ c ∈ cs, same c d = true := by
  induction h with
  | nil =>
      cases hd
  | @cons c e cs x hsame _ ih =>
      obtain rfl | hd := List.mem_cons.1 hd
      · exact ⟨c, List.mem_cons_self, hsame⟩
      · obtain ⟨c', hc', hsame'⟩ := ih hd
        exact ⟨c', List.mem_cons_of_mem _ hc', hsame'⟩

/-- A character that stands for itself only. -/
theorem variant_literal {x : List Char} : Variant (fun c d => d == c) cs x ↔ x = cs := by
  induction cs generalizing x with
  | nil =>
      exact List.forall₂_nil_left_iff
  | cons c cs ih =>
      constructor
      · rintro (_ | ⟨hc, hrest⟩)
        rw [beq_iff_eq] at hc
        rw [hc, ih.1 hrest]
      · rintro rfl
        exact .cons (by simp) (ih.2 rfl)

theorem phrase_runs : ∀ part ∈ phrase same cs, part.isRun = true := by
  intro part hpart
  obtain ⟨c, -, rfl⟩ := List.mem_map.1 hpart
  rfl

theorem minLength_phrase : minLength (phrase same cs) = cs.length := by
  induction cs with
  | nil =>
      rfl
  | cons c cs ih =>
      rw [List.length_cons, ← ih, phrase, List.map_cons, one, minLength, Nat.add_comm]
      rfl

theorem accepts_phrase {w : List Char} : Accepts word (phrase same cs) prev w next ↔ Variant same cs w := by
  induction cs generalizing prev w with
  | nil =>
      exact List.forall₂_nil_left_iff.symm
  | cons c cs ih =>
      constructor
      · rintro ⟨u, v, rfl, hall, hlo, hhi, hacc⟩
        have hone : u.length = 1 := Nat.le_antisymm (hhi 1 rfl) hlo
        obtain ⟨d, rfl⟩ := List.length_eq_one_iff.1 hone
        exact .cons (hall d List.mem_cons_self) (ih.1 hacc)
      · rintro (_ | ⟨hsame, hrest⟩)
        rename_i d w
        refine ⟨[d], w, rfl, by simpa using hsame, le_refl 1, by simp, ih.2 hrest⟩

/-- The matcher takes what stands for the phrase. -/
theorem matchAt_phrase : matchAt word (phrase same cs) prev text = some rest ↔
    ∃ x, text = x ++ rest ∧ Variant same cs x := by
  constructor
  · intro h
    obtain ⟨x, hx, hacc⟩ := accepts_of_matchAt h
    exact ⟨x, hx, accepts_phrase.1 hacc⟩
  · rintro ⟨x, rfl, hx⟩
    obtain ⟨rest', hrest'⟩ := Option.isSome_iff_exists.1 (matchAt_of_accepts (accepts_phrase.2 hx))
    obtain ⟨x', hx', hacc⟩ := accepts_of_matchAt hrest'
    have hlen : x.length = x'.length := hx.length_eq.symm.trans (accepts_phrase.1 hacc).length_eq
    rw [hrest', (List.append_inj hx' hlen).2]

theorem substitute_nil : substitute word parts new [] = [] :=
  rfl

/-- What stands for the phrase is replaced. -/
theorem substitute_hit (hcs : cs ≠ []) (hx : Variant same cs x) :
    substitute word (phrase same cs) new (x ++ rest) = new ++ substitute word (phrase same cs) new rest := by
  have hpos : 0 < cs.length := List.length_pos_iff.2 hcs
  cases x with
  | nil =>
      have := hx.length_eq
      simp only [List.length_nil] at this
      omega
  | cons c x =>
      have hmatch : matchAt word (phrase same cs) none (c :: (x ++ rest)) = some rest :=
        matchAt_phrase.2 ⟨c :: x, rfl, hx⟩
      have hlen : rest.length ≤ (x ++ rest).length := by
        simp
      simp only [List.cons_append, substitute, List.length_cons, replaceFrom, hmatch]
      rw [replaceFrom_eq_substitute phrase_runs (by rwa [minLength_phrase]) hlen]
      rfl

/-- A character at which nothing stands for the phrase is kept. -/
theorem substitute_skip {c : Char} (hcs : cs ≠ []) (h : ∀ x rest, Variant same cs x → c :: text ≠ x ++ rest) :
    substitute word (phrase same cs) new (c :: text) = c :: substitute word (phrase same cs) new text := by
  have hpos : 0 < cs.length := List.length_pos_iff.2 hcs
  have hmatch : matchAt word (phrase same cs) none (c :: text) = none := by
    cases hsome : matchAt word (phrase same cs) none (c :: text) with
    | none =>
        rfl
    | some rest =>
        obtain ⟨x, hx, hvariant⟩ := matchAt_phrase.1 hsome
        exact absurd hx (h x rest hvariant)
  simp only [substitute, List.length_cons, replaceFrom, hmatch]
  rw [replaceFrom_eq_substitute phrase_runs (by rwa [minLength_phrase]) (le_refl _)]
  rfl

/-- A text is empty, begins with what stands for the phrase, or with a character at which nothing does. -/
theorem substitute_induction (same : Char → Char → Bool) {motive : List Char → Prop} (hcs : cs ≠ []) (nil : motive [])
    (hit : ∀ x rest, Variant same cs x → motive rest → motive (x ++ rest))
    (skip : ∀ c rest, (∀ x rest', Variant same cs x → c :: rest ≠ x ++ rest') → motive rest → motive (c :: rest)) :
    ∀ text, motive text := by
  intro text
  induction h : text.length using Nat.strong_induction_on generalizing text with
  | _ n ih =>
      subst h
      cases text with
      | nil =>
          exact nil
      | cons c cs' =>
          by_cases hx : ∃ x rest, Variant same cs x ∧ c :: cs' = x ++ rest
          · obtain ⟨x, rest, hvariant, heq⟩ := hx
            rw [heq]
            have hpos : 0 < cs.length := List.length_pos_iff.2 hcs
            have hlen := congrArg List.length heq
            rw [List.length_append, ← hvariant.length_eq] at hlen
            exact hit x rest hvariant (ih rest.length (by omega) rest rfl)
          · push Not at hx
            exact skip c cs' hx (ih cs'.length (by simp) cs' rfl)

/-! ### Occurrences -/

/-- What begins with a character that a list does not have stands after it. -/
theorem infix_of_not_mem {c : Char} {a b u : List Char} (hc : c ∉ a) (h : c :: u <:+: a ++ b) : c :: u <:+: b := by
  induction a with
  | nil =>
      exact h
  | cons d a ih =>
      rw [List.mem_cons, not_or] at hc
      obtain hbegin | hin := List.infix_cons_iff.1 h
      · exact absurd (List.cons_prefix_cons.1 hbegin).1 hc.1
      · exact ih hc.2 hin

end Pattern
