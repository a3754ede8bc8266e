import ProjectManager.Lib.Lines
import ProjectManager.Lib.Occurrences
import ProjectManager.Lib.Text

/-!
# The memory mirror

`rewrite_agent_section` keeps the agent's facts between two markers of a text that a human writes too.  Texts are lists
of characters here.  The text that it returns is the section of the kept facts between what stood before and behind the
old one (`rewriteAgentSection_section`), and a section of that form is read back as it was written (`splitSection_section`).
`mirror_iff` says for which inputs there is one section, everything else is kept, and a second call changes nothing.
-/

namespace ProjectManager

open Lines Occurrences

/-! ### The code -/

/-- `START`. -/
def startMarker : List Char :=
  "<!-- AGENT-MEMORY:START -->".toList

/-- `END`. -/
def endMarker : List Char :=
  "<!-- AGENT-MEMORY:END -->".toList

/-- `str.strip`. -/
def stripped (l : List Char) : List Char :=
  stripWhere Text.isSpace l

/-- `_split`: what is before the section, its facts, and what is behind it. -/
def splitSection (text : List Char) : Option (List Char × List (List Char) × List Char) :=
  match find startMarker text, find endMarker text with
  | some s, some e =>
    if e < s then
      none
    else
      let inner := (text.drop (s + startMarker.length)).take (e - (s + startMarker.length))
      -- a second START inside the region
      if startMarker <:+: inner then
        none
      else
        let before := text.take s
        some (if before ≠ [] ∧ before.getLast? ≠ some '\n' then before ++ ['\n'] else before,
          (splitlines (stripWhere (· == '\n') inner)).filter (stripped · ≠ []),
          text.drop (e + endMarker.length))
  | _, _ => none

/-- `_strip_marker_lines`. -/
def stripMarkerLines (text : List Char) : List Char :=
  ['\n'].intercalate ((splitlines text).filter fun ln => stripped ln ∉ [startMarker, endMarker])

/-- `_dedupe`. -/
def dedupe (facts : List (List Char)) : List (List Char) :=
  facts.foldl (fun out f => if f ∈ out then out else out ++ [f]) []

/-- The facts that are to be added. -/
def newFacts (facts : List (List Char)) : List (List Char) :=
  (facts.filter (stripped · ≠ [])).map stripped

/-- The facts of the section, and then the new ones. -/
def mergedFacts (existing : List Char) (facts : List (List Char)) : List (List Char) :=
  dedupe (((splitSection existing).map fun x => x.2.1).getD [] ++ newFacts facts)

/-- The last `cap` of them. -/
def lastFacts (cap : ℕ) (merged : List (List Char)) : List (List Char) :=
  if cap ≠ 0 ∧ cap < merged.length then merged.drop (merged.length - cap) else merged

/-- The markers and the facts between them, each on its line. -/
def sectionOf (kept : List (List Char)) : List Char :=
  ['\n'].intercalate (startMarker :: kept ++ [endMarker])

/-- `rewrite_agent_section`. -/
def rewriteAgentSection (existing : List Char) (facts : List (List Char)) (cap : ℕ) : List Char :=
  let block := sectionOf (lastFacts cap (mergedFacts existing facts))
  match splitSection existing with
  | none =>
    let base := rstripWhere (· == '\n') (stripMarkerLines existing)
    if base ≠ [] then base ++ ['\n', '\n'] ++ block ++ ['\n'] else block ++ ['\n']
  | some (before, _, after) => before ++ block ++ after

/-! ### The markers -/

/-- The characters of a marker after its first one. -/
theorem markers_cons : startMarker = '<' :: startMarker.tail ∧ endMarker = '<' :: endMarker.tail := by
  decide

theorem markers_tail : '<' ∉ startMarker.tail ∧ '<' ∉ endMarker.tail := by
  decide

theorem markers_newline : '\n' ∉ startMarker ∧ '\n' ∉ endMarker := by
  decide

theorem markers_lengths : startMarker.length = 27 ∧ endMarker.length = 25 ∧ startMarker.take 25 ≠ endMarker := by
  decide

theorem markers_oneLine : OneLine startMarker ∧ OneLine endMarker := by
  simp only [OneLine, OneLineBy]
  decide

/-- A marker. -/
def IsMarker (m : List Char) : Prop :=
  m = startMarker ∨ m = endMarker

/-- There is no marker in the text. -/
def Clean (t : List Char) : Prop :=
  ∀ m, IsMarker m → ¬ m <:+: t

instance (t : List Char) : Decidable (Clean t) :=
  decidable_of_iff (¬ startMarker <:+: t ∧ ¬ endMarker <:+: t) ⟨by rintro h m (rfl | rfl); exacts [h.1, h.2],
    fun h => ⟨h _ (.inl rfl), h _ (.inr rfl)⟩⟩

section Markers

variable {m k t : List Char}

theorem IsMarker.cons (h : IsMarker m) : ∃ m', m = '<' :: m' ∧ '<' ∉ m' := by
  obtain rfl | rfl := h
  · exact ⟨_, markers_cons.1, markers_tail.1⟩
  · exact ⟨_, markers_cons.2, markers_tail.2⟩

theorem IsMarker.ne_nil (h : IsMarker m) : m ≠ [] := by
  obtain ⟨m', rfl, -⟩ := h.cons
  simp

theorem IsMarker.newline (h : IsMarker m) : '\n' ∉ m := by
  obtain rfl | rfl := h
  · exact markers_newline.1
  · exact markers_newline.2

theorem IsMarker.oneLine (h : IsMarker m) : OneLine m := by
  obtain rfl | rfl := h
  · exact markers_oneLine.1
  · exact markers_oneLine.2

/-- No marker begins another one. -/
theorem IsMarker.not_longer (h : IsMarker m) (hk : IsMarker k) {v : List Char} (hv : v ≠ []) : m ≠ k ++ v := by
  intro heq
  obtain ⟨hstart, hend, htake⟩ := markers_lengths
  have hlength := congrArg List.length heq
  have hpos := List.length_pos_iff.2 hv
  rw [List.length_append] at hlength
  obtain rfl | rfl := h <;> obtain rfl | rfl := hk
  · omega
  · refine htake ?_
    rw [heq, ← hend, List.take_left]
  · omega
  · omega

/-- No marker lies across the beginning of a marker. -/
theorem IsMarker.apart_before (h : IsMarker m) (hk : IsMarker k) (a b : List Char) : Apart m a (k ++ b) := by
  obtain ⟨m', rfl, hm⟩ := h.cons
  obtain ⟨k', rfl, -⟩ := hk.cons
  exact apart_of_first hm a (k' ++ b)

/-- No marker lies across the end of a marker. -/
theorem IsMarker.apart_behind (h : IsMarker m) (hk : IsMarker k) (a b : List Char) : Apart m (a ++ k) b := by
  have hlonger : ∀ v, v ≠ [] → m ≠ k ++ v := fun v hv => h.not_longer hk hv
  obtain ⟨m', rfl, hm⟩ := h.cons
  obtain ⟨k', rfl, hk'⟩ := hk.cons
  exact apart_of_word hm hk' hlonger a b

theorem IsMarker.apart_newline (h : IsMarker m) (a b : List Char) : Apart m a ('\n' :: b) :=
  apart_of_head a (by simpa using h.newline)

theorem IsMarker.occurrences_self (h : IsMarker m) : occurrences m m = 1 := by
  obtain ⟨m', rfl, hm⟩ := h.cons
  exact Occurrences.occurrences_self hm

theorem IsMarker.occurrences_other (h : IsMarker m) (hk : IsMarker k) (hne : m ≠ k) : occurrences m k = 0 := by
  rw [occurrences_eq_zero_iff h.ne_nil]
  rintro ⟨a, b, hab⟩
  have hcount : ∀ m', IsMarker m' → occurrences m' k = occurrences m' a + (occurrences m' m + occurrences m' b) := by
    intro m' hm'
    rw [← hab, List.append_assoc, occurrences_append (hm'.apart_before h a b),
      occurrences_append (by simpa using hm'.apart_behind h [] b)]
  have hself := hcount k hk
  rw [hk.occurrences_self] at hself
  obtain ⟨m', rfl, hm⟩ := h.cons
  obtain ⟨k', rfl, hk'⟩ := hk.cons
  cases a with
  | nil =>
      cases b with
      | nil =>
          exact hne (by simpa using hab)
      | cons c b =>
          refine hk.not_longer h (v := c :: b) (by simp) ?_
          rw [← hab, List.nil_append]
  | cons c a =>
      obtain ⟨rfl, hrest⟩ := List.cons.inj hab
      exact hk' (by rw [← hrest]; simp)

theorem start_ne_end : startMarker ≠ endMarker := by
  intro heq
  have hlengths := markers_lengths
  rw [heq] at hlengths
  omega

/-- How often a marker occurs in a text with a section. -/
theorem IsMarker.occurrences_frame (h : IsMarker m) (before inner after : List Char) :
    occurrences m (before ++ (startMarker ++ (inner ++ (endMarker ++ after)))) =
      occurrences m before + occurrences m inner + occurrences m after + 1 := by
  have hstart : IsMarker startMarker := .inl rfl
  have hend : IsMarker endMarker := .inr rfl
  rw [occurrences_append (h.apart_before hstart _ _),
    occurrences_append (by simpa using h.apart_behind hstart [] (inner ++ (endMarker ++ after))),
    occurrences_append (h.apart_before hend _ _), occurrences_append (by simpa using h.apart_behind hend [] after)]
  obtain rfl | rfl := h
  · rw [hstart.occurrences_self, hstart.occurrences_other hend start_ne_end]
    omega
  · rw [hend.occurrences_self, hend.occurrences_other hstart start_ne_end.symm]
    omega

theorem clean_iff : Clean t ↔ ∀ m, IsMarker m → occurrences m t = 0 :=
  forall₂_congr fun _ hm => (occurrences_eq_zero_iff hm.ne_nil).symm

theorem Clean.nil : Clean [] :=
  clean_iff.2 fun _ _ => rfl

theorem Clean.of_infix (h : Clean t) {w : List Char} (hw : w <:+: t) : Clean w :=
  fun m hm hpiece => h m hm (hpiece.trans hw)

theorem clean_append_newline {a b : List Char} : Clean (a ++ '\n' :: b) ↔ Clean a ∧ Clean b := by
  have hcount : ∀ m, IsMarker m → occurrences m (a ++ '\n' :: b) = occurrences m a + occurrences m b := by
    intro m hm
    have hone : occurrences m ('\n' :: b) = occurrences m b := by
      have hnot : ¬ m <+: '\n' :: b := by
        rintro hleads
        obtain ⟨m', rfl, -⟩ := hm.cons
        exact absurd (List.cons_prefix_cons.1 hleads).1 (by decide)
      rw [occurrences, if_neg hnot, Nat.zero_add]
    rw [occurrences_append (hm.apart_newline a b), hone]
  simp only [clean_iff]
  constructor
  · intro h
    exact ⟨fun m hm => by have := h m hm; have := hcount m hm; omega,
      fun m hm => by have := h m hm; have := hcount m hm; omega⟩
  · rintro ⟨ha, hb⟩ m hm
    rw [hcount m hm, ha m hm, hb m hm]

end Markers

/-! ### A section and its facts -/

/-- A fact that a section keeps: one line that is not blank. -/
def IsFact (f : List Char) : Prop :=
  OneLine f ∧ stripped f ≠ []

/-- What stands between the markers of a section. -/
def between (kept : List (List Char)) : List Char :=
  kept.flatMap (fun f => '\n' :: f) ++ ['\n']

section Between

variable {kept kept' : List (List Char)} {f : List Char}

theorem IsFact.ne_nil (h : IsFact f) : f ≠ [] := by
  rintro rfl
  exact h.2 rfl

theorem IsFact.newline (h : IsFact f) : '\n' ∉ f := by
  intro hmem
  exact absurd (h.1 '\n' hmem) (by decide)

theorem sectionOf_eq (kept : List (List Char)) : sectionOf kept = startMarker ++ (between kept ++ endMarker) := by
  have hall : ∀ first : List Char, ['\n'].intercalate (first :: kept ++ [endMarker]) =
      first ++ (between kept ++ endMarker) := by
    induction kept with
    | nil =>
        intro first
        rw [List.cons_append, List.nil_append, List.intercalate_cons_cons, List.intercalate_singleton]
        simp [between]
    | cons f kept ih =>
        intro first
        rw [List.cons_append, List.cons_append, List.intercalate_cons_cons, ← List.cons_append, ih f]
        simp [between]
  exact hall startMarker

theorem clean_between : Clean (between kept) ↔ ∀ f ∈ kept, Clean f := by
  induction kept with
  | nil =>
      have hnewline : Clean ([] ++ '\n' :: []) := clean_append_newline.2 ⟨Clean.nil, Clean.nil⟩
      simpa [between] using hnewline
  | cons f kept ih =>
      obtain ⟨rest, hrest⟩ : ∃ rest, between kept = '\n' :: rest := by
        cases kept with
        | nil =>
            exact ⟨[], rfl⟩
        | cons f kept =>
            exact ⟨f ++ (kept.flatMap (fun f => '\n' :: f) ++ ['\n']), by simp [between]⟩
      have hsplit : between (f :: kept) = [] ++ '\n' :: (f ++ '\n' :: rest) := by
        rw [← hrest]
        simp [between]
      have hkept : Clean rest ↔ Clean (between kept) := by
        have h := clean_append_newline (a := []) (b := rest)
        rw [List.nil_append, ← hrest] at h
        exact ⟨fun hc => h.2 ⟨Clean.nil, hc⟩, fun hc => (h.1 hc).2⟩
      rw [hsplit, clean_append_newline, clean_append_newline, hkept, ih, List.forall_mem_cons]
      exact ⟨fun h => h.2, fun h => ⟨Clean.nil, h⟩⟩

theorem between_eq (hne : kept ≠ []) : between kept = ['\n'] ++ (['\n'].intercalate kept ++ ['\n']) := by
  have hall : kept.flatMap (fun f => '\n' :: f) = '\n' :: ['\n'].intercalate kept := by
    induction kept with
    | nil =>
        exact absurd rfl hne
    | cons f kept ih =>
        cases kept with
        | nil =>
            simp
        | cons f' kept =>
            rw [List.flatMap_cons, ih (by simp), List.intercalate_cons_cons]
            simp
  rw [between, hall]
  rfl

theorem intercalate_head (h : ∀ f ∈ kept, IsFact f) : ∀ c ∈ (['\n'].intercalate kept).head?, c ≠ '\n' := by
  cases kept with
  | nil =>
      simp
  | cons f kept =>
      have hf : IsFact f := h f (by simp)
      have hhead : (['\n'].intercalate (f :: kept)).head? = f.head? := by
        cases kept with
        | nil =>
            rw [List.intercalate_singleton]
        | cons f' kept =>
            rw [List.intercalate_cons_cons, List.append_assoc, List.head?_append_of_ne_nil _ hf.ne_nil]
      rintro c hc rfl
      rw [hhead] at hc
      exact hf.newline (List.mem_of_mem_head? hc)

theorem intercalate_last (h : ∀ f ∈ kept, IsFact f) : ∀ c ∈ (['\n'].intercalate kept).getLast?, c ≠ '\n' := by
  induction kept with
  | nil =>
      simp
  | cons f kept ih =>
      obtain ⟨hf, hkept⟩ := List.forall_mem_cons.1 h
      cases kept with
      | nil =>
          rintro c hc rfl
          rw [List.intercalate_singleton] at hc
          exact hf.newline (List.mem_of_getLast? hc)
      | cons f' kept =>
          have hne : ['\n'].intercalate (f' :: kept) ≠ [] := by
            have hf' := (hkept f' (by simp)).ne_nil
            cases kept with
            | nil =>
                rwa [List.intercalate_singleton]
            | cons f'' kept =>
                rw [List.intercalate_cons_cons]
                simp [hf']
          rw [List.intercalate_cons_cons, List.getLast?_append_of_ne_nil _ hne]
          exact ih hkept

/-- The facts of a section are read back as they were written. -/
theorem lines_between (h : ∀ f ∈ kept, IsFact f) :
    (splitlines (stripWhere (· == '\n') (between kept))).filter (stripped · ≠ []) = kept := by
  have hfilter : kept.filter (stripped · ≠ []) = kept :=
    List.filter_eq_self.2 fun f hf => by simpa using (h f hf).2
  by_cases hne : kept = []
  · subst hne
    rfl
  · rw [between_eq hne, stripWhere_surrounded (by simp) (by simp)
      (fun c hc => by simpa using intercalate_head h c hc) (fun c hc => by simpa using intercalate_last h c hc),
      splitlines_join (fun f hf => (h f hf).1) (fun f hf => (h f (List.mem_of_getLast? hf)).ne_nil), hfilter]

/-- The lines between the markers that are not blank are the facts. -/
theorem fact_lines_between (h : ∀ f ∈ kept, IsFact f) : (splitlines (between kept)).filter (stripped · ≠ []) = kept := by
  have hblank : ∀ ls : List (List Char), ([] :: ls).filter (stripped · ≠ []) = ls.filter (stripped · ≠ []) := fun _ => rfl
  induction kept with
  | nil =>
      rfl
  | cons f kept ih =>
      obtain ⟨hf, hkept⟩ := List.forall_mem_cons.1 h
      have hsplit : ∃ rest, between kept = '\n' :: rest ∧
          splitlines (between (f :: kept)) = [] :: f :: splitlines rest := by
        cases kept with
        | nil =>
            refine ⟨[], rfl, ?_⟩
            change splitlines ([] ++ '\n' :: (f ++ [] ++ ['\n'])) = _
            rw [splitlines_feed OneLineBy.nil, List.append_nil, splitlines_feed hf.1]
        | cons f' kept =>
            refine ⟨f' ++ (kept.flatMap (fun f => '\n' :: f) ++ ['\n']), by simp [between], ?_⟩
            have hparts : between (f :: f' :: kept) =
                [] ++ '\n' :: (f ++ '\n' :: (f' ++ (kept.flatMap (fun f => '\n' :: f) ++ ['\n']))) := by
              simp [between]
            rw [hparts, splitlines_feed OneLineBy.nil, splitlines_feed hf.1]
      obtain ⟨rest, hrest, hlines⟩ := hsplit
      have hbehind := ih hkept
      rw [hrest, ← List.nil_append ('\n' :: rest), splitlines_feed OneLineBy.nil, hblank] at hbehind
      rw [hlines, hblank, List.filter_cons_of_pos (by simpa using hf.2), hbehind]

/-- A section says which facts it keeps. -/
theorem between_inj (h : ∀ f ∈ kept, IsFact f) (h' : ∀ f ∈ kept', IsFact f) (heq : between kept = between kept') :
    kept = kept' := by
  rw [← fact_lines_between h, heq, fact_lines_between h']

end Between

/-! ### Splitting -/

/-- A text with a well-formed pair of markers: the first of each, START first, and nothing of both between. -/
structure WellFormedPair (text before inner after : List Char) : Prop where
  text_eq : text = before ++ (startMarker ++ (inner ++ (endMarker ++ after)))
  before : Clean before
  inner : Clean inner

/-- The line break behind a text that does not end with one. -/
def gap (before : List Char) : List Char :=
  if before ≠ [] ∧ before.getLast? ≠ some '\n' then ['\n'] else []

section Split

variable {text before inner after : List Char} {kept : List (List Char)}

theorem gap_spec (before : List Char) :
    (if before ≠ [] ∧ before.getLast? ≠ some '\n' then before ++ ['\n'] else before) = before ++ gap before := by
  unfold gap
  split
  · rfl
  · rw [List.append_nil]

/-- The region between the markers. -/
theorem region_eq (a b c d : List Char) {n : ℕ} (hn : n = c.length) :
    ((a ++ (b ++ (c ++ d))).drop (a.length + b.length)).take n = c := by
  have hregroup : a ++ (b ++ (c ++ d)) = (a ++ b) ++ (c ++ d) := by
    simp
  rw [hregroup, List.drop_left' List.length_append, hn]
  exact List.take_left

/-- The places of the two markers. -/
theorem WellFormedPair.places (h : WellFormedPair text before inner after) :
    find startMarker text = some before.length ∧
      find endMarker text = some (before.length + (startMarker.length + inner.length)) := by
  have hstart : IsMarker startMarker := .inl rfl
  have hend : IsMarker endMarker := .inr rfl
  constructor
  · rw [h.text_eq]
    exact find_append (h.before _ hstart) (hstart.apart_before hstart _ _)
  · have hregroup : text = (before ++ (startMarker ++ inner)) ++ (endMarker ++ after) := by
      rw [h.text_eq]
      simp
    have hfree : ¬ endMarker <:+: before ++ (startMarker ++ inner) := by
      rw [← occurrences_eq_zero_iff hend.ne_nil, occurrences_append (hend.apart_before hstart _ _),
        occurrences_append (by simpa using hend.apart_behind hstart [] inner), clean_iff.1 h.before _ hend,
        hend.occurrences_other hstart start_ne_end.symm, clean_iff.1 h.inner _ hend]
    rw [hregroup, find_append hfree (hend.apart_before hend _ _), List.length_append, List.length_append]

/-- A well-formed pair is found. -/
theorem WellFormedPair.split (h : WellFormedPair text before inner after) : splitSection text =
    some (before ++ gap before, (splitlines (stripWhere (· == '\n') inner)).filter (stripped · ≠ []), after) := by
  obtain ⟨hs, he⟩ := h.places
  have hinner : (text.drop (before.length + startMarker.length)).take
      (before.length + (startMarker.length + inner.length) - (before.length + startMarker.length)) = inner := by
    rw [h.text_eq]
    exact region_eq before startMarker inner _ (by omega)
  have hbefore : text.take before.length = before := by
    rw [h.text_eq]
    exact List.take_left
  have hafter : text.drop (before.length + (startMarker.length + inner.length) + endMarker.length) = after := by
    have hregroup : text = (before ++ (startMarker ++ (inner ++ endMarker))) ++ after := by
      rw [h.text_eq]
      simp
    rw [hregroup]
    exact List.drop_left' (by simp [Nat.add_assoc])
  unfold splitSection
  rw [hs, he]
  dsimp only
  rw [if_neg (by omega), hinner, if_neg (h.inner _ (.inl rfl)), hbefore, hafter, gap_spec]

/-- An END that does not begin before a START begins behind it. -/
theorem end_behind_start {before before' rest after : List Char} (hle : before.length ≤ before'.length)
    (h : before ++ (startMarker ++ rest) = before' ++ (endMarker ++ after)) :
    ∃ inner, rest = inner ++ (endMarker ++ after) ∧ before' = before ++ (startMarker ++ inner) := by
  have hstart : IsMarker startMarker := .inl rfl
  have hend : IsMarker endMarker := .inr rfl
  obtain ⟨mid, rfl⟩ : before <+: before' := List.prefix_of_prefix_length_le
    (List.prefix_append before (startMarker ++ rest)) (h ▸ List.prefix_append before' (endMarker ++ after)) hle
  rw [List.append_assoc, List.append_cancel_left_eq] at h
  obtain ⟨inner, rfl, hrest⟩ | ⟨back, hback, hafter⟩ := List.append_eq_append_iff.1 h
  · exact ⟨inner, hrest, rfl⟩
  · cases back with
    | nil =>
        exact ⟨[], by simpa using hafter.symm, by simpa using hback.symm⟩
    | cons c back =>
        -- the END would begin inside the START
        obtain ⟨m', hm', hm⟩ := hstart.cons
        obtain ⟨k', hk', -⟩ := hend.cons
        obtain rfl : '<' = c := by
          rw [hk'] at hafter
          exact (List.cons.inj hafter).1
        cases mid with
        | nil =>
            rw [List.nil_append] at hback
            rw [← hback] at hafter
            obtain ⟨v, hv⟩ | ⟨v, hv⟩ := List.prefix_or_prefix_of_prefix (List.prefix_append endMarker after)
              (hafter ▸ List.prefix_append startMarker rest)
            · obtain rfl | hne := eq_or_ne v []
              · exact absurd (by simpa using hv.symm) start_ne_end
              · exact absurd hv.symm (hstart.not_longer hend hne)
            · obtain rfl | hne := eq_or_ne v []
              · exact absurd (by simpa using hv) start_ne_end
              · exact absurd hv.symm (hend.not_longer hstart hne)
        | cons d mid =>
            rw [hm'] at hback
            obtain ⟨-, rfl⟩ := List.cons.inj hback
            exact absurd (by simp) hm

/-- A pair that is found is well-formed. -/
theorem pair_of_split {x : List Char × List (List Char) × List Char} (h : splitSection text = some x) :
    ∃ before inner, WellFormedPair text before inner x.2.2 ∧ x = (before ++ gap before,
      (splitlines (stripWhere (· == '\n') inner)).filter (stripped · ≠ []), x.2.2) := by
  suffices hpair : ∃ before inner after, WellFormedPair text before inner after by
    obtain ⟨before, inner, after, hpair⟩ := hpair
    obtain rfl := Option.some.inj (h.symm.trans hpair.split)
    exact ⟨before, inner, hpair, rfl⟩
  unfold splitSection at h
  split at h
  · rename_i s e hs he
    split at h
    · cases h
    · rename_i hle
      dsimp only at h
      split at h
      · cases h
      · rename_i hinner
        obtain ⟨before, rest, rfl, rfl, hfirst⟩ := find_eq_some hs
        obtain ⟨before', after, htext, rfl, hfirst'⟩ := find_eq_some he
        obtain ⟨inner, rfl, rfl⟩ := end_behind_start (Nat.le_of_not_lt hle) htext
        refine ⟨before, inner, after, htext ▸ by simp, ?_, ?_⟩
        · rintro m (rfl | rfl) ⟨x, y, hxy⟩
          · have hle := hfirst x (y ++ (startMarker ++ (inner ++ (endMarker ++ after)))) (by rw [← hxy]; simp)
            have hlength := congrArg List.length hxy
            simp only [List.length_append, markers_lengths.1] at hlength
            omega
          · have hle := hfirst' x (y ++ (startMarker ++ (inner ++ (endMarker ++ after)))) (by rw [← hxy]; simp)
            have hlength := congrArg List.length hxy
            simp only [List.length_append, markers_lengths.2.1] at hlength hle
            omega
        · rintro m (rfl | rfl) hpiece
          · refine hinner ?_
            rw [region_eq before startMarker inner _ (by simp only [List.length_append]; omega)]
            exact hpiece
          · obtain ⟨x, y, hxy⟩ := hpiece
            have hle := hfirst' (before ++ (startMarker ++ x)) (y ++ (endMarker ++ after)) (by rw [← hxy]; simp)
            have hlength := congrArg List.length hxy
            simp only [List.length_append, markers_lengths.2.1] at hlength hle
            omega
  · cases h

end Split

/-! ### Facts that are kept -/

section Kept

variable {existing : List Char} {facts kept new merged : List (List Char)} {f : List Char} {cap : ℕ}

theorem stripped_stripped (l : List Char) : stripped (stripped l) = stripped l := by
  have h := congrArg String.toList (Text.strip_strip (String.ofList l))
  simpa [Text.strip, stripped, stripWhere] using h

theorem newFacts_nonblank (h : f ∈ newFacts facts) : stripped f ≠ [] := by
  obtain ⟨g, hg, rfl⟩ := List.mem_map.1 h
  rw [stripped_stripped]
  simpa using (List.mem_filter.1 hg).2

/-- What the loop of `_dedupe` adds to what it has: the facts that are not there, once each. -/
theorem dedupe_loop (new out : List (List Char)) : ∃ added,
    new.foldl (fun out f => if f ∈ out then out else out ++ [f]) out = out ++ added ∧
      (∀ f ∈ added, f ∉ out ∧ f ∈ new) ∧ (∀ f ∈ new, f ∈ out ∨ f ∈ added) ∧ added.Nodup := by
  induction new generalizing out with
  | nil =>
      exact ⟨[], by simp, by simp, by simp, List.nodup_nil⟩
  | cons g new ih =>
      rw [List.foldl_cons]
      by_cases hg : g ∈ out
      · rw [if_pos hg]
        obtain ⟨added, heq, hadded, hall, hnodup⟩ := ih out
        refine ⟨added, heq, fun f hf => ⟨(hadded f hf).1, List.mem_cons_of_mem _ (hadded f hf).2⟩, ?_, hnodup⟩
        exact List.forall_mem_cons.2 ⟨.inl hg, hall⟩
      · rw [if_neg hg]
        obtain ⟨added, heq, hadded, hall, hnodup⟩ := ih (out ++ [g])
        refine ⟨g :: added, by rw [heq, List.append_assoc, List.singleton_append], ?_, ?_, ?_⟩
        · refine List.forall_mem_cons.2 ⟨⟨hg, List.mem_cons_self⟩, fun f hf => ?_⟩
          obtain ⟨hnot, hmem⟩ := hadded f hf
          exact ⟨fun hout => hnot (List.mem_append_left _ hout), List.mem_cons_of_mem _ hmem⟩
        · refine List.forall_mem_cons.2 ⟨.inr List.mem_cons_self, fun f hf => ?_⟩
          obtain hout | hmem := hall f hf
          · obtain hout | hone := List.mem_append.1 hout
            · exact .inl hout
            · exact .inr (by simp [List.mem_singleton.1 hone])
          · exact .inr (List.mem_cons_of_mem _ hmem)
        · refine List.nodup_cons.2 ⟨fun hmem => ?_, hnodup⟩
          exact (hadded g hmem).1 (by simp)

theorem dedupe_spec (l : List (List Char)) : (dedupe l).Nodup ∧ ∀ f, f ∈ dedupe l ↔ f ∈ l := by
  obtain ⟨added, heq, hadded, hall, hnodup⟩ := dedupe_loop l []
  rw [List.nil_append] at heq
  rw [dedupe, heq]
  refine ⟨hnodup, fun f => ⟨fun hf => (hadded f hf).2, fun hf => ?_⟩⟩
  obtain hnil | hmem := hall f hf
  · cases hnil
  · exact hmem

theorem dedupe_of_nodup (h : kept.Nodup) : dedupe kept = kept := by
  suffices hall : ∀ out : List (List Char), (out ++ kept).Nodup →
      kept.foldl (fun out f => if f ∈ out then out else out ++ [f]) out = out ++ kept by
    simpa [dedupe] using hall [] (by simpa using h)
  clear h
  induction kept with
  | nil =>
      simp
  | cons f kept ih =>
      intro out hnodup
      have hf : f ∉ out := by
        intro hmem
        exact (List.nodup_append.1 hnodup).2.2 f hmem f (by simp) rfl
      rw [List.foldl_cons, if_neg hf, ih (out ++ [f]) (by simpa using hnodup), List.append_assoc, List.singleton_append]

/-- The last facts of a list are its end. -/
theorem lastFacts_suffix (cap : ℕ) (merged : List (List Char)) : lastFacts cap merged <:+ merged := by
  unfold lastFacts
  split
  · exact List.drop_suffix _ _
  · exact List.suffix_rfl

theorem lastFacts_length (hcap : 1 ≤ cap) (merged : List (List Char)) : (lastFacts cap merged).length ≤ cap := by
  unfold lastFacts
  split
  · rw [List.length_drop]
    omega
  · omega

theorem lastFacts_of_le (h : kept.length ≤ cap) : lastFacts cap kept = kept := by
  unfold lastFacts
  rw [if_neg (by omega)]

theorem lastFacts_last (hcap : 1 ≤ cap) (merged : List (List Char)) : (lastFacts cap merged).getLast? = merged.getLast? := by
  unfold lastFacts
  split
  · rw [List.getLast?_drop, if_neg (by omega)]
  · rfl

/-- Merging the new facts again changes nothing just when all of them have been kept. -/
theorem merge_again_iff (hcap : 1 ≤ cap) (hnodup : kept.Nodup) (hlength : kept.length ≤ cap) :
    lastFacts cap (dedupe (kept ++ new)) = kept ↔ ∀ f ∈ new, f ∈ kept := by
  obtain ⟨added, heq, hadded, hall, -⟩ := dedupe_loop new kept
  have hmerged : dedupe (kept ++ new) = kept ++ added := by
    rw [dedupe, List.foldl_append]
    rw [← dedupe, dedupe_of_nodup hnodup, heq]
  rw [hmerged]
  constructor
  · intro hsame f hf
    obtain hkept | hmem := hall f hf
    · exact hkept
    · -- then the last fact would be a new one
      have hlast := lastFacts_last hcap (kept ++ added)
      have hne : added ≠ [] := List.ne_nil_of_mem hmem
      rw [hsame, List.getLast?_append_of_ne_nil _ hne, List.getLast?_eq_getLast_of_ne_nil hne] at hlast
      have hin : added.getLast hne ∈ kept := List.mem_of_getLast? hlast
      exact absurd hin (hadded _ (List.getLast_mem hne)).1
  · intro hsub
    have hnil : added = [] := by
      rw [List.eq_nil_iff_forall_not_mem]
      intro f hf
      exact (hadded f hf).1 (hsub f (hadded f hf).2)
    rw [hnil, List.append_nil, lastFacts_of_le hlength]

/-- The facts of the old section. -/
def priorFacts (existing : List Char) : List (List Char) :=
  ((splitSection existing).map fun x => x.2.1).getD []

theorem priorFacts_spec (h : f ∈ priorFacts existing) : IsFact f ∧ Clean f := by
  unfold priorFacts at h
  cases hsplit : splitSection existing with
  | none =>
      rw [hsplit] at h
      cases h
  | some x =>
      obtain ⟨before, inner, hpair, hx⟩ := pair_of_split hsplit
      rw [hsplit, hx] at h
      obtain ⟨hline, hblank⟩ := List.mem_filter.1 h
      obtain ⟨hone, hpiece⟩ := mem_splitlines hline
      exact ⟨⟨hone, by simpa using hblank⟩, hpair.inner.of_infix (hpiece.trans (stripWhere_within _ inner))⟩

/-- The facts that a call keeps. -/
def keptFacts (existing : List Char) (facts : List (List Char)) (cap : ℕ) : List (List Char) :=
  lastFacts cap (mergedFacts existing facts)

theorem mem_mergedFacts : f ∈ mergedFacts existing facts ↔ f ∈ priorFacts existing ∨ f ∈ newFacts facts := by
  rw [mergedFacts, (dedupe_spec _).2, List.mem_append]
  rfl

theorem keptFacts_nodup (existing : List Char) (facts : List (List Char)) (cap : ℕ) :
    (keptFacts existing facts cap).Nodup :=
  (dedupe_spec _).1.sublist (lastFacts_suffix cap (mergedFacts existing facts)).sublist

theorem mem_of_kept (h : f ∈ keptFacts existing facts cap) : f ∈ priorFacts existing ∨ f ∈ newFacts facts :=
  mem_mergedFacts.1 ((lastFacts_suffix cap _).mem h)

/-- No new fact is among the merged facts that the cap cuts off. -/
def NothingCut (existing : List Char) (facts : List (List Char)) (cap : ℕ) : Prop :=
  ∀ f ∈ newFacts facts, f ∉ (mergedFacts existing facts).take ((mergedFacts existing facts).length - cap)

theorem nothingCut_iff (hcap : 1 ≤ cap) :
    NothingCut existing facts cap ↔ ∀ f ∈ newFacts facts, f ∈ keptFacts existing facts cap := by
  refine forall₂_congr fun f hf => ?_
  have hmem : f ∈ mergedFacts existing facts := mem_mergedFacts.2 (.inr hf)
  have hnodup : (mergedFacts existing facts).Nodup := (dedupe_spec _).1
  rw [← List.take_append_drop ((mergedFacts existing facts).length - cap) (mergedFacts existing facts)] at hmem hnodup
  have hkept : keptFacts existing facts cap =
      (mergedFacts existing facts).drop ((mergedFacts existing facts).length - cap) := by
    unfold keptFacts lastFacts
    split
    · rfl
    · rw [Nat.sub_eq_zero_of_le (by omega), List.drop_zero]
  rw [hkept]
  constructor
  · intro hcut
    exact (List.mem_append.1 hmem).resolve_left hcut
  · intro hdrop htake
    exact (List.nodup_append.1 hnodup).2.2 f htake f hdrop rfl

/-- The new facts are of one line each. -/
def SingleLines (facts : List (List Char)) : Prop :=
  ∀ f ∈ newFacts facts, OneLine f

theorem kept_isFact (h : SingleLines facts) (hf : f ∈ keptFacts existing facts cap) : IsFact f := by
  obtain hprior | hnew := mem_of_kept hf
  · exact (priorFacts_spec hprior).1
  · exact ⟨h f hnew, newFacts_nonblank hnew⟩

end Kept

/-! ### The text that is returned -/

/-- What stands before and behind the section of the returned text. -/
def surroundings (existing : List Char) : List Char × List Char :=
  match splitSection existing with
  | none =>
    let base := rstripWhere (· == '\n') (stripMarkerLines existing)
    (if base ≠ [] then base ++ ['\n', '\n'] else [], ['\n'])
  | some (before, _, after) => (before, after)

/-- No marker is around the section: none behind a well-formed pair, or, where there is no such pair, none in a line
that is not a marker by itself. -/
def CleanAround (existing : List Char) : Prop :=
  match splitSection existing with
  | none => ∀ line ∈ splitlines existing, stripped line ∉ [startMarker, endMarker] → Clean line
  | some (_, _, after) => Clean after

/-- There is one section with at most `cap` facts, what was around a well-formed pair is kept (but for the line break
before the section), and the same call on the result changes nothing. -/
structure Mirrors (existing : List Char) (facts : List (List Char)) (cap : ℕ) (result : List Char) : Prop where
  one_start : occurrences startMarker result = 1
  one_end : occurrences endMarker result = 1
  facts_between : ∃ before inner after, result = before ++ (startMarker ++ (inner ++ (endMarker ++ after))) ∧
    ((splitlines inner).filter (stripped · ≠ [])).length ≤ cap
  keeps : ∀ before inner after, WellFormedPair existing before inner after →
    ∃ inner', result = before ++ gap before ++ (startMarker ++ (inner' ++ (endMarker ++ after)))
  stable : rewriteAgentSection result facts cap = result

section Rewrite

variable {existing before after : List Char} {facts kept : List (List Char)} {cap : ℕ}

/-- The section of the kept facts, between what stands around it. -/
theorem rewriteAgentSection_section (existing : List Char) (facts : List (List Char)) (cap : ℕ) :
    rewriteAgentSection existing facts cap = (surroundings existing).1 ++
      (startMarker ++ (between (keptFacts existing facts cap) ++ (endMarker ++ (surroundings existing).2))) := by
  unfold rewriteAgentSection surroundings
  cases splitSection existing with
  | none =>
      dsimp only
      rw [sectionOf_eq]
      split
      · simp [keptFacts]
      · simp [keptFacts]
  | some x =>
      obtain ⟨before, prior, after⟩ := x
      dsimp only
      rw [sectionOf_eq]
      simp [keptFacts]

theorem gap_append_gap (before : List Char) : gap (before ++ gap before) = [] := by
  unfold gap
  by_cases h : before ≠ [] ∧ before.getLast? ≠ some '\n'
  · rw [if_pos h, if_neg (by simp)]
  · rw [if_neg h, List.append_nil, if_neg h]

/-- What stands before a section needs no further line break. -/
theorem gap_surroundings (existing : List Char) : gap (surroundings existing).1 = [] := by
  unfold surroundings
  cases hsplit : splitSection existing with
  | none =>
      dsimp only
      split
      · simp [gap]
      · simp [gap]
  | some x =>
      obtain ⟨before, inner, -, hx⟩ := pair_of_split hsplit
      rw [hx]
      exact gap_append_gap before

theorem clean_gap : Clean (before ++ gap before) ↔ Clean before := by
  unfold gap
  split
  · rw [clean_append_newline]
    exact ⟨fun h => h.1, fun h => ⟨h, Clean.nil⟩⟩
  · rw [List.append_nil]

theorem clean_join {ls : List (List Char)} : Clean (['\n'].intercalate ls) ↔ ∀ l ∈ ls, Clean l := by
  induction ls with
  | nil =>
      simpa using Clean.nil
  | cons l ls ih =>
      cases ls with
      | nil =>
          simp
      | cons l' ls =>
          rw [List.intercalate_cons_cons, List.append_assoc, List.singleton_append, clean_append_newline, ih]
          exact List.forall_mem_cons.symm

theorem clean_rstrip {t : List Char} : Clean (rstripWhere (· == '\n') t) ↔ Clean t := by
  have hsplit : ∀ newlines : List Char, (∀ c ∈ newlines, c = '\n') → ∀ base, Clean base → Clean (base ++ newlines) := by
    intro newlines
    induction newlines with
    | nil =>
        intro _ base hbase
        rwa [List.append_nil]
    | cons c newlines ih =>
        intro hall base hbase
        obtain ⟨rfl, hnewlines⟩ := List.forall_mem_cons.1 hall
        exact clean_append_newline.2 ⟨hbase, by simpa using ih hnewlines [] Clean.nil⟩
  constructor
  · intro h
    have htext : t = rstripWhere (· == '\n') t ++ (t.reverse.takeWhile (· == '\n')).reverse := by
      rw [rstripWhere, ← List.reverse_append, List.takeWhile_append_dropWhile, List.reverse_reverse]
    rw [htext]
    refine hsplit _ (fun c hc => ?_) _ h
    simpa using List.mem_takeWhile_imp (List.mem_reverse.1 hc)
  · exact fun h => h.of_infix (rstripWhere_leads _ t).isInfix

/-- The surroundings are clean just when the text is clean around its section. -/
theorem cleanAround_iff :
    CleanAround existing ↔ Clean (surroundings existing).1 ∧ Clean (surroundings existing).2 := by
  unfold CleanAround surroundings
  cases hsplit : splitSection existing with
  | none =>
      dsimp only
      have hnewline : Clean ['\n'] := clean_append_newline.2 ⟨Clean.nil, Clean.nil⟩
      have hbase : Clean (rstripWhere (· == '\n') (stripMarkerLines existing)) ↔
          ∀ line ∈ splitlines existing, stripped line ∉ [startMarker, endMarker] → Clean line := by
        rw [clean_rstrip, stripMarkerLines, clean_join]
        simp only [List.mem_filter, decide_eq_true_eq, and_imp]
      rw [← hbase]
      split
      · rw [show ∀ base : List Char, base ++ ['\n', '\n'] = base ++ '\n' :: ([] ++ '\n' :: []) from fun _ => rfl,
          clean_append_newline, clean_append_newline]
        exact ⟨fun h => ⟨⟨h, Clean.nil, Clean.nil⟩, hnewline⟩, fun h => h.1.1⟩
      · rename_i hnil
        rw [not_not.1 hnil]
        exact ⟨fun h => ⟨h, hnewline⟩, fun h => h.1⟩
  | some x =>
      obtain ⟨before, inner, hpair, hx⟩ := pair_of_split hsplit
      rw [hx]
      exact ⟨fun h => ⟨clean_gap.2 hpair.before, h⟩, fun h => h.2⟩

/-- Counting the markers of the returned text. -/
theorem markers_once_iff : (∀ m, IsMarker m → occurrences m (rewriteAgentSection existing facts cap) = 1) ↔
    CleanAround existing ∧ ∀ f ∈ keptFacts existing facts cap, Clean f := by
  rw [cleanAround_iff, ← clean_between]
  simp only [clean_iff]
  constructor
  · intro h
    have hparts : ∀ m, IsMarker m → occurrences m (surroundings existing).1 = 0 ∧
        occurrences m (surroundings existing).2 = 0 ∧ occurrences m (between (keptFacts existing facts cap)) = 0 := by
      intro m hm
      have hone := h m hm
      rw [rewriteAgentSection_section, hm.occurrences_frame] at hone
      omega
    exact ⟨⟨fun m hm => (hparts m hm).1, fun m hm => (hparts m hm).2.1⟩, fun m hm => (hparts m hm).2.2⟩
  · rintro ⟨⟨hbefore, hafter⟩, hbetween⟩ m hm
    rw [rewriteAgentSection_section, hm.occurrences_frame, hbefore m hm, hafter m hm, hbetween m hm]

/-- What was around a well-formed pair is kept, whatever the facts are. -/
theorem keeps_around {inner : List Char} (h : WellFormedPair existing before inner after) :
    ∃ inner', rewriteAgentSection existing facts cap =
      before ++ gap before ++ (startMarker ++ (inner' ++ (endMarker ++ after))) := by
  have haround : surroundings existing = (before ++ gap before, after) := by
    unfold surroundings
    rw [h.split]
  refine ⟨between (keptFacts existing facts cap), ?_⟩
  rw [rewriteAgentSection_section, haround]

/-- A section of facts of one line each is read back as it was written. -/
theorem splitSection_section (hbefore : Clean before) (hgap : gap before = []) (hclean : ∀ f ∈ kept, Clean f)
    (hfacts : ∀ f ∈ kept, IsFact f) :
    splitSection (before ++ (startMarker ++ (between kept ++ (endMarker ++ after)))) = some (before, kept, after) := by
  have hpair : WellFormedPair (before ++ (startMarker ++ (between kept ++ (endMarker ++ after)))) before (between kept)
      after := ⟨rfl, hbefore, clean_between.2 hclean⟩
  rw [hpair.split, hgap, List.append_nil, lines_between hfacts]

/-- A second call changes nothing just when no new fact was cut off. -/
theorem stable_iff (hcap : 1 ≤ cap) (hsingle : SingleLines facts) (haround : CleanAround existing)
    (hclean : ∀ f ∈ keptFacts existing facts cap, Clean f) :
    rewriteAgentSection (rewriteAgentSection existing facts cap) facts cap = rewriteAgentSection existing facts cap ↔
      NothingCut existing facts cap := by
  have hfacts : ∀ f ∈ keptFacts existing facts cap, IsFact f := fun f hf => kept_isFact hsingle hf
  have hsplit : splitSection (_ ++ (_ ++ (_ ++ (_ ++ (surroundings existing).2)))) = _ :=
    splitSection_section (cleanAround_iff.1 haround).1 (gap_surroundings existing) hclean hfacts
  rw [← rewriteAgentSection_section] at hsplit
  have hkept : keptFacts (rewriteAgentSection existing facts cap) facts cap =
      lastFacts cap (dedupe (keptFacts existing facts cap ++ newFacts facts)) := by
    rw [keptFacts, mergedFacts, hsplit]
    rfl
  have haround' : surroundings (rewriteAgentSection existing facts cap) = surroundings existing := by
    rw [surroundings, hsplit]
  have hsection : rewriteAgentSection (rewriteAgentSection existing facts cap) facts cap = (surroundings existing).1 ++
      (startMarker ++ (between (keptFacts (rewriteAgentSection existing facts cap) facts cap) ++
        (endMarker ++ (surroundings existing).2))) := by
    rw [rewriteAgentSection_section (rewriteAgentSection existing facts cap), haround']
  rw [nothingCut_iff hcap, ← merge_again_iff hcap (keptFacts_nodup existing facts cap) (lastFacts_length hcap _), ← hkept]
  constructor
  · intro hsame
    rw [hsection] at hsame
    conv at hsame =>
      rhs
      rw [rewriteAgentSection_section]
    have hbetween := List.append_cancel_right (List.append_cancel_left (List.append_cancel_left hsame))
    exact between_inj (fun f hf => kept_isFact hsingle hf) hfacts hbetween
  · intro hsame
    rw [hsection, hsame, ← rewriteAgentSection_section]

end Rewrite

end ProjectManager
