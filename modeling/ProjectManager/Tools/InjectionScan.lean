import ProjectManager.Actions.Secrets
import ProjectManager.Lib.Matching
import ProjectManager.Lib.Separators

/-!
# The scan for injected instructions

`scan_for_injection_markers` searches for eleven phrases, whatever their case and their white space.  A phrase takes
letters, colons and white space only: so the scan of a text can be cut at the symbols of a frame (`scan_separator`),
and the line feeds around a text do not matter (`scan_wrapped`).
-/

namespace ProjectManager

open Pattern

/-! ### The markers -/

/-- One part of a marker, in lower case: a letter, at least so much white space, or a word boundary. -/
inductive MarkerPart where
  | letter (c : Char)
  | gap (lo : ℕ)
  | edge
  deriving DecidableEq

/-- The ways to read a marker. -/
abbrev MarkerWays :=
  List (List MarkerPart)

namespace MarkerWays

/-- The characters of a text. -/
def word (s : String) : MarkerWays :=
  [s.toList.map .letter]

/-- `\s+`. -/
def space : MarkerWays :=
  [[.gap 1]]

/-- `\s*`. -/
def spaces : MarkerWays :=
  [[.gap 0]]

/-- `\b`. -/
def edge : MarkerWays :=
  [[.edge]]

/-- One after the other. -/
def chain : List MarkerWays → MarkerWays
  | [] => [[]]
  | first :: rest => first.flatMap fun way => (chain rest).map (way ++ ·)

/-- `(a|b|c)`, the words with their endings. -/
def either (words : List String) : MarkerWays :=
  words.flatMap word

/-- `(...)?`. -/
def maybe (ways : MarkerWays) : MarkerWays :=
  ways ++ [[]]

end MarkerWays

open MarkerWays in
/-- `_INJECTION_MARKERS`. -/
def injectionMarkers : List MarkerWays :=
  [chain [edge, word "ignore", space, maybe (chain [either ["all", "the"], space]), either ["previous", "prior", "above"],
      space, either ["instruction", "instructions", "prompt", "prompts", "task"], edge],
    chain [edge, word "override", space, maybe (chain [either ["your", "the"], space]),
      either ["instruction", "instructions", "system", "rule", "rules"], edge],
    chain [edge, word "execute", space, either ["the"], space, word "following", space, either ["command", "instruction"],
      edge] ++ chain [edge, word "execute", space, word "this", space, either ["command", "instruction"], edge],
    chain [edge, word "disregard", space, maybe (chain [either ["all", "the"], space]),
      either ["previous", "prior", "above"], edge],
    chain [edge, word "you", space, word "are", space, word "now", space, either ["a", "an", "in"], edge],
    chain [edge, word "new", space, either ["instruction", "instructions"], spaces, word ":"],
    chain [edge, word "system", spaces, word ":", spaces],
    chain [edge, word "bỏ", spaces, word "qua", space,
      maybe (chain [word "tất", spaces, word "cả", space] ++ chain [word "các", space]),
      chain [word "hướng", spaces, word "dẫn"] ++ chain [word "chỉ", spaces, word "thị"] ++ word "lệnh" ++
        chain [word "yêu", spaces, word "cầu"], edge],
    chain [edge, word "ghi", spaces, word "đè", space, maybe (chain [word "lên", space]),
      chain [word "hướng", spaces, word "dẫn"] ++ chain [word "chỉ", spaces, word "thị"] ++
        chain [word "hệ", spaces, word "thống"] ++ chain [word "quy", spaces, word "tắc"], edge],
    chain [edge, word "lờ", spaces, word "đi", space,
      maybe (chain [word "tất", spaces, word "cả", space] ++ chain [word "các", space]),
      chain [word "hướng", spaces, word "dẫn"] ++ chain [word "chỉ", spaces, word "thị"] ++ word "lệnh", edge],
    chain [edge, word "thực", spaces, word "thi", space,
      word "lệnh" ++ chain [word "chỉ", spaces, word "thị"] ++ chain [word "hướng", spaces, word "dẫn"], space, word "sau",
      edge]]

/-- A part as it is matched; `sameCase` is `re.IGNORECASE`. -/
def MarkerPart.part (sameCase : Char → Char → Bool) : MarkerPart → Part
  | .letter c => one (sameCase c)
  | .gap lo => atLeast lo Text.isSpace
  | .edge => .boundary

/-- `scan_for_injection_markers`. -/
def scanForInjectionMarkers (py : Python) (sameCase : Char → Char → Bool) (text : List Char) : Bool :=
  injectionMarkers.any fun ways => ways.any fun way =>
    search py.isWord (way.map (MarkerPart.part sameCase)) none text

/-- `_QUARANTINE_PLACEHOLDER`. -/
def quarantinePlaceholder : List Char :=
  "[nội dung bị giữ lại — nghi ngờ chèn lệnh (prompt injection)]".toList

/-- All ways to read a marker. -/
def markerWays : MarkerWays :=
  injectionMarkers.flatten

/-- What is documented of `re.IGNORECASE` and `\w`, on ASCII and on the text that stands for a withheld one. -/
structure ReadsMarkers (py : Python) (sameCase : Char → Char → Bool) : Prop where
  case : ∀ way ∈ markerWays, ∀ c, .letter c ∈ way → ∀ d, d.toNat < 128 ∨ d ∈ quarantinePlaceholder →
    sameCase c d = true → c = d.toLower
  letters : ∀ c, isAscii c = true → py.isWord c = true
  symbols : ∀ c, c.toNat < 128 → isAscii c = false → c ≠ '_' → py.isWord c = false

/-! ### Ways -/

namespace MarkerPart

/-- A way begins with a letter at a word boundary. -/
def opens : List MarkerPart → Bool
  | .edge :: .letter _ :: _ => true
  | _ => false

/-- Backwards, a way begins with a letter at a word boundary, or with a colon and perhaps white space. -/
def closes : List MarkerPart → Bool
  | .edge :: .letter _ :: _ => true
  | .letter _ :: _ => true
  | .gap 0 :: .letter _ :: _ => true
  | _ => false

/-- The way has a colon, or white space in it and a word at its end. -/
def spaced (way : List MarkerPart) : Bool :=
  way.contains (.letter ':') || way.contains (.gap 1) && match way.reverse with
    | .edge :: .letter _ :: _ => true
    | _ => false

/-- The way has a letter that is not in the text. -/
def lacks (text : List Char) (way : List MarkerPart) : Bool :=
  way.any fun p => match p with
    | .letter c => !(text.map Char.toLower).contains c
    | _ => false

end MarkerPart

open MarkerPart

theorem markerWays_shape : ∀ way ∈ markerWays, opens way = true ∧ closes way.reverse = true ∧ spaced way = true ∧
    (.letter 'k' ∈ way → 2 ≤ way.count (.gap 1)) ∧ ∀ s ∈ ['=', '[', ']', '(', '\n', ' '], .letter s ∉ way := by
  decide +kernel

section

variable {py : Python} {sameCase : Char → Char → Bool} {text w : List Char} {way : List MarkerPart}
  {prev next : Option Char}

/-- The parts of a way. -/
abbrev partsOf (sameCase : Char → Char → Bool) (way : List MarkerPart) : List Part :=
  way.map (MarkerPart.part sameCase)

theorem scan_iff : scanForInjectionMarkers py sameCase text = true ↔
    ∃ way ∈ markerWays, Pattern.Found py.isWord (partsOf sameCase way) none text := by
  simp only [scanForInjectionMarkers, List.any_eq_true, search_iff, markerWays, List.mem_flatten]
  constructor
  · rintro ⟨ways, hways, way, hway, hfound⟩
    exact ⟨way, ⟨ways, hways, hway⟩, hfound⟩
  · rintro ⟨way, ⟨ways, hways, hway⟩, hfound⟩
    exact ⟨ways, hways, way, hway, hfound⟩

theorem scan_eq_false_iff : scanForInjectionMarkers py sameCase text = false ↔
    ∀ way ∈ markerWays, ¬ Pattern.Found py.isWord (partsOf sameCase way) none text := by
  rw [← Bool.not_eq_true, scan_iff]
  simp

/-- A match has every letter of its way, in some case. -/
theorem exists_letter {c : Char} (hc : .letter c ∈ way) (h : Pattern.Accepts py.isWord (partsOf sameCase way) prev w next) :
    ∃ d ∈ w, sameCase c d = true :=
  exists_of_accepts (List.mem_map.2 ⟨_, hc, rfl⟩) Nat.one_pos h

theorem exists_space (hgap : .gap 1 ∈ way) (h : Pattern.Accepts py.isWord (partsOf sameCase way) prev w next) :
    ∃ d ∈ w, Text.isSpace d = true :=
  exists_of_accepts (List.mem_map.2 ⟨_, hgap, rfl⟩) Nat.one_pos h

theorem gaps_le_spaces (h : Pattern.Accepts py.isWord (partsOf sameCase way) prev w next) :
    way.count (.gap 1) ≤ w.countP Text.isSpace := by
  induction way generalizing prev w with
  | nil =>
      exact Nat.zero_le _
  | cons part way ih =>
      cases part with
      | edge =>
          rw [List.count_cons_of_ne (by simp)]
          exact ih h.2
      | letter c =>
          obtain ⟨u, v, rfl, -, -, -, hacc⟩ := h
          have hle := ih hacc
          rw [List.count_cons_of_ne (by simp), List.countP_append]
          omega
      | gap lo =>
          obtain ⟨u, v, rfl, hall, hlo, -, hacc⟩ := h
          have hle := ih hacc
          have hu : u.countP Text.isSpace = u.length := List.countP_eq_length.2 hall
          rw [List.countP_append, hu]
          by_cases hone : lo = 1
          · subst hone
            rw [List.count_cons_self]
            omega
          · rw [List.count_cons_of_ne (by simpa using hone)]
            omega

/-! ### The ends of a match -/

/-- A match begins with the first letter of its way. -/
theorem begins_with {c : Char} {rest : List MarkerPart} (hopen : way = .edge :: .letter c :: rest)
    (h : Pattern.Accepts py.isWord (partsOf sameCase way) prev w next) : ∃ d w', w = d :: w' ∧ sameCase c d = true := by
  subst hopen
  obtain ⟨-, u, v, rfl, hall, hlo, -, -⟩ := h
  cases u with
  | nil =>
      simp at hlo
  | cons d u =>
      exact ⟨d, u ++ v, rfl, hall d List.mem_cons_self⟩

/-- A match ends with the last letter of its way. -/
theorem ends_with {c : Char} {front : List MarkerPart} (hclose : way = front ++ [.letter c])
    (h : Pattern.Accepts py.isWord (partsOf sameCase way) prev w next) : ∃ u d, w = u ++ [d] ∧ sameCase c d = true := by
  subst hclose
  rw [partsOf, List.map_append] at h
  obtain ⟨u, v, rfl, -, hall, hlo⟩ := accepts_append_run h
  obtain rfl | ⟨v, d, rfl⟩ := v.eq_nil_or_concat
  · simp at hlo
  · exact ⟨u ++ v, d, by simp, hall d (by simp)⟩

theorem opens_eq (h : opens way = true) : ∃ c rest, way = .edge :: .letter c :: rest := by
  unfold opens at h
  split at h
  · exact ⟨_, _, rfl⟩
  · cases h

theorem closes_eq (h : closes way.reverse = true) : ∃ front c, way = front ++ [.letter c] ∨
    way = front ++ [.letter c, .edge] ∨ way = front ++ [.letter c, .gap 0] := by
  unfold closes at h
  split at h
  · rename_i c front heq
    exact ⟨front.reverse, c, .inr (.inl (by rw [← List.reverse_reverse way, heq]; simp))⟩
  · rename_i c front heq
    exact ⟨front.reverse, c, .inl (by rw [← List.reverse_reverse way, heq]; simp)⟩
  · rename_i c front heq
    exact ⟨front.reverse, c, .inr (.inr (by rw [← List.reverse_reverse way, heq]; simp))⟩
  · cases h

/-- A match over white space ends with its last word. -/
theorem spaced_eq (h : spaced way = true) : .letter ':' ∈ way ∨ .gap 1 ∈ way ∧ ∃ front c, way = front ++ [.letter c, .edge] := by
  unfold spaced at h
  rw [Bool.or_eq_true, Bool.and_eq_true, List.contains_eq_mem, List.contains_eq_mem, decide_eq_true_eq,
    decide_eq_true_eq] at h
  obtain h | ⟨hgap, hlast⟩ := h
  · exact .inl h
  · refine .inr ⟨hgap, ?_⟩
    split at hlast
    · rename_i c front heq
      exact ⟨front.reverse, c, by rw [← List.reverse_reverse way, heq]; simp⟩
    · cases hlast

/-! ### The frame's symbols -/

/-- The symbols of a frame at which a scan can be cut. -/
def frameSymbols : List Char :=
  ['=', '[', ']', '(']

variable (hpy : ReadsMarkers py sameCase)

include hpy

/-- At a symbol of the frame the scan of a text can be cut. -/
theorem scan_separator {s : Char} (hs : s ∈ frameSymbols) (a b : List Char) :
    scanForInjectionMarkers py sameCase (a ++ s :: b) =
      (scanForInjectionMarkers py sameCase a || scanForInjectionMarkers py sameCase b) := by
  have hplain : ∀ s ∈ frameSymbols, s.toNat < 128 ∧ isAscii s = false ∧ s ≠ '_' ∧ s.toLower = s ∧
      Text.isSpace s = false ∧ s ∈ ['=', '[', ']', '(', '\n', ' '] := by
    decide
  obtain ⟨hascii, hletter, hline, hlower, hspace, hmem⟩ := hplain s hs
  have havoids : ∀ way ∈ markerWays, ∀ part ∈ partsOf sameCase way, part.avoids s = true := by
    intro way hway part hpart
    obtain ⟨p, hp, rfl⟩ := List.mem_map.1 hpart
    cases p with
    | edge =>
        rfl
    | gap lo =>
        simp [MarkerPart.part, atLeast, Part.avoids, hspace]
    | letter c =>
        change (!sameCase c s) = true
        rw [Bool.not_eq_true', ← Bool.not_eq_true]
        intro hsame
        have hc := hpy.case way hway c hp s (.inl hascii) hsame
        rw [hlower] at hc
        subst hc
        exact (markerWays_shape way hway).2.2.2.2 c hmem hp
  have hfound : ∀ way ∈ markerWays, Pattern.Found py.isWord (partsOf sameCase way) none (a ++ s :: b) ↔ _ := fun way hway =>
    found_separator (havoids way hway) (hpy.symbols s hascii hletter hline)
  rw [Bool.eq_iff_iff, Bool.or_eq_true, scan_iff, scan_iff, scan_iff]
  constructor
  · rintro ⟨way, hway, hmatch⟩
    obtain ha | hb := (hfound way hway).1 hmatch
    · exact .inl ⟨way, hway, ha⟩
    · exact .inr ⟨way, hway, hb⟩
  · rintro (⟨way, hway, ha⟩ | ⟨way, hway, hb⟩)
    · exact ⟨way, hway, (hfound way hway).2 (.inl ha)⟩
    · exact ⟨way, hway, (hfound way hway).2 (.inr hb)⟩

/-- In a fixed text there is no marker where every way has a letter that the text lacks. -/
theorem scan_lacks (hfixed : ∀ d ∈ text, d.toNat < 128 ∨ d ∈ quarantinePlaceholder)
    (hlacks : ∀ way ∈ markerWays, lacks text way = true) : scanForInjectionMarkers py sameCase text = false := by
  rw [scan_eq_false_iff]
  rintro way hway ⟨pre, w, post, rfl, hacc⟩
  obtain ⟨p, hp, hlack⟩ := List.any_eq_true.1 (hlacks way hway)
  cases p with
  | edge =>
      cases hlack
  | gap lo =>
      cases hlack
  | letter c =>
      obtain ⟨d, hd, hsame⟩ := exists_letter hp hacc
      have hmem : d ∈ pre ++ w ++ post := by simp [hd]
      have hc := hpy.case way hway c hp d (hfixed d hmem) hsame
      have hlower : c ∈ (pre ++ w ++ post).map Char.toLower := hc ▸ List.mem_map_of_mem hmem
      simp only [Bool.not_eq_true', List.contains_eq_mem, decide_eq_false_iff_not] at hlack
      exact hlack hlower

/-- No letter of a marker is a line feed or a blank. -/
theorem letter_of_line {c : Char} (hway : way ∈ markerWays) (hc : .letter c ∈ way) {d : Char} (hd : d ∈ ['\n', ' ']) :
    sameCase c d = false := by
  rw [← Bool.not_eq_true]
  intro hsame
  have hplain : ∀ d ∈ ['\n', ' '], d.toNat < 128 ∧ d.toLower = d ∧ d ∈ ['=', '[', ']', '(', '\n', ' '] := by
    decide
  obtain ⟨hascii, hlower, hmem⟩ := hplain d hd
  obtain rfl : c = d := (hpy.case way hway c hc d (.inl hascii) hsame).trans hlower
  exact (markerWays_shape way hway).2.2.2.2 c hmem hc

theorem not_word_of_line {d : Char} (hd : d ∈ ['\n', ' ', '=']) :
    (some d).any py.isWord = (none : Option Char).any py.isWord := by
  have hplain : ∀ d ∈ ['\n', ' ', '='], d.toNat < 128 ∧ isAscii d = false ∧ d ≠ '_' := by
    decide
  obtain ⟨hascii, hletter, hline⟩ := hplain d hd
  simpa using hpy.symbols d hascii hletter hline

/-- A match that begins and ends with a letter is not at the line feeds around a text. -/
theorem found_unwrap {rest : List MarkerPart} {c d : Char} (hopen : way = .edge :: .letter c :: rest)
    (hclose : ∀ prev w next, Pattern.Accepts py.isWord (partsOf sameCase way) prev w next → ∃ u e, w = u ++ [e] ∧ sameCase d e = true)
    (hc : sameCase c '\n' = false) (hd : sameCase d '\n' = false)
    (h : Pattern.Found py.isWord (partsOf sameCase way) none ('\n' :: text ++ ['\n'])) :
    Pattern.Found py.isWord (partsOf sameCase way) none text := by
  obtain ⟨pre, w, post, htext, hacc⟩ := h
  have hfeed := not_word_of_line hpy (d := '\n') (by simp)
  cases pre with
  | nil =>
      obtain ⟨e, w', rfl, hsame⟩ := begins_with hopen hacc
      obtain rfl : '\n' = e := (List.cons.inj htext).1
      rw [hc] at hsame
      cases hsame
  | cons e pre =>
      obtain ⟨rfl, -⟩ := List.cons.inj htext
      have htext : text ++ ['\n'] = pre ++ w ++ post := (List.cons.inj htext).2
      obtain rfl | ⟨post, e, rfl⟩ := post.eq_nil_or_concat
      · obtain ⟨u, e, rfl, hsame⟩ := hclose _ _ _ hacc
        rw [List.append_nil, ← List.append_assoc] at htext
        obtain rfl : '\n' = e := by simpa using (List.append_inj' htext rfl).2
        rw [hd] at hsame
        cases hsame
      · rw [List.concat_eq_append, ← List.append_assoc] at htext
        obtain ⟨rfl, he⟩ := List.append_inj' htext rfl
        obtain rfl : '\n' = e := by simpa using he
        refine ⟨pre, w, post, rfl, accepts_congr ?_ ?_ hacc⟩
        · rw [List.getLast?_cons]
          cases pre.getLast? with
          | none =>
              exact hfeed
          | some e =>
              rfl
        · cases post with
          | nil =>
              exact hfeed
          | cons e post =>
              rfl

theorem found_wrap (h : Pattern.Found py.isWord (partsOf sameCase way) none text) :
    Pattern.Found py.isWord (partsOf sameCase way) none ('\n' :: text ++ ['\n']) := by
  obtain ⟨pre, w, post, rfl, hacc⟩ := h
  have hfeed := not_word_of_line hpy (d := '\n') (by simp)
  refine ⟨'\n' :: pre, w, post ++ ['\n'], by simp, accepts_congr ?_ ?_ hacc⟩
  · rw [List.getLast?_cons]
    cases pre.getLast? with
    | none =>
        exact hfeed.symm
    | some e =>
        rfl
  · cases post with
    | nil =>
        exact hfeed.symm
    | cons e post =>
        rfl

/-- The line feeds around a text do not matter. -/
theorem scan_wrapped (text : List Char) : scanForInjectionMarkers py sameCase ('\n' :: text ++ ['\n']) =
    scanForInjectionMarkers py sameCase text := by
  rw [Bool.eq_iff_iff, scan_iff, scan_iff]
  refine exists_congr fun way => and_congr_right fun hway => ⟨fun h => ?_, found_wrap hpy⟩
  obtain ⟨hopens, hcloses, -⟩ := markerWays_shape way hway
  obtain ⟨c, rest, hopen⟩ := opens_eq hopens
  obtain ⟨front, d, hclose⟩ := closes_eq hcloses
  have hc : sameCase c '\n' = false := letter_of_line hpy hway (by simp [hopen]) (by simp)
  have hd : sameCase d '\n' = false := letter_of_line hpy hway (by obtain h | h | h := hclose <;> simp [h]) (by simp)
  obtain hletter | hedge | hgap := hclose
  · exact found_unwrap hpy hopen (fun _ _ _ => ends_with hletter) hc hd h
  · refine found_unwrap hpy hopen (fun prev w next hacc => ?_) hc hd h
    have hsplit : partsOf sameCase way = partsOf sameCase (front ++ [.letter d]) ++ [.boundary] := by
      rw [hedge, partsOf, partsOf, List.map_append, List.map_append, List.append_assoc]
      rfl
    rw [hsplit, accepts_append_boundary] at hacc
    exact ends_with rfl hacc.1
  · have hsplit : partsOf sameCase way = partsOf sameCase (front ++ [.letter d]) ++ [.run Text.isSpace 0 none] := by
      rw [hgap, partsOf, partsOf, List.map_append, List.map_append, List.append_assoc]
      rfl
    rw [hsplit, found_append_optional] at h ⊢
    -- the way without its white space begins with the same letter
    have hopen' : ∃ rest, front ++ [.letter d] = .edge :: .letter c :: rest := by
      rw [hgap] at hopen
      cases front with
      | nil =>
          simp at hopen
      | cons p front =>
          cases front with
          | nil =>
              obtain ⟨rfl, hrest⟩ := List.cons.inj hopen
              obtain ⟨hletter, -⟩ := List.cons.inj hrest
              exact ⟨[], by rw [hletter]; rfl⟩
          | cons q front =>
              obtain ⟨rfl, hrest⟩ := List.cons.inj hopen
              obtain ⟨rfl, -⟩ := List.cons.inj hrest
              exact ⟨front ++ [.letter d], rfl⟩
    obtain ⟨rest', hopen'⟩ := hopen'
    exact found_unwrap hpy hopen' (fun _ _ _ => ends_with rfl) hc hd h

/-- A marker with a colon matches no text without one. -/
theorem not_colon (hway : way ∈ markerWays) (hcolon : .letter ':' ∈ way) (hw : ∀ d ∈ w, d.toNat < 128 ∧ d ≠ ':') :
    ¬ Pattern.Accepts py.isWord (partsOf sameCase way) prev w next := by
  intro hacc
  obtain ⟨d, hd, hsame⟩ := exists_letter hcolon hacc
  obtain ⟨hascii, hne⟩ := hw d hd
  have hlower : ':' = d.toLower := hpy.case way hway ':' hcolon d (.inl hascii) hsame
  have hback : ∀ d : Char, d.toNat < 128 → d.toLower = ':' → d = ':' := fun d hd =>
    Text.ascii_induction (p := fun d => d.toLower = ':' → d = ':') (by decide) d hd
  exact hne (hback d hascii hlower.symm)

/-- Without white space and colons there is no marker. -/
theorem scan_dense (htext : ∀ d ∈ text, d.toNat < 128 ∧ Text.isSpace d = false ∧ d ≠ ':') :
    scanForInjectionMarkers py sameCase text = false := by
  rw [scan_eq_false_iff]
  rintro way hway ⟨pre, w, post, rfl, hacc⟩
  have hw : ∀ d ∈ w, d.toNat < 128 ∧ Text.isSpace d = false ∧ d ≠ ':' := fun d hd => htext d (by simp [hd])
  obtain hcolon | ⟨hgap, -⟩ := spaced_eq (markerWays_shape way hway).2.2.1
  · exact not_colon hpy hway hcolon (fun d hd => ⟨(hw d hd).1, (hw d hd).2.2⟩) hacc
  · obtain ⟨d, hd, hspace⟩ := exists_space hgap hacc
    rw [(hw d hd).2.1] at hspace
    cases hspace

/-- What stands behind a host name in the tag is no part of a marker: a match would have to end with `rank`, and the
only markers with that last letter have more white space in them. -/
theorem scan_host {host : List Char} (hhost : ∀ d ∈ host, d.toNat < 128 ∧ Text.isSpace d = false ∧ d ≠ ':') :
    scanForInjectionMarkers py sameCase (host ++ " rank".toList) = false := by
  rw [scan_eq_false_iff]
  rintro way hway ⟨pre, w, post, htext, hacc⟩
  have hrank : " rank".toList = ' ' :: "rank".toList := by decide
  have hletters : ∀ d ∈ "rank".toList, d.toNat < 128 ∧ isAscii d = true ∧ Text.isSpace d = false ∧ d ≠ ':' := by
    decide
  rw [hrank] at htext
  have hmem : ∀ d ∈ w, d ∈ host ∨ d = ' ' ∨ d ∈ "rank".toList := by
    intro d hd
    have hin : d ∈ host ++ ' ' :: "rank".toList := by
      rw [htext]
      simp [hd]
    simpa using hin
  obtain ⟨-, -, hspaced, htask, -⟩ := markerWays_shape way hway
  obtain hcolon | ⟨hgap, front, c, hfront⟩ := spaced_eq hspaced
  · refine not_colon hpy hway hcolon (fun d hd => ?_) hacc
    obtain h | rfl | h := hmem d hd
    · exact ⟨(hhost d h).1, (hhost d h).2.2⟩
    · decide
    · exact ⟨(hletters d h).1, (hletters d h).2.2.2⟩
  · -- the only white space of the match is the one behind the host name
    obtain ⟨d, hd, hspace⟩ := exists_space hgap hacc
    obtain rfl : d = ' ' := by
      obtain h | rfl | h := hmem d hd
      · rw [(hhost d h).2.1] at hspace
        cases hspace
      · rfl
      · rw [(hletters d h).2.2.1] at hspace
        cases hspace
    obtain ⟨w₁, w₂, rfl⟩ := List.append_of_mem hd
    have hnothost : ' ' ∉ host := fun h => by
      have hblank := (hhost ' ' h).2.1
      revert hblank
      decide
    have hcut : host ++ ' ' :: "rank".toList = (pre ++ w₁) ++ ' ' :: (w₂ ++ post) := by
      rw [htext]
      simp
    obtain ⟨rfl, hrest⟩ := Separators.cut_only hnothost (by decide) hcut
    have hsplit : partsOf sameCase way = partsOf sameCase (front ++ [.letter c]) ++ [.boundary] := by
      rw [hfront, partsOf, partsOf, List.map_append, List.map_append, List.append_assoc]
      rfl
    have hboth := hacc
    rw [hsplit, accepts_append_boundary] at hboth
    obtain ⟨hword, hbound⟩ := hboth
    obtain ⟨u, e, hlast, hsame⟩ := ends_with rfl hword
    -- it ends with a letter of `rank`, and not before the last one
    obtain rfl | ⟨w₂, e', rfl⟩ := w₂.eq_nil_or_concat
    · obtain rfl : ' ' = e := by simpa using (List.append_inj' hlast rfl).2
      rw [letter_of_line hpy hway (by simp [hfront]) (by simp)] at hsame
      cases hsame
    · have he : py.isWord e' = true := hpy.letters e' (hletters e' (by rw [hrest]; simp)).2.1
      cases post with
      | cons f post =>
          have hf : py.isWord f = true := hpy.letters f (hletters f (by rw [hrest]; simp)).2.1
          simp [atBoundary, he, hf, List.getLast?_append, List.getLast?_cons] at hbound
      | nil =>
          rw [List.append_nil] at hrest
          rw [← hrest] at hacc
          by_cases hk : .letter 'k' ∈ way
          · have hle := (htask hk).trans (gaps_le_spaces hacc)
            have hzero : w₁.countP Text.isSpace = 0 := by
              rw [List.countP_eq_zero]
              intro d hd
              simp [(hhost d (List.mem_append_right pre hd)).2.1]
            have hone : (' ' :: "rank".toList).countP Text.isSpace = 1 := by decide
            rw [List.countP_append] at hle
            omega
          · have hwithin : ∀ part ∈ partsOf sameCase way, part.Within (· ≠ 'k') := by
              intro part hpart
              obtain ⟨p, hp, rfl⟩ := List.mem_map.1 hpart
              cases p with
              | edge =>
                  trivial
              | gap lo =>
                  rintro d hd rfl
                  revert hd
                  decide
              | letter c =>
                  rintro d hd rfl
                  have hc : c = 'k' := hpy.case way hway c hp 'k' (.inl (by decide)) hd
                  exact hk (hc ▸ hp)
            exact forall_of_accepts hwithin hacc 'k' (by simp) rfl

end

end ProjectManager
