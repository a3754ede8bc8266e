import ProjectManager.Runtime.RegistryText

/-!
# What the patterns find in block style

On a line that `scanLine` reads, each pattern of the edits says what the line is: `isAtMargin_eq`, `isIdItem_eq`,
`isItemOf_eq` and `enabledIndent_eq`.
-/

namespace ProjectManager

open Lines Text

/-! ### Shapes -/

section Shapes

variable {l rest : List Char} {c : Char} {n : ℕ}

theorem blanks_unindent (l : List Char) : List.replicate (blanks l) ' ' ++ unindent l = l := by
  have hblank : l.takeWhile (fun c => c == ' ') = List.replicate (blanks l) ' ' := by
    rw [List.eq_replicate_iff]
    exact ⟨rfl, fun c hc => by simpa using List.mem_takeWhile_imp hc⟩
  rw [← hblank]
  exact List.takeWhile_append_dropWhile

theorem unindent_head {l : List Char} : ∀ c ∈ (unindent l).head?, c ≠ ' ' := by
  intro c hc
  have := Text.head_dropWhile (p := fun c => c == ' ') l c hc
  simpa using this

/-- A line is its body, perhaps with a line feed. -/
theorem body_append (l : List Char) : ∃ feed, l = lineBody l ++ feed ∧ (feed = [] ∨ feed = ['\n']) := by
  unfold lineBody
  split
  case isTrue h =>
    exact ⟨['\n'], (List.dropLast_append_getLast? _ h).symm, .inr rfl⟩
  case isFalse =>
    exact ⟨[], (List.append_nil l).symm, .inl rfl⟩

theorem isSpace_blank : isSpace ' ' = true := by
  decide

theorem dropWhile_replicate (hc : isSpace c = false) :
    (List.replicate n ' ' ++ c :: rest).dropWhile isSpace = c :: rest := by
  induction n with
  | zero => simp [hc]
  | succ n ih =>
      rw [List.replicate_succ, List.cons_append, List.dropWhile_cons_of_pos isSpace_blank]
      exact ih

theorem takeWhile_replicate (hc : isSpace c = false) :
    (List.replicate n ' ' ++ c :: rest).takeWhile isSpace = List.replicate n ' ' := by
  induction n with
  | zero => simp [hc]
  | succ n ih =>
      rw [List.replicate_succ, List.cons_append, List.takeWhile_cons_of_pos isSpace_blank, ih]

/-- The key with its colon. -/
def EntryKey.colon : EntryKey → List Char
  | id => ['i', 'd', ':']
  | enabled => ['e', 'n', 'a', 'b', 'l', 'e', 'd', ':']

theorem id_toList : "id:".toList = EntryKey.colon .id :=
  rfl

theorem enabled_toList : "enabled:".toList = EntryKey.colon .enabled :=
  rfl

theorem readKey_some {k : EntryKey} (h : readKey l = some (k, rest)) : l = k.colon ++ rest := by
  unfold readKey at h
  rw [id_toList, enabled_toList] at h
  split at h
  case isTrue hid =>
    obtain ⟨t, rfl⟩ := List.isPrefixOf_iff_prefix.1 hid
    cases h
    rfl
  case isFalse =>
    split at h
    case isTrue henabled =>
      obtain ⟨t, rfl⟩ := List.isPrefixOf_iff_prefix.1 henabled
      cases h
      rfl
    case isFalse =>
      cases h

/-- A plain word at the beginning of a text. -/
structure PlainWord (s w rest : List Char) : Prop where
  text : s = w ++ rest
  start : ∃ c w', w = c :: w' ∧ c.isAlphanum = true
  word : ∀ c ∈ w, isWordChar c = true
  stops : ∀ c ∈ rest.head?, isWordChar c = false

/-- A value begins with a plain word or with a quotation mark. -/
theorem readScalar_some {s : List Char} {v : Scalar} (h : readScalar s = some (v, rest)) :
    (∃ w, v = .plain w ∧ PlainWord s w rest) ∨ (∃ t, v = .quoted t) ∧ ∃ c s', s = c :: s' ∧ isQuote c = true := by
  cases s with
  | nil => cases h
  | cons c s =>
      rw [readScalar] at h
      split at h
      case isTrue hc =>
        have hword : isWordChar c = true := by simp [isWordChar, hc]
        obtain ⟨rfl, rfl⟩ := Prod.mk.inj (Option.some.inj h)
        refine .inl ⟨_, rfl, ?_⟩
        constructor
        · exact List.takeWhile_append_dropWhile.symm
        · exact ⟨c, s.takeWhile isWordChar, List.takeWhile_cons_of_pos hword, hc⟩
        · exact fun d hd => List.mem_takeWhile_imp hd
        · exact Text.head_dropWhile _
      case isFalse =>
        split at h
        case isTrue hquote =>
          dsimp only at h
          split at h
          · split at h
            · obtain ⟨rfl, rfl⟩ := Prod.mk.inj (Option.some.inj h)
              exact .inr ⟨⟨_, rfl⟩, c, s, rfl, hquote⟩
            · cases h
          · cases h
        case isFalse =>
          cases h

theorem readScalar_suffix {s : List Char} {v : Scalar} (h : readScalar s = some (v, rest)) : rest <:+ s := by
  cases s with
  | nil => cases h
  | cons c s =>
      rw [readScalar] at h
      split at h
      · obtain ⟨-, rfl⟩ := Prod.mk.inj (Option.some.inj h)
        exact List.dropWhile_suffix _
      · split at h
        · dsimp only at h
          split at h
          · rename_i d rest' hdrop
            split at h
            · obtain ⟨-, rfl⟩ := Prod.mk.inj (Option.some.inj h)
              have hsuffix : d :: rest' <:+ s := hdrop ▸ List.dropWhile_suffix _
              exact (List.suffix_cons d rest').trans (hsuffix.trans (List.suffix_cons c s))
            · cases h
          · cases h
        · cases h

/-- A field at the beginning of a text. -/
theorem readField_some {f : Field} (h : readField l = some (f, rest)) :
    ∃ j s, l = f.key.colon ++ (List.replicate (j + 1) ' ' ++ s) ∧ readScalar s = some (f.value, rest) := by
  unfold readField at h
  split at h
  case h_1 key rest' hkey =>
    split at h
    case isTrue => cases h
    case isFalse hblank =>
      obtain ⟨x, hx, hf⟩ := Option.map_eq_some_iff.1 h
      obtain ⟨rfl, rfl⟩ := Prod.mk.inj hf
      refine ⟨blanks rest' - 1, unindent rest', ?_, hx⟩
      have hpos : blanks rest' - 1 + 1 = blanks rest' := by omega
      rw [hpos, blanks_unindent]
      exact readKey_some hkey
  case h_2 => cases h

theorem readField_suffix {f : Field} (h : readField l = some (f, rest)) : rest <:+ l := by
  obtain ⟨j, s, rfl, hscalar⟩ := readField_some h
  exact (readScalar_suffix hscalar).trans ((List.suffix_append _ _).trans (List.suffix_append _ _))

/-- A line that ends with a field, or with two. -/
theorem fieldLine_some {build : Field → Line} {L : Line} (h : fieldLine build l = some L) :
    L = .crowded ∨ ∃ f rest, L = build f ∧ readField l = some (f, rest) ∧ isTrail rest = true := by
  unfold fieldLine at h
  split at h
  case h_1 f rest hfield =>
    split at h
    case isTrue htrail =>
      exact .inr ⟨f, rest, (Option.some.inj h).symm, hfield, htrail⟩
    case isFalse =>
      split at h
      · exact .inl (Option.some.inj h).symm
      · cases h
  case h_2 => cases h

/-- The shapes of a line, `L` being what stands on it; the text is the body of the line. -/
inductive Shape : List Char → Line → Prop
  | blank (n : ℕ) : Shape (List.replicate n ' ') (.filler false)
  | comment (n : ℕ) (rest : List Char) : Shape (List.replicate n ' ' ++ '#' :: rest) (.filler (decide (n = 0)))
  | agents (rest : List Char) : Shape ('a' :: rest) .agents
  | bare (n : ℕ) (rest : List Char) (htrail : isTrail rest = true) :
      Shape (List.replicate n ' ' ++ '-' :: rest) (.dash n none)
  | dash (n k : ℕ) (f : Field) (r rest : List Char) (hfield : readField r = some (f, rest))
      (htrail : isTrail rest = true) :
      Shape (List.replicate n ' ' ++ '-' :: (List.replicate (k + 1) ' ' ++ r)) (.dash n (some (k + 1, f)))
  | field (n : ℕ) (f : Field) (r rest : List Char) (hfield : readField r = some (f, rest)) (htrail : isTrail rest = true) :
      Shape (List.replicate (n + 1) ' ' ++ r) (.field (n + 1) f)

/-- A line that is not crowded has one of the shapes. -/
theorem shape_of_scan {L : Line} (h : scanLine l = some L) (hcrowded : L ≠ .crowded) :
    Shape (lineBody l) L ∧ ∀ c ∈ lineBody l, isPrintable c = true := by
  unfold scanLine at h
  split at h
  case isFalse => cases h
  case isTrue hclean =>
    refine ⟨?_, List.all_eq_true.1 hclean⟩
    generalize lineBody l = body at h
    have hbody := blanks_unindent body
    generalize blanks body = n at h hbody
    generalize unindent body = r at h hbody
    subst hbody
    unfold scanBody at h
    split at h
    · obtain rfl := Option.some.inj h
      rw [List.append_nil]
      exact .blank n
    · obtain rfl := Option.some.inj h
      exact .comment n _
    · rename_i rest
      split at h
      case isTrue htrail =>
        obtain rfl := Option.some.inj h
        exact .bare n rest htrail
      case isFalse =>
        split at h
        case isTrue => cases h
        case isFalse hblank =>
          obtain rfl | ⟨f, rest', rfl, hfield, htrail⟩ := fieldLine_some h
          · exact absurd rfl hcrowded
          · obtain ⟨k, hk⟩ : ∃ k, blanks rest = k + 1 := ⟨blanks rest - 1, by omega⟩
            have hrest := blanks_unindent rest
            rw [hk] at hrest ⊢
            rw [← hrest]
            exact .dash n k f (unindent rest) rest' hfield htrail
    · rename_i c rest _ _
      split at h
      case isTrue hn =>
        split at h
        case isTrue hagents =>
          obtain rfl := Option.some.inj h
          rw [Bool.and_eq_true, List.isPrefixOf_iff_prefix] at hagents
          obtain ⟨t, ht⟩ := hagents.1
          subst hn
          have hc : c = 'a' := by
            have := congrArg List.head? ht
            exact (Option.some.inj this).symm
          subst hc
          exact .agents rest
        case isFalse => cases h
      case isFalse hn =>
        obtain rfl | ⟨f, rest', rfl, hfield, htrail⟩ := fieldLine_some h
        · exact absurd rfl hcrowded
        · obtain ⟨m, rfl⟩ : ∃ m, n = m + 1 := ⟨n - 1, by omega⟩
          exact .field m f _ rest' hfield htrail

end Shapes

/-! ### Characters -/

section Chars

variable {c : Char}

theorem alphanum_range (h : c.isAlphanum = true) :
    ((65 ≤ c.toNat ∧ c.toNat ≤ 90) ∨ (97 ≤ c.toNat ∧ c.toNat ≤ 122)) ∨ (48 ≤ c.toNat ∧ c.toNat ≤ 57) := by
  simp only [Char.isAlphanum, Char.isAlpha, Char.isUpper, Char.isLower, Char.isDigit, Bool.or_eq_true, Bool.and_eq_true,
    decide_eq_true_eq, UInt32.le_iff_toNat_le] at h
  exact h

theorem not_isSpace_of_alphanum (h : c.isAlphanum = true) : isSpace c = false := by
  have hrange := alphanum_range h
  simp only [isSpace, Bool.or_eq_false_iff, Bool.and_eq_false_iff, decide_eq_false_iff_not, beq_eq_false_iff_ne]
  omega

theorem not_quote_of_alphanum (h : c.isAlphanum = true) : isQuote c = false := by
  have hrange := alphanum_range h
  simp only [isQuote, Bool.or_eq_false_iff, beq_eq_false_iff_ne]
  omega

theorem not_isSpace_of_quote (h : isQuote c = true) : isSpace c = false := by
  simp only [isQuote, Bool.or_eq_true, beq_iff_eq] at h
  simp only [isSpace, Bool.or_eq_false_iff, Bool.and_eq_false_iff, decide_eq_false_iff_not, beq_eq_false_iff_ne]
  omega

theorem alphanum_of_idStart (h : isIdStart c = true) : c.isAlphanum = true := by
  simp only [isIdStart, Bool.or_eq_true] at h
  simp only [Char.isAlphanum, Char.isAlpha, Bool.or_eq_true]
  tauto

theorem wordChar_of_idRest (h : isIdRest c = true) : isWordChar c = true := by
  simp only [isIdRest, Bool.or_eq_true] at h
  simp only [isWordChar, Bool.or_eq_true]
  obtain (h | h) | h := h
  · exact .inl (.inl (.inl (alphanum_of_idStart h)))
  · exact .inl (.inl (.inr h))
  · exact .inl (.inr h)

/-- What is in a word is neither white space nor the sign of a comment. -/
theorem wordChar_not (h : isWordChar c = true) : isSpace c = false ∧ c ≠ '#' := by
  simp only [isWordChar, Bool.or_eq_true, beq_iff_eq] at h
  obtain ((h | rfl) | rfl) | rfl := h
  · refine ⟨not_isSpace_of_alphanum h, ?_⟩
    rintro rfl
    exact absurd h (by decide)
  all_goals decide

theorem printable_ne_feed (h : isPrintable c = true) : c ≠ '\n' := by
  rintro rfl
  exact absurd h (by decide)

theorem AgentId.start (a : AgentId) : ∃ c cs, a.chars = c :: cs ∧ c.isAlphanum = true := by
  obtain ⟨chars, hvalid⟩ := a
  cases chars with
  | nil => cases hvalid
  | cons c cs =>
      rw [isAgentId, Bool.and_eq_true] at hvalid
      exact ⟨c, cs, rfl, alphanum_of_idStart hvalid.1⟩

theorem AgentId.word (a : AgentId) : ∀ c ∈ a.chars, isWordChar c = true := by
  obtain ⟨chars, hvalid⟩ := a
  cases chars with
  | nil => cases hvalid
  | cons c cs =>
      rw [isAgentId, Bool.and_eq_true, List.all_eq_true] at hvalid
      refine List.forall_mem_cons.2 ⟨?_, fun d hd => wordChar_of_idRest (hvalid.2 d hd)⟩
      exact wordChar_of_idRest (by simp [isIdRest, hvalid.1])

end Chars

/-! ### Behind a field -/

section Trail

variable {rest feed : List Char}

theorem trail_cases (h : isTrail rest = true) :
    (∃ n, rest = List.replicate n ' ') ∨ ∃ n c, rest = List.replicate (n + 1) ' ' ++ '#' :: c := by
  have hrest := blanks_unindent rest
  unfold isTrail at h
  split at h
  · rename_i hnil
    rw [hnil, List.append_nil] at hrest
    exact .inl ⟨_, hrest.symm⟩
  · rename_i c hc
    rw [hc] at hrest
    obtain ⟨n, hn⟩ : ∃ n, blanks rest = n + 1 := ⟨blanks rest - 1, by have := of_decide_eq_true h; omega⟩
    rw [hn] at hrest
    exact .inr ⟨n, c, hrest.symm⟩
  · cases h

theorem dropWhile_blank_feed (n : ℕ) (hfeed : feed = [] ∨ feed = ['\n']) :
    (List.replicate n ' ' ++ feed).dropWhile isSpace = [] := by
  rw [List.dropWhile_eq_nil_iff]
  intro c hc
  obtain hc | hc := List.mem_append.1 hc
  · rw [(List.mem_replicate.1 hc).2]
    exact isSpace_blank
  · obtain rfl | rfl := hfeed
    · cases hc
    · rw [List.mem_singleton.1 hc]
      decide

/-- Behind the trail of a line there is nothing, or a comment. -/
theorem dropWhile_trail (h : isTrail rest = true) (hfeed : feed = [] ∨ feed = ['\n']) :
    (rest ++ feed).dropWhile isSpace = [] ∨
      ∃ c, (rest ++ feed).dropWhile isSpace = '#' :: (c ++ feed) ∧ ∀ d ∈ c, d ∈ rest := by
  obtain ⟨n, rfl⟩ | ⟨n, c, rfl⟩ := trail_cases h
  · exact .inl (dropWhile_blank_feed n hfeed)
  · refine .inr ⟨c, ?_, fun d hd => List.mem_append_right _ (List.mem_cons_of_mem _ hd)⟩
    rw [List.append_assoc]
    exact dropWhile_replicate (by decide)

/-- The trail of a line ends it. -/
theorem isLineEnd_trail (h : isTrail rest = true) (hclean : ∀ c ∈ rest, isPrintable c = true)
    (hfeed : feed = [] ∨ feed = ['\n']) : isLineEnd (rest ++ feed) = true := by
  unfold isLineEnd
  obtain hnil | ⟨c, hc, hmem⟩ := dropWhile_trail h hfeed
  · rw [hnil]
  · rw [hc]
    change (!(c ++ feed).dropLast.contains '\n') = true
    rw [Bool.not_eq_true', List.contains_eq_mem, decide_eq_false_iff_not]
    have hno : '\n' ∉ c := fun hin => printable_ne_feed (hclean _ (hmem _ hin)) rfl
    obtain rfl | rfl := hfeed
    · rw [List.append_nil]
      exact fun hin => hno (List.mem_of_mem_dropLast hin)
    · rw [List.dropLast_concat]
      exact hno

/-- Behind a plain word there is no character of a word. -/
theorem isLineEnd_word {c : Char} {w : List Char} (hc : isWordChar c = true) : isLineEnd (c :: w) = false := by
  obtain ⟨hspace, hcomment⟩ := wordChar_not hc
  unfold isLineEnd
  rw [List.dropWhile_cons_of_neg (by simp [hspace])]
  split
  · rename_i heq
    cases heq
  · rename_i heq
    exact absurd (List.cons.inj heq).1 hcomment
  · rfl

end Trail

/-! ### The patterns -/

section Patterns

variable {l : List Char} {L : Line} {a : AgentId}

/-- The item is written with its id first. -/
def Line.startsWithId : Line → Bool
  | dash _ (some (_, f)) => decide (f.key = .id)
  | _ => false

/-- The line begins in the first column. -/
def Line.isAtMargin : Line → Bool
  | filler atMargin => atMargin
  | agents => true
  | dash indent _ => decide (indent = 0)
  | field _ _ => false
  | crowded => false

/-- The line is a dash with the id of the agent as a plain word. -/
def Line.isItemOf (a : AgentId) : Line → Bool
  | dash _ (some (_, f)) => decide (f = ⟨.id, .plain a.chars⟩)
  | _ => false

/-- The column of a line that sets the flag. -/
def Line.flagColumn : Line → Option ℕ
  | field column f => if f.key = .enabled then some column else none
  | _ => none

theorem colon_head (k : EntryKey) : ∃ c rest, k.colon = c :: rest ∧ isSpace c = false := by
  cases k with
  | id => exact ⟨'i', [_, _], rfl, by decide⟩
  | enabled => exact ⟨'e', [_, _, _, _, _, _, _], rfl, by decide⟩

/-- A field begins with no white space. -/
theorem field_head {f : Field} {r rest : List Char} (h : readField r = some (f, rest)) :
    ∃ c r', r = c :: r' ∧ isSpace c = false := by
  obtain ⟨j, s, rfl, -⟩ := readField_some h
  obtain ⟨c, rest', hc, hspace⟩ := colon_head f.key
  exact ⟨c, rest' ++ _, by rw [hc]; rfl, hspace⟩

theorem afterDash_dash (n k : ℕ) {c : Char} {r : List Char} (hc : isSpace c = false) :
    afterDash (List.replicate n ' ' ++ '-' :: (List.replicate (k + 1) ' ' ++ c :: r)) = some (c :: r) := by
  unfold afterDash
  rw [dropWhile_replicate (by decide)]
  have hrest : (List.replicate (k + 1) ' ' ++ c :: r).dropWhile isSpace = c :: r := dropWhile_replicate hc
  change (if ((List.replicate (k + 1) ' ' ++ c :: r).head?.any isSpace) = true then
    some ((List.replicate (k + 1) ' ' ++ c :: r).dropWhile isSpace) else none) = some (c :: r)
  rw [hrest, List.replicate_succ]
  rfl

theorem afterDash_none {l : List Char} (h : ∀ rest, l.dropWhile isSpace ≠ '-' :: rest) : afterDash l = none := by
  unfold afterDash
  split
  · rename_i rest heq
    exact absurd heq (h rest)
  · rfl

theorem isIdItem_none (h : afterDash l = none) : isIdItem l = false ∧ isItemOf a l = false := by
  simp [isIdItem, isItemOf, h]

theorem isIdItem_field {f : Field} {rest : List Char} (h : afterDash l = some (f.key.colon ++ rest)) :
    isIdItem l = decide (f.key = .id) := by
  rw [isIdItem, h, Option.any_some, id_toList]
  cases f.key with
  | id => exact List.isPrefixOf_iff_prefix.2 (List.prefix_append _ _)
  | enabled => rfl

/-- A value begins with no white space. -/
theorem scalar_head {s rest : List Char} {v : Scalar} (h : readScalar s = some (v, rest)) :
    ∃ c s', s = c :: s' ∧ isSpace c = false := by
  obtain ⟨w, -, hw⟩ | ⟨-, c, s', rfl, hc⟩ := readScalar_some h
  · obtain ⟨c, w', rfl, hc⟩ := hw.start
    exact ⟨c, w' ++ rest, hw.text, not_isSpace_of_alphanum hc⟩
  · exact ⟨c, s', rfl, not_isSpace_of_quote hc⟩

/-- The value of an item is the id of the agent exactly when it is the plain word. -/
theorem value_isItemOf {s rest feed : List Char} {v : Scalar} (h : readScalar s = some (v, rest))
    (htrail : isTrail rest = true) (hclean : ∀ c ∈ rest, isPrintable c = true) (hfeed : feed = [] ∨ feed = ['\n']) :
    (a.chars.isPrefixOf (s ++ feed) && isLineEnd ((s ++ feed).drop a.chars.length)) =
      decide (v = .plain a.chars) := by
  obtain ⟨c, cs, ha, hc⟩ := a.start
  obtain ⟨w, rfl, hw⟩ | ⟨⟨t, rfl⟩, d, s', rfl, hd⟩ := readScalar_some h
  · rw [hw.text, List.append_assoc]
    by_cases heq : w = a.chars
    · subst heq
      rw [List.drop_left, isLineEnd_trail htrail hclean hfeed, Bool.and_true, decide_eq_true rfl]
      exact List.isPrefixOf_iff_prefix.2 (List.prefix_append _ _)
    · have hne : Scalar.plain w ≠ .plain a.chars := fun h => heq (Scalar.plain.inj h)
      rw [decide_eq_false hne, Bool.and_eq_false_iff]
      by_cases hleads : a.chars <+: w ++ (rest ++ feed)
      · right
        obtain hlt | hge := Nat.lt_or_ge w.length a.chars.length
        · -- the id would go on behind the word
          exfalso
          obtain ⟨x, hx⟩ := List.prefix_of_prefix_length_le (List.prefix_append w (rest ++ feed)) hleads hlt.le
          rw [← hx, List.prefix_append_right_inj] at hleads
          cases x with
          | nil => rw [← hx, List.append_nil] at hlt; exact absurd hlt (Nat.lt_irrefl _)
          | cons d x =>
              have hd : isWordChar d = true := a.word d (hx ▸ by simp)
              have hhead : (rest ++ feed).head? = some d := by
                obtain ⟨t, ht⟩ := hleads
                rw [← ht]
                rfl
              cases rest with
              | nil =>
                  obtain rfl | rfl := hfeed
                  · cases hhead
                  · obtain rfl := Option.some.inj hhead
                    exact absurd hd (by decide)
              | cons e rest =>
                  obtain rfl := Option.some.inj hhead
                  have := hw.stops e rfl
                  rw [hd] at this
                  cases this
        · obtain ⟨x, rfl⟩ := List.prefix_of_prefix_length_le hleads (List.prefix_append w _) hge
          rw [List.append_assoc, List.drop_left]
          cases x with
          | nil => exact absurd (List.append_nil _) heq
          | cons d x => exact isLineEnd_word (hw.word d (by simp))
      · left
        rw [← Bool.not_eq_true, List.isPrefixOf_iff_prefix]
        exact hleads
  · rw [decide_eq_false (by simp), Bool.and_eq_false_iff]
    left
    rw [← Bool.not_eq_true, List.isPrefixOf_iff_prefix, ha]
    rintro ⟨x, hx⟩
    have heq : c = d := (List.cons.inj hx).1
    have := not_quote_of_alphanum hc
    rw [heq, hd] at this
    cases this

theorem isItemOf_field {f : Field} {r s rest feed : List Char} {j : ℕ} (h : afterDash l = some (r ++ feed))
    (hfield : r ++ feed = f.key.colon ++ (List.replicate (j + 1) ' ' ++ (s ++ feed)))
    (hscalar : readScalar s = some (f.value, rest)) (htrail : isTrail rest = true)
    (hclean : ∀ c ∈ rest, isPrintable c = true) (hfeed : feed = [] ∨ feed = ['\n']) :
    isItemOf a l = decide (f = ⟨.id, .plain a.chars⟩) := by
  have hitem : isItemOf a l = ("id:".toList.isPrefixOf (r ++ feed) &&
      a.chars.isPrefixOf (((r ++ feed).drop 3).dropWhile isSpace) &&
      isLineEnd ((((r ++ feed).drop 3).dropWhile isSpace).drop a.chars.length)) := by
    rw [isItemOf, h]
  obtain ⟨key, value⟩ := f
  rw [hitem, hfield, id_toList]
  cases key with
  | id =>
      obtain ⟨c, s', rfl, hc⟩ := scalar_head hscalar
      have hvalue : ((EntryKey.id.colon ++ (List.replicate (j + 1) ' ' ++ (c :: s' ++ feed))).drop 3).dropWhile isSpace =
          c :: s' ++ feed := dropWhile_replicate hc
      rw [hvalue, List.isPrefixOf_iff_prefix.2 (List.prefix_append _ _), Bool.true_and,
        value_isItemOf hscalar htrail hclean hfeed]
      simp
  | enabled =>
      rw [decide_eq_false (by simp)]
      rfl

theorem enabledIndent_none (h : ∀ c rest, l.dropWhile isSpace = c :: rest → c ≠ 'e') : enabledIndent l = none := by
  unfold enabledIndent
  rw [enabled_toList]
  cases hl : l.dropWhile isSpace with
  | nil => rfl
  | cons c rest =>
      apply if_neg
      rw [Bool.and_eq_true, List.isPrefixOf_iff_prefix]
      rintro ⟨⟨t, ht⟩, -⟩
      exact h c rest hl (List.cons.inj ht).1.symm

theorem enabledIndent_field {f : Field} {s rest feed : List Char} {n j : ℕ} (hscalar : readScalar s = some (f.value, rest)) :
    enabledIndent (List.replicate (n + 1) ' ' ++ (f.key.colon ++ (List.replicate (j + 1) ' ' ++ (s ++ feed)))) =
      (if f.key = .enabled then some (n + 1) else none).map fun column => List.replicate column ' ' := by
  obtain ⟨key, value⟩ := f
  cases key with
  | id =>
      apply enabledIndent_none
      intro c rest' h
      have hdrop := (dropWhile_replicate (n := n + 1) (c := 'i') (by decide)).symm.trans h
      rw [← (List.cons.inj hdrop).1]
      decide
  | enabled =>
      obtain ⟨c, s', rfl, hc⟩ := scalar_head hscalar
      generalize htext : EntryKey.enabled.colon ++ (List.replicate (j + 1) ' ' ++ (c :: s' ++ feed)) = text
      have hdrop : (List.replicate (n + 1) ' ' ++ text).dropWhile isSpace = text := by
        rw [← htext]
        exact dropWhile_replicate (by decide)
      have htake : (List.replicate (n + 1) ' ' ++ text).takeWhile isSpace = List.replicate (n + 1) ' ' := by
        rw [← htext]
        exact takeWhile_replicate (by decide)
      have hleads : EntryKey.enabled.colon.isPrefixOf text = true :=
        List.isPrefixOf_iff_prefix.2 ⟨_, htext⟩
      have hvalue : ((text.drop 8).any fun c => !isSpace c) = true := by
        rw [← htext]
        exact List.any_eq_true.2 ⟨c, List.mem_append_right _ (by simp), by simp [hc]⟩
      unfold enabledIndent
      rw [hdrop, htake, enabled_toList]
      exact if_pos (Bool.and_eq_true _ _ ▸ ⟨hleads, hvalue⟩)

/-- What the patterns find in a line of a shape. -/
structure FoundOn (a : AgentId) (l : List Char) (L : Line) : Prop where
  margin : isAtMargin l = L.isAtMargin
  idItem : isIdItem l = L.startsWithId
  itemOf : isItemOf a l = L.isItemOf a
  flag : enabledIndent l = L.flagColumn.map fun column => List.replicate column ' '

theorem margin_indented (n : ℕ) (l : List Char) : isAtMargin (List.replicate (n + 1) ' ' ++ l) = false :=
  rfl

theorem margin_dash {n : ℕ} {c : Char} {l : List Char} (hc : isSpace c = false) :
    isAtMargin (List.replicate n ' ' ++ c :: l) = decide (n = 0) := by
  cases n with
  | zero => simp [isAtMargin, hc]
  | succ n => exact margin_indented n _

theorem found_of_shape {body feed : List Char} (h : Shape body L) (hclean : ∀ c ∈ body, isPrintable c = true)
    (hfeed : feed = [] ∨ feed = ['\n']) : FoundOn a (body ++ feed) L := by
  have hother : ∀ {l : List Char} {c : Char} {rest : List Char}, l.dropWhile isSpace = c :: rest → c ≠ '-' →
      afterDash l = none := by
    intro l c rest hl hc
    apply afterDash_none
    intro rest' heq
    rw [hl] at heq
    exact hc (List.cons.inj heq).1
  have hnoFlag : ∀ {l : List Char} {c : Char} {rest : List Char}, l.dropWhile isSpace = c :: rest → c ≠ 'e' →
      enabledIndent l = none := by
    intro l c rest hl hc
    apply enabledIndent_none
    intro d rest' heq
    rw [hl] at heq
    rw [← (List.cons.inj heq).1]
    exact hc
  cases h with
  | blank n =>
      have hdrop := dropWhile_blank_feed n hfeed
      have hdash : afterDash (List.replicate n ' ' ++ feed) = none := by
        apply afterDash_none
        rw [hdrop]
        exact fun _ h => by cases h
      constructor
      · cases n with
        | zero => obtain rfl | rfl := hfeed <;> rfl
        | succ n => exact margin_indented n feed
      · exact (isIdItem_none (a := a) hdash).1
      · exact (isIdItem_none hdash).2
      · apply enabledIndent_none
        rw [hdrop]
        exact fun _ _ h => by cases h
  | comment n rest =>
      have hdrop : (List.replicate n ' ' ++ '#' :: rest ++ feed).dropWhile isSpace = '#' :: (rest ++ feed) := by
        rw [List.append_assoc]
        exact dropWhile_replicate (by decide)
      have hdash := hother hdrop (by decide)
      constructor
      · rw [List.append_assoc]
        exact margin_dash (by decide)
      · exact (isIdItem_none (a := a) hdash).1
      · exact (isIdItem_none hdash).2
      · exact hnoFlag hdrop (by decide)
  | agents rest =>
      have hdrop : ('a' :: rest ++ feed).dropWhile isSpace = 'a' :: (rest ++ feed) :=
        List.dropWhile_cons_of_neg (by decide)
      have hdash := hother hdrop (by decide)
      constructor
      · exact margin_dash (n := 0) (by decide)
      · exact (isIdItem_none (a := a) hdash).1
      · exact (isIdItem_none hdash).2
      · exact hnoFlag hdrop (by decide)
  | bare n rest htrail =>
      have hdrop : (List.replicate n ' ' ++ '-' :: rest ++ feed).dropWhile isSpace = '-' :: (rest ++ feed) := by
        rw [List.append_assoc]
        exact dropWhile_replicate (by decide)
      have hdash : ∀ rest', afterDash (List.replicate n ' ' ++ '-' :: rest ++ feed) = some rest' →
          "id:".toList.isPrefixOf rest' = false := by
        intro rest' h
        unfold afterDash at h
        rw [hdrop] at h
        change (if ((rest ++ feed).head?.any isSpace) = true then
          some ((rest ++ feed).dropWhile isSpace) else none) = some rest' at h
        split at h
        · obtain rfl := Option.some.inj h
          obtain hnil | ⟨c, hc, -⟩ := dropWhile_trail htrail hfeed
          · rw [hnil]; rfl
          · rw [hc]; rfl
        · cases h
      constructor
      · rw [List.append_assoc]
        exact margin_dash (by decide)
      · cases hafter : afterDash (List.replicate n ' ' ++ '-' :: rest ++ feed) with
        | none => exact (isIdItem_none (a := a) hafter).1
        | some rest' => rw [isIdItem, hafter, Option.any_some, hdash rest' hafter]; rfl
      · cases hafter : afterDash (List.replicate n ' ' ++ '-' :: rest ++ feed) with
        | none => exact (isIdItem_none hafter).2
        | some rest' =>
            unfold isItemOf
            rw [hafter]
            change ("id:".toList.isPrefixOf rest' && _ && _) = false
            rw [hdash rest' hafter]
            rfl
      · exact hnoFlag hdrop (by decide)
  | dash n k f r rest hfield htrail =>
      obtain ⟨c, r', hr, hspace⟩ := field_head hfield
      obtain ⟨j, s, hcolon, hscalar⟩ := readField_some hfield
      have hline : List.replicate n ' ' ++ '-' :: (List.replicate (k + 1) ' ' ++ r) ++ feed =
          List.replicate n ' ' ++ '-' :: (List.replicate (k + 1) ' ' ++ (r ++ feed)) := by
        simp
      have hdash : afterDash (List.replicate n ' ' ++ '-' :: (List.replicate (k + 1) ' ' ++ (r ++ feed))) =
          some (r ++ feed) := by
        rw [hr]
        exact afterDash_dash n k hspace
      have hfield' : r ++ feed = f.key.colon ++ (List.replicate (j + 1) ' ' ++ (s ++ feed)) := by
        rw [hcolon, List.append_assoc, List.append_assoc]
      have hidItem : isIdItem (List.replicate n ' ' ++ '-' :: (List.replicate (k + 1) ' ' ++ (r ++ feed))) =
          decide (f.key = .id) := isIdItem_field (hdash.trans (congrArg some hfield'))
      have hcleanRest : ∀ c ∈ rest, isPrintable c = true := by
        intro c hc
        apply hclean
        have hin : c ∈ r := (readField_suffix hfield).subset hc
        simp [hin]
      rw [hline]
      constructor
      · exact margin_dash (by decide)
      · exact hidItem
      · exact isItemOf_field hdash hfield' hscalar htrail hcleanRest hfeed
      · exact hnoFlag (dropWhile_replicate (by decide)) (by decide)
  | field n f r rest hfield htrail =>
      obtain ⟨j, s, hcolon, hscalar⟩ := readField_some hfield
      have hline : List.replicate (n + 1) ' ' ++ r ++ feed =
          List.replicate (n + 1) ' ' ++ (f.key.colon ++ (List.replicate (j + 1) ' ' ++ (s ++ feed))) := by
        rw [hcolon]
        simp
      rw [hline]
      have hdash : afterDash (List.replicate (n + 1) ' ' ++
          (f.key.colon ++ (List.replicate (j + 1) ' ' ++ (s ++ feed)))) = none := by
        cases f.key with
        | id => exact hother (dropWhile_replicate (by decide)) (by decide)
        | enabled => exact hother (dropWhile_replicate (by decide)) (by decide)
      constructor
      · exact margin_indented n _
      · exact (isIdItem_none (a := a) hdash).1
      · exact (isIdItem_none hdash).2
      · exact enabledIndent_field hscalar

/-- On a line that `scanLine` reads, the patterns find what the line is. -/
theorem found_of_scan (a : AgentId) (h : scanLine l = some L) (hcrowded : L ≠ .crowded) : FoundOn a l L := by
  obtain ⟨hshape, hclean⟩ := shape_of_scan h hcrowded
  obtain ⟨feed, hl, hfeed⟩ := body_append l
  have := found_of_shape (a := a) hshape hclean hfeed
  rwa [← hl] at this

/-- The white space before the dash of an item. -/
theorem dash_indent {n : ℕ} {first : Option (ℕ × Field)} (h : scanLine l = some (.dash n first)) :
    l.takeWhile isSpace = List.replicate n ' ' := by
  obtain ⟨hshape, -⟩ := shape_of_scan h (by simp)
  obtain ⟨feed, hl, -⟩ := body_append l
  rw [hl]
  generalize lineBody l = body at hshape
  cases hshape with
  | bare n rest =>
      rw [List.append_assoc]
      exact takeWhile_replicate (by decide)
  | dash n k f r rest =>
      rw [List.append_assoc]
      exact takeWhile_replicate (by decide)

/-- A line that `scanLine` reads has no line boundary but its line feed. -/
theorem scanLine_whole (h : scanLine l = some L) (hne : l ≠ []) : Fed l ∨ Unfed l := by
  have hclean : ∀ c ∈ lineBody l, isPrintable c = true := by
    unfold scanLine at h
    split at h
    · exact List.all_eq_true.1 ‹_›
    · cases h
  have hone : OneLine (lineBody l) := by
    intro c hc
    have := hclean c hc
    simp only [isPrintable, Bool.or_eq_true, Bool.and_eq_true, decide_eq_true_eq, bne_iff_ne] at this
    simp only [isBreak, Bool.or_eq_false_iff, Bool.and_eq_false_iff, decide_eq_false_iff_not, beq_eq_false_iff_ne]
    omega
  obtain ⟨feed, hl, rfl | rfl⟩ := body_append l
  · rw [List.append_nil] at hl
    rw [hl]
    exact .inr ⟨hone, hl ▸ hne⟩
  · exact .inl ⟨lineBody l, hone, hl⟩

end Patterns

end ProjectManager
