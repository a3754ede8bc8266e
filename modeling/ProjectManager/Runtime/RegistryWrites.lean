import ProjectManager.Runtime.RegistryBlocks

/-!
# The lines that the edits write

The lines that the edits put into a text are lines in block style (`flagLine`, `newEntry`), also where the text has no
line feed at its end: `append_registry` puts one there (`fed_lines`), and the flag that `set_registry_enabled` puts in
behind the last line comes to stand on that line (`scanLine_joined`).
-/

namespace ProjectManager

open Lines Text

/-! ### Reading a written line -/

section Reading

variable {n : ℕ} {c : Char} {l rest body : List Char} {a : AgentId}

theorem blanks_replicate (hc : c ≠ ' ') : blanks (List.replicate n ' ' ++ c :: rest) = n ∧
    unindent (List.replicate n ' ' ++ c :: rest) = c :: rest := by
  have htest : (c == ' ') = false := beq_eq_false_iff_ne.2 hc
  induction n with
  | zero => simp [blanks, unindent, htest]
  | succ n ih =>
      rw [List.replicate_succ, List.cons_append]
      unfold blanks unindent at ih ⊢
      rw [List.takeWhile_cons_of_pos (by decide), List.dropWhile_cons_of_pos (by decide), List.length_cons]
      exact ⟨congrArg (· + 1) ih.1, ih.2⟩

theorem lineBody_fed (body : List Char) : lineBody (body ++ ['\n']) = body := by
  simp [lineBody]

theorem lineBody_of_ne (h : l.getLast? ≠ some '\n') : lineBody l = l :=
  if_neg h

theorem scanLine_body (h : ∀ c ∈ body, isPrintable c = true) :
    scanLine (body ++ ['\n']) = scanBody (blanks body) (unindent body) := by
  unfold scanLine
  rw [lineBody_fed, if_pos (List.all_eq_true.2 h)]

theorem printable_word (h : isWordChar c = true) : isPrintable c = true := by
  simp only [isWordChar, Bool.or_eq_true, beq_iff_eq] at h
  obtain ((h | rfl) | rfl) | rfl := h
  · have hrange := alphanum_range h
    simp only [isPrintable, Bool.or_eq_true, Bool.and_eq_true, decide_eq_true_eq]
    omega
  all_goals decide

theorem printable_replicate : ∀ c ∈ List.replicate n ' ', isPrintable c = true := by
  intro c hc
  rw [(List.mem_replicate.1 hc).2]
  decide

/-- An id is read as a plain word, up to what does not belong to it. -/
theorem readScalar_id (a : AgentId) (h : ∀ c ∈ rest.head?, isWordChar c = false) :
    readScalar (a.chars ++ rest) = some (.plain a.chars, rest) := by
  obtain ⟨c, cs, ha, hc⟩ := a.start
  have hword := a.word
  have htake : (a.chars ++ rest).takeWhile isWordChar = a.chars := by
    rw [List.takeWhile_append_of_pos hword]
    cases rest with
    | nil => simp
    | cons d rest => simp [h d rfl]
  have hdrop : (a.chars ++ rest).dropWhile isWordChar = rest := by
    rw [List.dropWhile_append_of_pos hword]
    exact Text.dropWhile_of_head h
  rw [ha] at htake hdrop ⊢
  rw [List.cons_append] at htake hdrop ⊢
  rw [readScalar, if_pos hc, htake, hdrop]

/-- The field that names the agent. -/
theorem readField_id (a : AgentId) (j : ℕ) (h : ∀ c ∈ rest.head?, isWordChar c = false) :
    readField (EntryKey.id.colon ++ (List.replicate (j + 1) ' ' ++ (a.chars ++ rest))) =
      some (⟨.id, .plain a.chars⟩, rest) := by
  obtain ⟨c, cs, ha, hc⟩ := a.start
  have hblank : c ≠ ' ' := by
    rintro rfl
    exact absurd hc (by decide)
  have hkey : readKey (EntryKey.id.colon ++ (List.replicate (j + 1) ' ' ++ (a.chars ++ rest))) =
      some (.id, List.replicate (j + 1) ' ' ++ (a.chars ++ rest)) := rfl
  have hcons : a.chars ++ rest = c :: (cs ++ rest) := by rw [ha]; rfl
  have hscan : blanks (List.replicate (j + 1) ' ' ++ c :: (cs ++ rest)) = j + 1 ∧
      unindent (List.replicate (j + 1) ' ' ++ c :: (cs ++ rest)) = c :: (cs ++ rest) := blanks_replicate hblank
  have hpos : ¬ j + 1 = 0 := by omega
  unfold readField
  rw [hkey]
  dsimp only
  rw [hcons, hscan.1, hscan.2, if_neg hpos, ← hcons, readScalar_id a h]
  rfl

theorem readField_flag (enabled : Bool) :
    readField ("enabled: ".toList ++ flagText enabled) = some (flagField enabled, []) := by
  cases enabled <;> rfl

theorem printable_flag (enabled : Bool) : ∀ c ∈ "enabled: ".toList ++ flagText enabled, isPrintable c = true := by
  cases enabled <;> decide

/-- A dash with a field behind it. -/
theorem scanBody_dash (n k : ℕ) (key : EntryKey) (r : List Char) :
    scanBody n ('-' :: (List.replicate (k + 1) ' ' ++ (key.colon ++ r))) =
      fieldLine (fun f => .dash n (some (k + 1, f))) (key.colon ++ r) := by
  obtain ⟨c, cs, hcolon, hspace⟩ := colon_head key
  have hblank : c ≠ ' ' := by
    rintro rfl
    exact absurd hspace (by decide)
  have hcomment : c ≠ '#' := by
    cases key <;> rw [← (List.cons.inj hcolon).1] <;> decide
  have hscan : blanks (List.replicate (k + 1) ' ' ++ c :: (cs ++ r)) = k + 1 ∧
      unindent (List.replicate (k + 1) ' ' ++ c :: (cs ++ r)) = c :: (cs ++ r) := blanks_replicate hblank
  have htrail : isTrail (List.replicate (k + 1) ' ' ++ c :: (cs ++ r)) = false := by
    unfold isTrail
    rw [hscan.2]
    split
    · rename_i heq
      cases heq
    · rename_i heq
      exact absurd (List.cons.inj heq).1 hcomment
    · rfl
  have hpos : ¬ k + 1 = 0 := by omega
  rw [hcolon, List.cons_append]
  generalize List.replicate (k + 1) ' ' ++ c :: (cs ++ r) = rest at hscan htrail
  change (if isTrail rest = true then some (Line.dash n none) else if blanks rest = 0 then none else
    fieldLine (fun f => .dash n (some (blanks rest, f))) (unindent rest)) = _
  rw [htrail, hscan.1, hscan.2, if_neg Bool.false_ne_true, if_neg hpos]

theorem scanLine_enabledLine (column : ℕ) (enabled : Bool) :
    scanLine (enabledLine (List.replicate (column + 1) ' ') enabled) =
      some (.field (column + 1) (flagField enabled)) := by
  have hbody : enabledLine (List.replicate (column + 1) ' ') enabled =
      (List.replicate (column + 1) ' ' ++ ("enabled: ".toList ++ flagText enabled)) ++ ['\n'] := by
    simp [enabledLine]
  have hclean : ∀ c ∈ List.replicate (column + 1) ' ' ++ ("enabled: ".toList ++ flagText enabled),
      isPrintable c = true := by
    intro c hc
    exact (List.mem_append.1 hc).elim (printable_replicate c) (printable_flag enabled c)
  have hscan : blanks (List.replicate (column + 1) ' ' ++ ("enabled: ".toList ++ flagText enabled)) = column + 1 ∧
      unindent (List.replicate (column + 1) ' ' ++ ("enabled: ".toList ++ flagText enabled)) =
        "enabled: ".toList ++ flagText enabled := blanks_replicate (by decide)
  have hline : fieldLine (.field (column + 1)) ("enabled: ".toList ++ flagText enabled) =
      some (.field (column + 1) (flagField enabled)) := by
    unfold fieldLine
    rw [readField_flag]
    rfl
  rw [hbody, scanLine_body hclean, hscan.1, hscan.2]
  exact hline

theorem scanLine_itemLine (a : AgentId) : scanLine ("  - id: ".toList ++ a.chars ++ ['\n']) =
    some (.dash 2 (some (1, ⟨.id, .plain a.chars⟩))) := by
  have hbody : "  - id: ".toList ++ a.chars = List.replicate 2 ' ' ++
      '-' :: (List.replicate 1 ' ' ++ (EntryKey.id.colon ++ (List.replicate 1 ' ' ++ (a.chars ++ [])))) := by
    rw [List.append_nil]
    rfl
  have hclean : ∀ c ∈ "  - id: ".toList ++ a.chars, isPrintable c = true := by
    intro c hc
    have hfront : ∀ c ∈ "  - id: ".toList, isPrintable c = true := by decide
    exact (List.mem_append.1 hc).elim (hfront c) fun hc => printable_word (a.word c hc)
  have hscan : blanks (List.replicate 2 ' ' ++ '-' :: (List.replicate 1 ' ' ++
      (EntryKey.id.colon ++ (List.replicate 1 ' ' ++ (a.chars ++ []))))) = 2 ∧ unindent (List.replicate 2 ' ' ++
        '-' :: (List.replicate 1 ' ' ++ (EntryKey.id.colon ++ (List.replicate 1 ' ' ++ (a.chars ++ []))))) =
          '-' :: (List.replicate 1 ' ' ++ (EntryKey.id.colon ++ (List.replicate 1 ' ' ++ (a.chars ++ [])))) :=
    blanks_replicate (by decide)
  have hfield : readField (EntryKey.id.colon ++ (List.replicate 1 ' ' ++ (a.chars ++ []))) =
      some (⟨.id, .plain a.chars⟩, []) := readField_id a 0 (by simp)
  rw [scanLine_body hclean, hbody, hscan.1, hscan.2, scanBody_dash 2 0]
  unfold fieldLine
  rw [hfield]
  rfl

/-- What is written behind a line without its line feed. -/
def flagTail (n : ℕ) (enabled : Bool) : List Char :=
  List.replicate (n + 2) ' ' ++ ("enabled: ".toList ++ flagText enabled)

/-- The flag behind a field crowds the line, or goes on with a comment. -/
theorem fieldLine_joined {build : Field → Line} {f : Field} {r : List Char} {enabled : Bool}
    (hfield : readField r = some (f, rest ++ flagTail n enabled)) (htrail : isTrail rest = true) :
    fieldLine build r = some .crowded ∨ fieldLine build r = some (build f) := by
  unfold fieldLine
  rw [hfield]
  dsimp only
  obtain ⟨m, rfl⟩ | ⟨m, c, rfl⟩ := trail_cases htrail
  · left
    have htext : List.replicate m ' ' ++ flagTail n enabled = List.replicate (m + (n + 2)) ' ' ++
        'e' :: ("nabled: ".toList ++ flagText enabled) := by
      rw [flagTail, ← List.append_assoc, ← List.replicate_add]
      rfl
    have hscan : blanks (List.replicate (m + (n + 2)) ' ' ++ 'e' :: ("nabled: ".toList ++ flagText enabled)) =
        m + (n + 2) ∧ unindent (List.replicate (m + (n + 2)) ' ' ++ 'e' :: ("nabled: ".toList ++ flagText enabled)) =
          "enabled: ".toList ++ flagText enabled := blanks_replicate (by decide)
    have hno : isTrail (List.replicate (m + (n + 2)) ' ' ++ 'e' :: ("nabled: ".toList ++ flagText enabled)) = false := by
      unfold isTrail
      rw [hscan.2]
      rfl
    rw [htext, hno, hscan.1, hscan.2, readField_flag, if_neg Bool.false_ne_true]
    exact if_pos ⟨by omega, rfl⟩
  · right
    apply if_pos
    have htext : List.replicate (m + 1) ' ' ++ '#' :: c ++ flagTail n enabled =
        List.replicate (m + 1) ' ' ++ '#' :: (c ++ flagTail n enabled) := by
      simp
    have hscan : blanks (List.replicate (m + 1) ' ' ++ '#' :: (c ++ flagTail n enabled)) = m + 1 ∧
        unindent (List.replicate (m + 1) ' ' ++ '#' :: (c ++ flagTail n enabled)) = '#' :: (c ++ flagTail n enabled) :=
      blanks_replicate (by decide)
    unfold isTrail
    rw [htext, hscan.1, hscan.2]
    exact decide_eq_true (Nat.succ_ne_zero m)

/-- The flag that comes to stand on the line of the agent crowds it, or belongs to its comment. -/
theorem scanLine_joined {t : ReadLine} {k : ℕ} (enabled : Bool)
    (ht : t.line = .dash n (some (k, ⟨.id, .plain a.chars⟩))) (hunfed : Unfed t.chars) :
    scanLine (t.chars ++ enabledLine (List.replicate (n + 2) ' ') enabled) = some .crowded ∨
      scanLine (t.chars ++ enabledLine (List.replicate (n + 2) ' ') enabled) = some t.line := by
  have hfeed : t.chars.getLast? ≠ some '\n' := by
    intro hlast
    have := hunfed.1 '\n' (List.mem_of_getLast? hlast)
    exact absurd this (by decide)
  obtain ⟨hshape, hclean⟩ := shape_of_scan t.reads t.single
  rw [lineBody_of_ne hfeed] at hshape hclean
  rw [ht] at hshape
  generalize t.chars = chars at hshape hclean
  cases hshape with
  | dash _ k _ r rest hfield htrail =>
      obtain ⟨j, s, rfl, hscalar⟩ := readField_some hfield
      obtain ⟨w, hw, hword⟩ | ⟨⟨_, hw⟩, -⟩ := readScalar_some hscalar
      · obtain rfl : a.chars = w := Scalar.plain.inj hw
        have hwritten : List.replicate n ' ' ++ '-' :: (List.replicate (k + 1) ' ' ++ (EntryKey.id.colon ++
            (List.replicate (j + 1) ' ' ++ s))) ++ enabledLine (List.replicate (n + 2) ' ') enabled =
          (List.replicate n ' ' ++ '-' :: (List.replicate (k + 1) ' ' ++ (EntryKey.id.colon ++
            (List.replicate (j + 1) ' ' ++ (a.chars ++ (rest ++ flagTail n enabled)))))) ++ ['\n'] := by
          rw [hword.text]
          simp [enabledLine, flagTail]
        have hclean' : ∀ c ∈ List.replicate n ' ' ++ '-' :: (List.replicate (k + 1) ' ' ++ (EntryKey.id.colon ++
            (List.replicate (j + 1) ' ' ++ (a.chars ++ (rest ++ flagTail n enabled))))), isPrintable c = true := by
          intro c hc
          have hmem : c ∈ (List.replicate n ' ' ++ '-' :: (List.replicate (k + 1) ' ' ++ (EntryKey.id.colon ++
              (List.replicate (j + 1) ' ' ++ (a.chars ++ rest))))) ++ flagTail n enabled := by
            simpa using hc
          obtain hmem | hmem := List.mem_append.1 hmem
          · exact hclean c (hword.text ▸ hmem)
          · exact (List.mem_append.1 hmem).elim (printable_replicate c) (printable_flag enabled c)
        have hstops : ∀ c ∈ (rest ++ flagTail n enabled).head?, isWordChar c = false := by
          cases rest with
          | nil => exact fun c hc => by obtain rfl := Option.some.inj hc; decide
          | cons d rest => exact fun c hc => hword.stops c hc
        have hscan : blanks _ = n ∧ unindent (List.replicate n ' ' ++ '-' :: (List.replicate (k + 1) ' ' ++
            (EntryKey.id.colon ++ (List.replicate (j + 1) ' ' ++ (a.chars ++ (rest ++ flagTail n enabled)))))) = _ :=
          blanks_replicate (by decide)
        rw [ht, hwritten, scanLine_body hclean', hscan.1, hscan.2, scanBody_dash]
        exact fieldLine_joined (readField_id a j hstops) htrail
      · cases hw

end Reading

/-- The line of a flag, to the right of the first column. -/
def flagLine (column : ℕ) (enabled : Bool) : ReadLine where
  chars := enabledLine (List.replicate (column + 1) ' ') enabled
  line := .field (column + 1) (flagField enabled)
  reads := scanLine_enabledLine column enabled
  single := by simp

/-- The line of a new item. -/
def itemLine (a : AgentId) : ReadLine where
  chars := "  - id: ".toList ++ a.chars ++ ['\n']
  line := .dash 2 (some (1, ⟨.id, .plain a.chars⟩))
  reads := scanLine_itemLine a
  single := by simp

/-! ### Texts of lines -/

section Texts

variable {text : List Char} {rs before after : List ReadLine} {r t : ReadLine}

/-- A line that ends with a line feed. -/
theorem fed_of_last {l : List Char} {L : Line} (hreads : scanLine l = some L) (h : l.getLast? = some '\n') : Fed l := by
  have hne : l ≠ [] := by
    rintro rfl
    cases h
  obtain hfed | hunfed := scanLine_whole hreads hne
  · exact hfed
  · exact absurd (hunfed.1 '\n' (List.mem_of_getLast? h)) (by decide)

theorem flagLine_fed (column : ℕ) (enabled : Bool) : Fed (flagLine column enabled).chars := by
  apply fed_of_last (scanLine_enabledLine column enabled)
  exact List.getLast?_concat

theorem itemLine_fed (a : AgentId) : Fed (itemLine a).chars := by
  apply fed_of_last (scanLine_itemLine a)
  exact List.getLast?_concat

/-- The lines of a text are whole. -/
theorem whole_of_keepLines (h : keepLines text = rs.map ReadLine.chars) : Whole (rs.map ReadLine.chars) := by
  rw [← h]
  apply keepLines_whole
  intro l hl
  have hne := ne_nil_of_mem_keepLines l hl
  rw [h] at hl
  obtain ⟨r, -, rfl⟩ := List.mem_map.1 hl
  exact scanLine_whole r.reads hne

/-- Whole lines make up a text with these lines. -/
theorem blockLines_of_whole (h : Whole (rs.map ReadLine.chars)) :
    BlockLines (rs.map ReadLine.chars).flatten (rs.map ReadLine.line) := by
  unfold BlockLines
  rw [keepLines_flatten h, List.map_map, List.map_map]
  exact List.map_congr_left fun r _ => r.reads

theorem scanLine_feed {l : List Char} (h : l.getLast? ≠ some '\n') : scanLine (l ++ ['\n']) = scanLine l := by
  unfold scanLine
  rw [lineBody_fed, lineBody_of_ne h]

/-- The line with a line feed. -/
def ReadLine.fed (r : ReadLine) : ReadLine :=
  if h : r.chars.getLast? = some '\n' then r
  else { r with chars := r.chars ++ ['\n'], reads := (scanLine_feed h).trans r.reads }

@[simp] theorem ReadLine.fed_line (r : ReadLine) : r.fed.line = r.line := by
  unfold fed
  split <;> rfl

theorem ReadLine.fed_fed (r : ReadLine) : Fed r.fed.chars := by
  unfold fed
  split
  case isTrue h => exact fed_of_last r.reads h
  case isFalse h =>
    apply fed_of_last ((scanLine_feed h).trans r.reads)
    exact List.getLast?_concat

theorem fed_getLast {l : List Char} (h : Fed l) : l.getLast? = some '\n' := by
  obtain ⟨body, -, rfl⟩ := h
  simp

theorem ReadLine.fed_of_fed (h : Fed r.chars) : r.fed = r :=
  dif_pos (fed_getLast h)

/-- A text with a line feed at its end. -/
theorem flatten_fed (h : Whole (rs.map ReadLine.chars)) (hne : rs ≠ []) :
    (rs.map ReadLine.chars).flatten ++ (if (rs.map ReadLine.chars).flatten.getLast? = some '\n' ||
      (rs.map ReadLine.chars).flatten.isEmpty then [] else ['\n']) =
        ((rs.map ReadLine.fed).map ReadLine.chars).flatten := by
  obtain hnil | ⟨init, last, rfl⟩ := List.eq_nil_or_concat rs
  · exact absurd hnil hne
  · rw [List.concat_eq_append] at h ⊢
    rw [List.map_append] at h
    have hinit : (init.map ReadLine.fed).map ReadLine.chars = init.map ReadLine.chars := by
      rw [List.map_map]
      apply List.map_congr_left
      intro r hr
      exact congrArg ReadLine.chars (ReadLine.fed_of_fed (h.fed_of_append (List.cons_ne_nil _ _) _ (List.mem_map_of_mem hr)))
    have hlast : last.chars ≠ [] := by
      obtain hfed | hunfed := h.lines last.chars (by simp)
      · exact hfed.ne_nil
      · exact hunfed.2
    have hflat : ((init ++ [last]).map ReadLine.chars).flatten = (init.map ReadLine.chars).flatten ++ last.chars := by
      simp
    have hflat' : (((init ++ [last]).map ReadLine.fed).map ReadLine.chars).flatten =
        (init.map ReadLine.chars).flatten ++ last.fed.chars := by
      rw [List.map_append, List.map_append, hinit]
      simp
    have hempty : ((init.map ReadLine.chars).flatten ++ last.chars).isEmpty = false :=
      List.isEmpty_eq_false_iff.2 (List.append_ne_nil_of_right_ne_nil _ hlast)
    rw [hflat, hflat', List.getLast?_append_of_ne_nil _ hlast, hempty, Bool.or_false, List.append_assoc]
    congr 1
    unfold ReadLine.fed
    by_cases hfeed : last.chars.getLast? = some '\n'
    · rw [dif_pos hfeed, if_pos (decide_eq_true hfeed), List.append_nil]
    · rw [dif_neg hfeed, if_neg (by simpa using hfeed)]

end Texts

end ProjectManager
