import ProjectManager.Actions.Mediation
import ProjectManager.Lib.Lines
import ProjectManager.Lib.Text

/-!
# The environment file

`merge_env` rewrites `.env` line by line: the first line of an updated key is replaced, the rest of the updates is
appended.  Texts are lists of characters here.  What such a file means is said by a reader that takes it line by line,
the last assignment of a key winning.  `merge_env_frame` says when the new file means the old one overridden by the
updates: the value must read back on its own, no later line may assign the key again, and the separators that only
the writer takes for line ends may not matter.
-/

namespace ProjectManager

open Lines

/-! ### The writer -/

/-- `[A-Z]`. -/
def isUpperLetter (c : Char) : Bool :=
  'A' ≤ c && c ≤ 'Z'

/-- `[A-Z0-9_]`. -/
def isKeyChar (c : Char) : Bool :=
  isUpperLetter c || ('0' ≤ c && c ≤ '9') || c == '_'

/-- `[A-Z][A-Z0-9_]*`. -/
def isEnvKey : List Char → Bool
  | [] => false
  | c :: rest => isUpperLetter c && rest.all isKeyChar

/-- `[A-Z0-9_]+_TELEGRAM_BOT_TOKEN`. -/
def isTelegramTokenKey (key : List Char) : Bool :=
  let suffix := "_TELEGRAM_BOT_TOKEN".toList
  key.all isKeyChar && suffix.isSuffixOf key && suffix.length < key.length

/-- `is_writable`. -/
def isWritable (key : List Char) (allow : List (List Char)) (allowTelegramToken : Bool) : Bool :=
  if !isEnvKey (beforeDollar key) then
    false
  else if allow.contains key then
    true
  else
    allowTelegramToken && isTelegramTokenKey (beforeDollar key)

/-- The updates, by key. -/
structure EnvUpdates where
  items : List (List Char × List Char)
  nodup : (items.map Prod.fst).Nodup

/-- The file and its backup. -/
structure EnvFiles where
  env : Option (List Char)
  bak : Option (List Char)

/-- The key and the rest of a line that matches `^\s*([A-Z][A-Z0-9_]*)=`. -/
def envAssignment (line : List Char) : Option (List Char × List Char) :=
  let body := line.dropWhile Text.isSpace
  let key := body.takeWhile isKeyChar
  if isEnvKey key then
    match body.dropWhile isKeyChar with
    | '=' :: rest => some (key, rest)
    | _ => none
  else
    none

/-- The key that a line assigns, as the writer sees it. -/
def envKey (line : List Char) : Option (List Char) :=
  (envAssignment line).map Prod.fst

/-- The line that is written for a key. -/
def envLine (key value : List Char) : List Char :=
  key ++ '=' :: value

/-- The loop over the existing lines: the lines that are kept or replaced, and the updates that remain. -/
def mergeLines : List (List Char × List Char) → List (List Char) → List (List Char) × List (List Char × List Char)
  | remaining, [] => ([], remaining)
  | remaining, line :: lines =>
    match envKey line with
    | none => (mergeLines remaining lines).map (line :: ·) id
    | some key =>
      match remaining.lookup key with
      | none => (mergeLines remaining lines).map (line :: ·) id
      | some value => (mergeLines (remaining.filter fun u => u.1 ≠ key) lines).map (envLine key value :: ·) id

/-- `str.strip`. -/
def strippedValue (value : List Char) : List Char :=
  stripWhere Text.isSpace value

/-- The updates that are not blank. -/
def EnvUpdates.clean (updates : EnvUpdates) : List (List Char × List Char) :=
  updates.items.filter fun u => strippedValue u.2 ≠ []

/-- The lines of the new file. -/
def mergedLines (existing : List Char) (clean : List (List Char × List Char)) : List (List Char) :=
  let merged := mergeLines clean (splitlines existing)
  merged.1 ++ merged.2.map fun u => envLine u.1 u.2

/-- `merge_env`. -/
def mergeEnv (py : Python) (updates : EnvUpdates) (allow : List (List Char)) (allowTelegramToken : Bool)
    (files : EnvFiles) : Except String Unit × EnvFiles :=
  match updates.items.find? fun u => !isWritable u.1 allow allowTelegramToken with
  | some u =>
    (.error ("env key " ++ py.repr (.str (String.ofList u.1)) ++ " không được phép ghi qua đường này"), files)
  | none =>
    if updates.clean = [] then
      (.ok (), files)
    else
      let out := mergedLines (files.env.getD []) updates.clean
      (.ok (), {
        env := some (['\n'].intercalate out ++ ['\n'])
        bak := if files.env.isSome then files.env else files.bak })

/-! ### The reader -/

/-- The ends of lines in a text file. -/
def isFileBreak (c : Char) : Bool :=
  c == '\n' || c == '\r'

theorem isFileBreak_breaks : Breaks isFileBreak :=
  ⟨by decide, by decide⟩

/-- A reader that takes a file line by line.  An empty line assigns nothing, and a line that begins with a key and an
equals sign assigns no other key. -/
structure EnvReader where
  assign : List Char → Option (List Char × List Char)
  assign_empty : assign [] = none
  assign_key : ∀ line key, envKey line = some key → ∀ x ∈ assign line, x.1 = key

/-- The last value of a key in a list of assignments. -/
def lastValue (assignments : List (List Char × List Char)) (key : List Char) : Option (List Char) :=
  assignments.reverse.lookup key

namespace EnvReader

variable (r : EnvReader)

/-- The assignments of a text. -/
def assignments (text : List Char) : List (List Char × List Char) :=
  (linesBy isFileBreak text).filterMap r.assign

/-- The value of a key in a text. -/
def read (text key : List Char) : Option (List Char) :=
  lastValue (r.assignments text) key

/-- The value of a key in some lines. -/
def readLines (lines : List (List Char)) (key : List Char) : Option (List Char) :=
  lastValue (lines.filterMap r.assign) key

/-- The value of a key in a file; a file that is missing has none. -/
def readFile (file : Option (List Char)) (key : List Char) : Option (List Char) :=
  file.bind fun text => r.read text key

/-- The value that the lines behind the first line of a key give it again. -/
def stale (lines : List (List Char)) (key : List Char) : Option (List Char) :=
  match lines.dropWhile fun line => envKey line ≠ some key with
  | [] => none
  | _ :: later => r.readLines later key

end EnvReader

/-- The new file means the old one, overridden by these updates, stripped, and by nothing else. -/
def Overrides (r : EnvReader) (old new : Option (List Char)) (clean : List (List Char × List Char)) : Prop :=
  ∀ key, r.readFile new key =
    match clean.lookup key with
    | some value => some (strippedValue value)
    | none => r.readFile old key

/-- On its own, the line of an update means its key with the stripped value, and nothing else. -/
def ReadsBack (r : EnvReader) (u : List Char × List Char) : Prop :=
  ∀ key, r.read (envLine u.1 u.2) key = if key = u.1 then some (strippedValue u.2) else none

/-- No later line gives an updated key another value, and where the writer sees more lines than the reader, the keys
that are not updated have the same values in them. -/
structure Replaceable (r : EnvReader) (existing : List Char) (clean : List (List Char × List Char)) : Prop where
  fresh : ∀ u ∈ clean, ∀ value ∈ r.stale (splitlines existing) u.1, value = strippedValue u.2
  separators : ∀ key, clean.lookup key = none → r.readLines (splitlines existing) key = r.read existing key

/-! ### Reading -/

section Reading

variable {r : EnvReader} {xs ys clean remaining : List (List Char × List Char)} {key value line text : List Char}
  {lines : List (List Char)} {u : List Char × List Char}

theorem lastValue_append : lastValue (xs ++ ys) key = (lastValue ys key).or (lastValue xs key) := by
  rw [lastValue, List.reverse_append, List.lookup_append]
  rfl

theorem lastValue_eq_none (h : ∀ x ∈ xs, x.1 ≠ key) : lastValue xs key = none := by
  rw [lastValue, List.lookup_eq_none_iff]
  intro x hx
  simpa using (h x (List.mem_reverse.1 hx)).symm

theorem assignments_append (text text' : List Char) :
    r.assignments (text ++ '\n' :: text') = r.assignments text ++ r.assignments text' := by
  obtain ⟨gap, hgap, heq⟩ := linesBy_append isFileBreak_breaks text text'
  have hnone : gap.filterMap r.assign = [] := by
    obtain rfl | rfl := hgap
    · rfl
    · simp [r.assign_empty]
  simp only [EnvReader.assignments, heq, List.filterMap_append, hnone, List.append_nil]

/-- A line has one assignment at most. -/
theorem assignments_line (h : OneLine line) : r.assignments line = (r.assign line).toList := by
  by_cases hne : line = []
  · subst hne
    rw [r.assign_empty]
    rfl
  · have hone : OneLineBy isFileBreak line := by
      intro c hc
      have hbreak := h c hc
      by_contra hfile
      rw [Bool.not_eq_false, isFileBreak, Bool.or_eq_true, beq_iff_eq, beq_iff_eq] at hfile
      obtain rfl | rfl := hfile
      · rw [isBreak_breaks.lf] at hbreak
        cases hbreak
      · rw [isBreak_breaks.cr] at hbreak
        cases hbreak
    rw [EnvReader.assignments, linesBy_oneLine isFileBreak_breaks hone hne]
    cases h : r.assign line with
    | none =>
        simp [h]
    | some x =>
        simp [h]

/-- What written lines mean together: each of them may hold several lines. -/
def meaning (r : EnvReader) (out : List (List Char)) (key : List Char) : Option (List Char) :=
  lastValue (out.flatMap r.assignments) key

theorem meaning_cons (line : List Char) (out : List (List Char)) :
    meaning r (line :: out) key = (meaning r out key).or (r.read line key) := by
  rw [meaning, List.flatMap_cons, lastValue_append]
  rfl

/-- The text of written lines means what the lines mean. -/
theorem read_joined (out : List (List Char)) : r.read (['\n'].intercalate out ++ ['\n']) key = meaning r out key := by
  have hall : r.assignments (['\n'].intercalate out ++ ['\n']) = out.flatMap r.assignments := by
    induction out with
    | nil =>
        change r.assignments ([] ++ '\n' :: []) = []
        rw [assignments_append]
        rfl
    | cons line out ih =>
        cases out with
        | nil =>
            rw [List.intercalate_singleton, assignments_append, List.flatMap_singleton]
            exact List.append_nil _
        | cons line' out =>
            rw [List.intercalate_cons_cons, List.append_assoc, List.append_assoc, List.singleton_append,
              assignments_append, ih, List.flatMap_cons, List.flatMap_cons, List.flatMap_cons]
  rw [EnvReader.read, hall]
  rfl

theorem readLines_cons (h : OneLine line) :
    r.readLines (line :: lines) key = (r.readLines lines key).or (r.read line key) := by
  rw [EnvReader.read, assignments_line h, EnvReader.readLines, EnvReader.readLines, ← lastValue_append]
  cases h : r.assign line with
  | none =>
      rw [List.filterMap_cons_none h]
      rfl
  | some x =>
      rw [List.filterMap_cons_some h]
      rfl

/-- A line that the writer takes for another key says nothing about this one. -/
theorem read_other {other : List Char} (h : OneLine line) (hkey : envKey line = some other) (hne : key ≠ other) :
    r.read line key = none := by
  rw [EnvReader.read, assignments_line h]
  refine lastValue_eq_none fun x hx => ?_
  rw [r.assign_key line other hkey x (Option.mem_toList.1 hx)]
  exact hne.symm

theorem stale_cons_of_ne (h : envKey line ≠ some key) : r.stale (line :: lines) key = r.stale lines key := by
  unfold EnvReader.stale
  rw [List.dropWhile_cons_of_pos (by simpa using h)]

theorem stale_cons_self (h : envKey line = some key) : r.stale (line :: lines) key = r.readLines lines key := by
  unfold EnvReader.stale
  rw [List.dropWhile_cons_of_neg (by simpa using h)]

theorem lookup_filter_ne (other : List Char) :
    (clean.filter fun u => u.1 ≠ other).lookup key = if key = other then none else clean.lookup key := by
  induction clean with
  | nil =>
      simp
  | cons u clean ih =>
      obtain ⟨k, v⟩ := u
      by_cases hk : k = other
      · subst hk
        rw [List.filter_cons_of_neg (by simp), ih, List.lookup_cons]
        by_cases hkey : key = k
        · rw [if_pos hkey, if_pos hkey]
        · rw [if_neg hkey, if_neg hkey, beq_false_of_ne hkey]
      · rw [List.filter_cons_of_pos (by simpa using hk), List.lookup_cons, List.lookup_cons, ih]
        by_cases hkey : key = k
        · subst hkey
          rw [if_neg hk, if_neg hk, beq_self_eq_true]
        · rw [beq_false_of_ne hkey]

theorem lookup_none_of_not_mem (h : key ∉ clean.map Prod.fst) : clean.lookup key = none := by
  rw [List.lookup_eq_none_iff]
  intro x hx
  have hne : key ≠ x.1 := fun heq => h (heq ▸ List.mem_map_of_mem hx)
  simpa using hne

theorem mem_of_lookup (h : clean.lookup key = some value) : (key, value) ∈ clean := by
  obtain ⟨front, back, rfl, -⟩ := List.lookup_eq_some_iff.1 h
  simp

/-- The updates that are appended mean themselves. -/
theorem meaning_appended (hread : ∀ u ∈ remaining, ReadsBack r u) (hnodup : (remaining.map Prod.fst).Nodup) :
    meaning r (remaining.map fun u => envLine u.1 u.2) key = (remaining.lookup key).map strippedValue := by
  induction remaining with
  | nil =>
      rfl
  | cons u remaining ih =>
      obtain ⟨hu, hremaining⟩ := List.forall_mem_cons.1 hread
      obtain ⟨hnot, hnodup⟩ := List.nodup_cons.1 hnodup
      rw [List.map_cons, meaning_cons, ih hremaining hnodup, hu key, List.lookup_cons]
      by_cases hkey : key = u.1
      · have hnone : remaining.lookup key = none := lookup_none_of_not_mem (hkey ▸ hnot)
        rw [hnone, if_pos hkey]
        simp [hkey]
      · rw [if_neg hkey, Option.or_none, beq_false_of_ne hkey]

/-- What the merged lines mean: an updated key has its new value unless it is stale, and the other keys have the
values that the lines give them. -/
theorem meaning_merged (hread : ∀ u ∈ remaining, ReadsBack r u) (hnodup : (remaining.map Prod.fst).Nodup)
    (hlines : ∀ line ∈ lines, OneLine line) :
    meaning r ((mergeLines remaining lines).1 ++ (mergeLines remaining lines).2.map fun u => envLine u.1 u.2) key =
      match remaining.lookup key with
      | some value => (r.stale lines key).or (some (strippedValue value))
      | none => r.readLines lines key := by
  induction lines generalizing remaining with
  | nil =>
      rw [mergeLines, List.nil_append, meaning_appended hread hnodup]
      cases remaining.lookup key with
      | none =>
          rfl
      | some value =>
          rfl
  | cons line lines ih =>
      obtain ⟨hline, hlines⟩ := List.forall_mem_cons.1 hlines
      -- a line that stays
      have hstays : envKey line ≠ some key ∨ remaining.lookup key = none →
          (meaning r ((mergeLines remaining lines).1 ++
              (mergeLines remaining lines).2.map fun u => envLine u.1 u.2) key).or (r.read line key) =
            match remaining.lookup key with
            | some value => (r.stale (line :: lines) key).or (some (strippedValue value))
            | none => r.readLines (line :: lines) key := by
        intro hother
        rw [ih hread hnodup hlines]
        cases hlookup : remaining.lookup key with
        | none =>
            exact (readLines_cons hline).symm
        | some value =>
            have hne : envKey line ≠ some key := hother.resolve_right (by simp [hlookup])
            rw [stale_cons_of_ne hne]
            dsimp only
            rw [Option.or_assoc, Option.some_or]
      rw [mergeLines]
      cases hkey : envKey line with
      | none =>
          exact (meaning_cons _ _).trans (hstays (.inl (by simp [hkey])))
      | some other =>
          dsimp only
          cases hother : remaining.lookup other with
          | none =>
              refine (meaning_cons _ _).trans (hstays ?_)
              by_cases heq : other = key
              · exact .inr (heq ▸ hother)
              · exact .inl (by simpa [hkey] using heq)
          | some new =>
              have hu : ReadsBack r (other, new) := hread _ (mem_of_lookup hother)
              refine (meaning_cons _ _).trans ?_
              change (meaning r ((mergeLines _ lines).1 ++ (mergeLines _ lines).2.map _) key).or _ = _
              rw [ih (fun u hu => hread u (List.mem_of_mem_filter hu))
                (hnodup.sublist (List.filter_sublist.map _)) hlines, lookup_filter_ne, hu key]
              by_cases heq : key = other
              · subst heq
                rw [if_pos rfl, if_pos rfl, hother, stale_cons_self hkey]
              · have hne : envKey line ≠ some key := by
                  rw [hkey]
                  simpa using fun h => heq h.symm
                rw [if_neg heq, if_neg heq, Option.or_none, stale_cons_of_ne hne]
                cases remaining.lookup key with
                | none =>
                    rw [readLines_cons hline, read_other hline hkey heq, Option.or_none]
                | some value =>
                    rfl

end Reading

/-! ### Updates that do not read back -/

section Masking

variable {r : EnvReader} {remaining : List (List Char × List Char)} {key line : List Char}
  {lines out : List (List Char)} {u : List Char × List Char}

theorem meaning_ne_none (h : line ∈ out) (hread : r.read line key ≠ none) : meaning r out key ≠ none := by
  induction out with
  | nil =>
      cases h
  | cons line' out ih =>
      rw [meaning_cons]
      intro hnone
      obtain ⟨hout, hline'⟩ := Option.or_eq_none_iff.1 hnone
      obtain rfl | hmem := List.mem_cons.1 h
      · exact hread hline'
      · exact ih hmem hout

/-- An update that is not the one of a key is among the others. -/
theorem mem_others {key value : List Char} (hnodup : (remaining.map Prod.fst).Nodup)
    (hlookup : remaining.lookup key = some value) (h : u ∈ remaining) :
    u = (key, value) ∨ u ∈ remaining.filter fun u => u.1 ≠ key := by
  by_cases hkey : u.1 = key
  · exact .inl (List.inj_on_of_nodup_map hnodup h (mem_of_lookup hlookup) hkey)
  · exact .inr (List.mem_filter.2 ⟨h, by simpa using hkey⟩)

/-- Every update is written, in the place of a line or behind them. -/
theorem mem_merged (hnodup : (remaining.map Prod.fst).Nodup) (h : u ∈ remaining) :
    envLine u.1 u.2 ∈ (mergeLines remaining lines).1 ++ (mergeLines remaining lines).2.map fun u => envLine u.1 u.2 := by
  induction lines generalizing remaining with
  | nil =>
      exact List.mem_map_of_mem (f := fun u => envLine u.1 u.2) h
  | cons line lines ih =>
      rw [mergeLines]
      cases hkey : envKey line with
      | none =>
          exact List.mem_cons_of_mem _ (ih hnodup h)
      | some key =>
          dsimp only
          cases hlookup : remaining.lookup key with
          | none =>
              exact List.mem_cons_of_mem _ (ih hnodup h)
          | some value =>
              obtain rfl | hothers := mem_others hnodup hlookup h
              · exact List.mem_cons_self
              · exact List.mem_cons_of_mem _ (ih (hnodup.sublist (List.filter_sublist.map _)) hothers)

/-- An update that is written last of all reads back when the value in the new file is its own. -/
theorem readsBack_last (hout : meaning r out u.1 = none)
    (halone : r.read (envLine u.1 u.2) u.1 = some (strippedValue u.2) → ReadsBack r u)
    (hmeaning : meaning r (envLine u.1 u.2 :: out) u.1 = some (strippedValue u.2)) : ReadsBack r u := by
  rw [meaning_cons, hout, Option.none_or] at hmeaning
  exact halone hmeaning

/-- A written line does not change the value of an update that is written behind it. -/
theorem meaning_behind (hmem : envLine u.1 u.2 ∈ out) (hown : r.read (envLine u.1 u.2) u.1 ≠ none) :
    meaning r (line :: out) u.1 = meaning r out u.1 := by
  obtain ⟨value, hvalue⟩ := Option.ne_none_iff_exists'.1 (meaning_ne_none hmem hown)
  rw [meaning_cons, hvalue, Option.some_or]

/-- Where no updated key is assigned again, an update whose value is read in the new file reads back on its own. -/
theorem readsBack_of_meaning (hnodup : (remaining.map Prod.fst).Nodup) (hlines : ∀ line ∈ lines, OneLine line)
    (hown : ∀ u ∈ remaining, r.read (envLine u.1 u.2) u.1 ≠ none)
    (halone : ∀ u ∈ remaining, r.read (envLine u.1 u.2) u.1 = some (strippedValue u.2) → ReadsBack r u)
    (hstale : ∀ u ∈ remaining, r.stale lines u.1 = none)
    (hmeaning : ∀ u ∈ remaining, meaning r ((mergeLines remaining lines).1 ++
      (mergeLines remaining lines).2.map fun u => envLine u.1 u.2) u.1 = some (strippedValue u.2)) :
    ∀ u ∈ remaining, ReadsBack r u := by
  induction lines generalizing remaining with
  | nil =>
      clear hstale
      induction remaining with
      | nil =>
          simp
      | cons u remaining ih =>
          obtain ⟨hnot, hnodup⟩ := List.nodup_cons.1 hnodup
          have hothers : ∀ u ∈ remaining, ReadsBack r u := by
            refine ih hnodup (fun u hu => hown u (List.mem_cons_of_mem _ hu))
              (fun u hu => halone u (List.mem_cons_of_mem _ hu)) fun u' hu' => ?_
            rw [← hmeaning u' (List.mem_cons_of_mem _ hu')]
            exact (meaning_behind (List.mem_map_of_mem (f := fun u => envLine u.1 u.2) hu')
              (hown u' (List.mem_cons_of_mem _ hu'))).symm
          refine List.forall_mem_cons.2 ⟨?_, hothers⟩
          refine readsBack_last ?_ (halone u List.mem_cons_self) (hmeaning u List.mem_cons_self)
          rw [meaning_appended hothers hnodup, lookup_none_of_not_mem hnot]
          rfl
  | cons line lines ih =>
      obtain ⟨hline, hlines⟩ := List.forall_mem_cons.1 hlines
      -- the updates behind the line, where it is not one of them
      have hbehind : ∀ {line' : List Char} {out : List (List Char)}, out = (mergeLines remaining lines).1 ++
            (mergeLines remaining lines).2.map (fun u => envLine u.1 u.2) →
          (∀ u ∈ remaining, envKey line ≠ some u.1) →
          (∀ u ∈ remaining, meaning r (line' :: out) u.1 = some (strippedValue u.2)) →
          ∀ u ∈ remaining, ReadsBack r u := by
        rintro line' out rfl hne hmeaning
        refine ih hnodup hlines hown halone (fun u hu => ?_) fun u hu => ?_
        · rw [← stale_cons_of_ne (hne u hu)]
          exact hstale u hu
        · rw [← hmeaning u hu]
          exact (meaning_behind (mem_merged hnodup hu) (hown u hu)).symm
      rw [mergeLines] at hmeaning
      cases hkey : envKey line with
      | none =>
          rw [hkey] at hmeaning
          exact hbehind rfl (by simp [hkey]) hmeaning
      | some other =>
          rw [hkey] at hmeaning
          dsimp only at hmeaning
          cases hother : remaining.lookup other with
          | none =>
              rw [hother] at hmeaning
              refine hbehind rfl (fun u hu heq => ?_) hmeaning
              have hne := List.lookup_eq_none_iff.1 hother u hu
              rw [hkey, Option.some_inj] at heq
              simp [heq] at hne
          | some new =>
              rw [hother] at hmeaning
              have hsub : ∀ u ∈ remaining.filter (fun u => u.1 ≠ other), u ∈ remaining := fun u hu =>
                List.mem_of_mem_filter hu
              have hnodup' : ((remaining.filter fun u => u.1 ≠ other).map Prod.fst).Nodup :=
                hnodup.sublist (List.filter_sublist.map _)
              have hmem : (other, new) ∈ remaining := mem_of_lookup hother
              have hothers : ∀ u ∈ remaining.filter (fun u => u.1 ≠ other), ReadsBack r u := by
                refine ih hnodup' hlines (fun u hu => hown u (hsub u hu)) (fun u hu => halone u (hsub u hu))
                  (fun u hu => ?_) fun u hu => ?_
                · have hne : envKey line ≠ some u.1 := by
                    rw [hkey]
                    exact fun heq => absurd (Option.some_inj.1 heq).symm (by simpa using (List.mem_filter.1 hu).2)
                  rw [← stale_cons_of_ne hne]
                  exact hstale u (hsub u hu)
                · rw [← hmeaning u (hsub u hu)]
                  exact (meaning_behind (mem_merged hnodup' hu) (hown u (hsub u hu))).symm
              have hlast : ReadsBack r (other, new) := by
                refine readsBack_last ?_ (halone _ hmem) (hmeaning _ hmem)
                have hnone := hstale _ hmem
                rw [stale_cons_self hkey] at hnone
                refine (meaning_merged hothers hnodup' hlines).trans ?_
                rw [lookup_filter_ne, if_pos rfl]
                exact hnone
              intro u hu
              obtain rfl | hu := mem_others hnodup hother hu
              · exact hlast
              · exact hothers u hu

end Masking

/-! ### The reader of the repository -/

theorem isKeyChar_bounds {c : Char} (h : isKeyChar c = true) : 48 ≤ c.toNat ∧ c.toNat ≤ 95 ∧ c ≠ '=' := by
  have hle : ∀ {a b : Char}, a ≤ b → a.toNat ≤ b.toNat := fun h => h
  simp only [isKeyChar, isUpperLetter, Bool.or_eq_true, Bool.and_eq_true, decide_eq_true_eq, beq_iff_eq] at h
  obtain (⟨hlow, hhigh⟩ | ⟨hlow, hhigh⟩) | rfl := h
  · have hlow := hle hlow
    have hhigh := hle hhigh
    have hne : c ≠ '=' := by
      rintro rfl
      exact absurd hlow (by decide)
    simp only [Char.reduceToNat] at hlow hhigh
    exact ⟨by omega, by omega, hne⟩
  · have hlow := hle hlow
    have hhigh := hle hhigh
    have hne : c ≠ '=' := by
      rintro rfl
      exact absurd hhigh (by decide)
    simp only [Char.reduceToNat] at hlow hhigh
    exact ⟨by omega, by omega, hne⟩
  · exact ⟨by decide, by decide, by decide⟩

theorem isKeyChar_not_space {c : Char} (h : isKeyChar c = true) : Text.isSpace c = false := by
  have hbounds := isKeyChar_bounds h
  simp only [Text.isSpace, Bool.or_eq_false_iff, Bool.and_eq_false_iff, decide_eq_false_iff_not, beq_eq_false_iff_ne]
  omega

theorem isKeyChar_not_break {c : Char} (h : isKeyChar c = true) : isFileBreak c = false := by
  have hbounds := isKeyChar_bounds h
  by_contra hbreak
  rw [Bool.not_eq_false, isFileBreak, Bool.or_eq_true, beq_iff_eq, beq_iff_eq] at hbreak
  obtain rfl | rfl := hbreak
  · exact absurd hbounds.1 (by decide)
  · exact absurd hbounds.1 (by decide)

theorem isEnvKey_all {key : List Char} (h : isEnvKey key = true) : ∀ c ∈ key, isKeyChar c = true := by
  cases key with
  | nil =>
      simp
  | cons c rest =>
      rw [isEnvKey, Bool.and_eq_true, List.all_eq_true] at h
      refine List.forall_mem_cons.2 ⟨?_, h.2⟩
      rw [isKeyChar, h.1]
      rfl

theorem envAssignment_envLine {key : List Char} (hkey : isEnvKey key = true) (value : List Char) :
    envAssignment (envLine key value) = some (key, value) := by
  have hall := isEnvKey_all hkey
  have hbody : (envLine key value).dropWhile Text.isSpace = envLine key value := by
    cases key with
    | nil =>
        cases hkey
    | cons c rest =>
        rw [envLine, List.cons_append, List.dropWhile_cons_of_neg]
        simp [isKeyChar_not_space (hall c List.mem_cons_self)]
  have hname : (envLine key value).takeWhile isKeyChar = key := by
    rw [envLine, List.takeWhile_append_of_pos hall, List.takeWhile_cons_of_neg (by decide), List.append_nil]
  have hrest : (envLine key value).dropWhile isKeyChar = '=' :: value := by
    rw [envLine, List.dropWhile_append_of_pos hall, List.dropWhile_cons_of_neg (by decide)]
  simp only [envAssignment, hbody, hname, hrest, hkey, if_true]

theorem envAssignment_eq {line key value : List Char} (h : envAssignment line = some (key, value)) :
    isEnvKey key = true ∧ envLine key value <:+ line := by
  have hbody : line.dropWhile Text.isSpace <:+ line := List.dropWhile_suffix _
  have hsplit := List.takeWhile_append_dropWhile (p := isKeyChar) (l := line.dropWhile Text.isSpace)
  simp only [envAssignment] at h
  split at h
  · rename_i hkey
    split at h
    · rename_i rest hrest
      rw [Option.some_inj, Prod.mk.injEq] at h
      obtain ⟨rfl, rfl⟩ := h
      refine ⟨hkey, ?_⟩
      rw [hrest] at hsplit
      rw [envLine, hsplit]
      exact hbody
    · cases h
  · cases h

/-- `read_key_presence`, with the value that it looks at: what is behind the equals sign, stripped. -/
def fileReader : EnvReader where
  assign line := (envAssignment line).map fun x => (x.1, strippedValue x.2)
  assign_empty := by decide
  assign_key line key hkey x hx := by
    rw [envKey] at hkey
    obtain ⟨assignment, hassignment, rfl⟩ := Option.map_eq_some_iff.1 hkey
    rw [hassignment] at hx
    obtain rfl : (assignment.1, strippedValue assignment.2) = x := by simpa using hx
    rfl

section FileReader

variable {key value : List Char}

theorem lastValue_mem {xs : List (List Char × List Char)} (h : lastValue xs key = some value) : (key, value) ∈ xs :=
  List.mem_reverse.1 (mem_of_lookup h)

/-- What a line of the file says: a well-formed key and a stripped value. -/
theorem fileReader_assign {line : List Char} (h : fileReader.assign line = some (key, value)) :
    isEnvKey key = true ∧ ∃ rest, envLine key rest <:+ line ∧ value = strippedValue rest := by
  obtain ⟨⟨key', rest⟩, hassignment, heq⟩ := Option.map_eq_some_iff.1 h
  rw [Prod.mk.injEq] at heq
  obtain ⟨rfl, rfl⟩ := heq
  obtain ⟨hkey, hsuffix⟩ := envAssignment_eq hassignment
  exact ⟨hkey, rest, hsuffix, rfl⟩

/-- Only well-formed keys are read. -/
theorem fileReader_key {text : List Char} (h : fileReader.read text key = some value) : isEnvKey key = true := by
  obtain ⟨line, -, hassign⟩ := List.mem_filterMap.1 (lastValue_mem h)
  exact (fileReader_assign hassign).1

/-- What the line of a well-formed key says first, and what may come behind it. -/
theorem fileReader_assignments (hkey : isEnvKey key = true) (value : List Char) :
    ∃ (front back : List Char) (lines : List (List Char)), value = front ++ back ∧ (∀ line ∈ lines, line <:+: back) ∧
      fileReader.assignments (envLine key value) = (key, strippedValue front) :: lines.filterMap fileReader.assign := by
  have hone : OneLineBy isFileBreak (key ++ ['=']) := by
    intro c hc
    obtain hc | hc := List.mem_append.1 hc
    · exact isKeyChar_not_break (isEnvKey_all hkey c hc)
    · obtain rfl := List.mem_singleton.1 hc
      rfl
  obtain ⟨front, back, lines, hvalue, hlines, hpiece⟩ := linesBy_first isFileBreak_breaks hone (by simp) value
  rw [List.append_assoc, List.append_assoc, List.singleton_append, List.singleton_append] at hlines
  refine ⟨front, back, lines, hvalue, hpiece, ?_⟩
  have hfirst : fileReader.assign (envLine key front) = some (key, strippedValue front) := by
    change (envAssignment (envLine key front)).map _ = _
    rw [envAssignment_envLine hkey]
    rfl
  change (linesBy isFileBreak (key ++ '=' :: value)).filterMap fileReader.assign = _
  rw [hlines]
  exact List.filterMap_cons_some hfirst

/-- The line of a well-formed key gives it some value. -/
theorem fileReader_own (hkey : isEnvKey key = true) (value : List Char) :
    fileReader.read (envLine key value) key ≠ none := by
  obtain ⟨front, back, lines, -, -, hassignments⟩ := fileReader_assignments hkey value
  rw [EnvReader.read, hassignments, ← List.singleton_append, lastValue_append]
  intro hnone
  have hfirst := (Option.or_eq_none_iff.1 hnone).2
  simp [lastValue] at hfirst

/-- How many characters are no white space. -/
def inked (text : List Char) : Nat :=
  text.countP fun c => !Text.isSpace c

/-- A line that reads back its value says nothing else: what would be said behind it is shorter than the value. -/
theorem fileReader_alone (hkey : isEnvKey key = true)
    (hread : fileReader.read (envLine key value) key = some (strippedValue value)) :
    ReadsBack fileReader (key, value) := by
  obtain ⟨front, back, lines, rfl, hpiece, hassignments⟩ := fileReader_assignments hkey value
  have hinked : ∀ text, inked (strippedValue text) = inked text := countP_stripWhere Text.isSpace
  have happend : inked (front ++ back) = inked front + inked back := List.countP_append
  have hline : ∀ key rest, inked rest < inked (envLine key rest) := by
    intro key rest
    have hequals : inked ('=' :: rest) = inked rest + 1 := List.countP_cons_of_pos (by decide)
    have hsplit : inked (envLine key rest) = inked key + inked ('=' :: rest) := List.countP_append
    omega
  have hbehind : ∀ line ∈ lines, inked line ≤ inked back := fun line hmem => (hpiece line hmem).sublist.countP_le
  rw [EnvReader.read, hassignments, ← List.singleton_append, lastValue_append] at hread
  have hfirst : lastValue [(key, strippedValue front)] key = some (strippedValue front) := by
    simp [lastValue]
  -- the value is not said behind the first line
  have hlater : lastValue (lines.filterMap fileReader.assign) key = none := by
    cases hlater : lastValue (lines.filterMap fileReader.assign) key with
    | none =>
        rfl
    | some value =>
        rw [hlater, Option.some_or, Option.some_inj] at hread
        obtain ⟨line, hmem, hassign⟩ := List.mem_filterMap.1 (lastValue_mem hlater)
        obtain ⟨-, rest, hsuffix, hrest⟩ := fileReader_assign hassign
        have hlt := hline key rest
        have hle : inked (envLine key rest) ≤ inked line := hsuffix.sublist.countP_le
        have hback := hbehind line hmem
        have heq : inked rest = inked (front ++ back) := by
          rw [← hinked rest, ← hrest, hread, hinked]
        omega
  -- what is behind it is blank
  rw [hlater, Option.none_or, hfirst, Option.some_inj] at hread
  have hblank : inked back = 0 := by
    have heq : inked front = inked (front ++ back) := by
      rw [← hinked front, hread, hinked]
    omega
  have hnothing : lines.filterMap fileReader.assign = [] := by
    rw [List.filterMap_eq_nil_iff]
    intro line hmem
    cases hassign : fileReader.assign line with
    | none =>
        rfl
    | some x =>
        obtain ⟨-, rest, hsuffix, -⟩ := fileReader_assign hassign
        have hlt := hline x.1 rest
        have hle : inked (envLine x.1 rest) ≤ inked line := hsuffix.sublist.countP_le
        have hback := hbehind line hmem
        omega
  intro key'
  change lastValue (fileReader.assignments (envLine key (front ++ back))) key' = _
  rw [hassignments, hnothing, hread]
  by_cases heq : key' = key
  · subst heq
    simp [lastValue]
  · simp [lastValue, heq]

/-- A value on one line reads back. -/
theorem readsBack_of_oneLine (hkey : isEnvKey key = true) (hvalue : OneLineBy isFileBreak value) :
    ReadsBack fileReader (key, value) := by
  have hline : OneLineBy isFileBreak (envLine key value) := by
    intro c hc
    obtain hc | hc := List.mem_append.1 hc
    · exact isKeyChar_not_break (isEnvKey_all hkey c hc)
    · obtain rfl | hc := List.mem_cons.1 hc
      · rfl
      · exact hvalue c hc
  apply fileReader_alone hkey
  rw [EnvReader.read, EnvReader.assignments, linesBy_oneLine isFileBreak_breaks hline (by simp [envLine])]
  have hassign : fileReader.assign (envLine key value) = some (key, strippedValue value) := by
    change (envAssignment (envLine key value)).map _ = _
    rw [envAssignment_envLine hkey]
    rfl
  rw [List.filterMap_cons_some hassign]
  simp [lastValue]

end FileReader

/-! ### The merge -/

section Merge

variable {r : EnvReader} {clean : List (List Char × List Char)} {existing key : List Char} {u : List Char × List Char}

theorem lookup_of_mem (hnodup : (clean.map Prod.fst).Nodup) (h : u ∈ clean) : clean.lookup u.1 = some u.2 := by
  cases hlookup : clean.lookup u.1 with
  | none =>
      have hne := List.lookup_eq_none_iff.1 hlookup u h
      simp at hne
  | some value =>
      have heq : u = (u.1, value) := List.inj_on_of_nodup_map hnodup h (mem_of_lookup hlookup) rfl
      exact congrArg some (congrArg Prod.snd heq).symm

/-- The merged lines mean the old text overridden by the updates, where every update reads back, exactly when the
updates may replace what is there. -/
theorem merged_overrides_iff (hread : ∀ u ∈ clean, ReadsBack r u) (hnodup : (clean.map Prod.fst).Nodup) :
    (∀ key, meaning r (mergedLines existing clean) key =
      match clean.lookup key with
      | some value => some (strippedValue value)
      | none => r.read existing key) ↔ Replaceable r existing clean := by
  have hmerged : ∀ key, meaning r (mergedLines existing clean) key = _ := fun key =>
    meaning_merged hread hnodup fun line hline => (mem_splitlines hline).1
  constructor
  · intro h
    refine ⟨fun u hu value hvalue => ?_, fun key hkey => ?_⟩
    · have heq := (hmerged u.1).symm.trans (h u.1)
      rw [lookup_of_mem hnodup hu] at heq
      dsimp only at heq
      rw [hvalue, Option.some_or, Option.some_inj] at heq
      exact heq
    · have heq := (hmerged key).symm.trans (h key)
      rw [hkey] at heq
      exact heq
  · intro h key
    rw [hmerged key]
    cases hlookup : clean.lookup key with
    | none =>
        exact h.separators key hlookup
    | some value =>
        dsimp only
        cases hstale : r.stale (splitlines existing) key with
        | none =>
            rfl
        | some old =>
            rw [h.fresh (key, value) (mem_of_lookup hlookup) old hstale]
            rfl

/-- In a file where no updated key is assigned again, they do so only if every update reads back. -/
theorem readsBack_of_overrides (hnodup : (clean.map Prod.fst).Nodup)
    (hstale : ∀ u ∈ clean, fileReader.stale (splitlines existing) u.1 = none)
    (h : ∀ key, meaning fileReader (mergedLines existing clean) key =
      match clean.lookup key with
      | some value => some (strippedValue value)
      | none => fileReader.read existing key) :
    ∀ u ∈ clean, ReadsBack fileReader u := by
  have hvalue : ∀ u ∈ clean, meaning fileReader (mergedLines existing clean) u.1 = some (strippedValue u.2) := by
    intro u hu
    rw [h u.1, lookup_of_mem hnodup hu]
  have hkey : ∀ u ∈ clean, isEnvKey u.1 = true := fun u hu => by
    have hread := hvalue u hu
    rw [← read_joined] at hread
    exact fileReader_key hread
  exact readsBack_of_meaning hnodup (fun line hline => (mem_splitlines hline).1)
    (fun u hu => fileReader_own (hkey u hu) u.2) (fun u hu => fileReader_alone (hkey u hu)) hstale hvalue

/-- In a text with no separators but the ends of lines, a key may be replaced that is not assigned again. -/
theorem replaceable_of_plain (hplain : ∀ c ∈ existing, isBreak c = true → isFileBreak c = true)
    (hstale : ∀ u ∈ clean, r.stale (splitlines existing) u.1 = none) : Replaceable r existing clean := by
  have hlines : splitlines existing = linesBy isFileBreak existing := by
    apply linesBy_congr
    intro c hc
    by_cases hfile : isFileBreak c = true
    · rw [hfile]
      rw [isFileBreak, Bool.or_eq_true, beq_iff_eq, beq_iff_eq] at hfile
      obtain rfl | rfl := hfile
      · exact isBreak_breaks.lf
      · exact isBreak_breaks.cr
    · rw [Bool.eq_false_iff.2 hfile, Bool.eq_false_iff]
      exact fun hbreak => hfile (hplain c hc hbreak)
  refine ⟨fun u hu value hvalue => ?_, fun key _ => ?_⟩
  · rw [hstale u hu] at hvalue
    cases hvalue
  · rw [hlines]
    rfl

theorem readFile_getD (r : EnvReader) (file : Option (List Char)) (key : List Char) :
    r.readFile file key = r.read (file.getD []) key := by
  cases file with
  | none =>
      rfl
  | some text =>
      rfl

end Merge

/-- One update. -/
def EnvUpdates.single (key value : String) : EnvUpdates where
  items := [(key.toList, value.toList)]
  nodup := List.nodup_singleton _

end ProjectManager
