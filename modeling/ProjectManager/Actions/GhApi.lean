import ProjectManager.Actions.Mediation

/-!
# Writes by `gh api`

What a command line of `gh api` asks for, by the grammar of its flags, beside what the policy finds in its tokens.
`gh_api_writes_blocked` says when a write is blocked: the policy reads the first token that looks like a method option,
and sees a field flag only where it is a token of its own.
-/

namespace ProjectManager

open Text

/-! ### The command line -/

/-- An option of a `gh api` command line: a method, a field of the body, or another one. -/
inductive ApiOption where
  | method (verb : String)
  | field (text : String)
  | other (text : String)
deriving DecidableEq

/-- The verb of a method option. -/
def ApiOption.verb? : ApiOption → Option String
  | .method verb => some verb
  | _ => none

/-- An option that gives the body a field. -/
def ApiOption.isField : ApiOption → Bool
  | .field _ => true
  | _ => false

/-- How a token stands: it ends the options, is an option by itself, or takes the next token as its value. -/
inductive ApiToken where
  | dashes
  | whole (option : ApiOption)
  | takes (option : String → ApiOption)

/-- The text after the first characters. -/
def dropText (tok : String) (n : ℕ) : String :=
  String.ofList (tok.toList.drop n)

/-- The flags that give the body a field. -/
def bodyFlags : List String :=
  ["-f", "-F", "--field", "--raw-field", "--input"]

/-- A field flag with its value in the same token. -/
def gluedField (tok : String) : Bool :=
  startsWith tok "-f" || startsWith tok "-F" || startsWith tok "--field=" || startsWith tok "--raw-field=" ||
    startsWith tok "--input="

/-- How a token is read, given the other flags that take a value. -/
def apiToken (valued : List String) (tok : String) : ApiToken :=
  if tok = "--" then .dashes
  else if tok = "-X" ∨ tok = "--method" then .takes .method
  else if startsWith tok "--method=" then .whole (.method (dropText tok 9))
  else if startsWith tok "-X=" then .whole (.method (dropText tok 3))
  else if startsWith tok "-X" then .whole (.method (dropText tok 2))
  else if tok ∈ bodyFlags then .takes .field
  else if gluedField tok then .whole (.field tok)
  else if tok ∈ valued then .takes .other
  else .whole (.other tok)

/-- A command line: its options with their tokens, and the tokens from `--` on. -/
structure ApiLine where
  pieces : List (ApiOption × List String)
  rest : List String
deriving DecidableEq

/-- A command line with one more option in front. -/
def ApiLine.cons (piece : ApiOption × List String) (line : ApiLine) : ApiLine :=
  ⟨piece :: line.pieces, line.rest⟩

/-- The tokens after `api` as a command line; a last flag without its value is refused. -/
def parseApi (valued : List String) : List String → Option ApiLine
  | [] => some ⟨[], []⟩
  | tok :: rest =>
      match apiToken valued tok with
      | .dashes => some ⟨[], tok :: rest⟩
      | .whole option => (parseApi valued rest).map (ApiLine.cons (option, [tok]))
      | .takes option =>
          match rest with
          | [] => none
          | value :: rest => (parseApi valued rest).map (ApiLine.cons (option value, [tok, value]))

/-- The verbs of the method options. -/
def ApiLine.verbs (line : ApiLine) : List String :=
  line.pieces.filterMap fun piece => piece.1.verb?

/-- The method of the request: that of the last method option, and else `POST` when there are fields. -/
def ApiLine.method (line : ApiLine) : String :=
  line.verbs.getLast?.getD (if line.pieces.any fun piece => piece.1.isField then "POST" else "GET")

/-- The ASCII lower case. -/
def asciiLower (s : String) : String :=
  String.ofList (s.toList.map Char.toLower)

/-- All characters are ASCII. -/
def asciiText (s : String) : Bool :=
  s.toList.all fun c => decide (c.toNat < 128)

/-- `POST`, `PUT`, `PATCH` or `DELETE`, in any case of its letters. -/
def MutatingVerb (verb : String) : Prop :=
  asciiLower verb ∈ ["post", "put", "patch", "delete"]

/-- The request is a write. -/
def ApiLine.Writes (line : ApiLine) : Prop :=
  MutatingVerb line.method

instance (verb : String) : Decidable (MutatingVerb verb) :=
  inferInstanceAs (Decidable (_ ∈ _))

instance (line : ApiLine) : Decidable line.Writes :=
  inferInstanceAs (Decidable (MutatingVerb _))

/-- The tokens after `api` denote a write. -/
def GhWrites (valued args : List String) : Prop :=
  ∃ line, parseApi valued args = some line ∧ line.Writes

/-- The tokens of a command line are those of its options and the rest. -/
theorem parseApi_tokens {valued args : List String} {line : ApiLine} (h : parseApi valued args = some line) :
    args = line.pieces.flatMap (fun piece => piece.2) ++ line.rest := by
  fun_induction parseApi valued args generalizing line with
  | case1 =>
      cases h
      rfl
  | case2 tok rest hdashes =>
      cases h
      rfl
  | case3 tok rest option hwhole ih =>
      obtain ⟨line', hline', rfl⟩ := Option.map_eq_some_iff.1 h
      have htokens := ih hline'
      simp [ApiLine.cons, ← htokens]
  | case4 tok option htakes =>
      cases h
  | case5 tok option value rest htakes ih =>
      obtain ⟨line', hline', rfl⟩ := Option.map_eq_some_iff.1 h
      have htokens := ih hline'
      simp [ApiLine.cons, ← htokens]

/-! ### What the policy reads -/

/-- A token, in lower case, at which the policy stops to read a method. -/
def looksLikeMethod (tok : String) : Bool :=
  tok == "--method" || startsWith tok "--method=" || startsWith tok "-x"

/-- The method that is read at the first of the tokens. -/
def carried : List String → Option String
  | [] => none
  | tok :: back =>
      if tok = "-x" ∨ tok = "--method" then back.head?
      else if startsWith tok "--method=" then some (dropText tok 9)
      else some (dropText tok 2)

theorem longer_of_startsWith {tok p : String} (h : startsWith tok p = true) (hne : tok ≠ p) : p.length < tok.length := by
  obtain ⟨more, hmore⟩ := startsWith_iff.1 h
  rw [← String.length_toList, ← String.length_toList, ← hmore, List.length_append]
  have hpos : 0 < more.length := by
    rw [List.length_pos_iff]
    rintro rfl
    rw [List.append_nil] at hmore
    exact hne (String.toList_inj.1 hmore).symm
  omega

/-- A token that looks like no method option is passed over. -/
theorem explicitHttpMethod_quiet {tok : String} {rest : List String} (h : looksLikeMethod tok = false) :
    explicitHttpMethod (tok :: rest) = explicitHttpMethod rest := by
  unfold looksLikeMethod at h
  rw [Bool.or_eq_false_iff, Bool.or_eq_false_iff] at h
  obtain ⟨⟨hlong, hequals⟩, hshort⟩ := h
  have hexact : ¬ ((tok = "-x" ∨ tok = "--method") ∧ rest ≠ []) := by
    rintro ⟨rfl | rfl, -⟩
    · revert hshort
      decide
    · revert hlong
      decide
  rw [explicitHttpMethod, if_neg hexact, if_neg (by simp [hequals]), if_neg (by simp [hshort])]

/-- The method is read at the first token that looks like a method option. -/
theorem explicitHttpMethod_eq (argv : List String) :
    explicitHttpMethod argv = carried (argv.dropWhile fun tok => !looksLikeMethod tok) := by
  induction argv with
  | nil =>
      rfl
  | cons tok rest ih =>
      cases hlooks : looksLikeMethod tok with
      | false =>
          rw [explicitHttpMethod_quiet hlooks, ih, List.dropWhile_cons_of_pos (by simp [hlooks])]
      | true =>
          rw [List.dropWhile_cons_of_neg (by simp [hlooks]), carried]
          by_cases hexact : tok = "-x" ∨ tok = "--method"
          · rw [if_pos hexact]
            cases rest with
            | nil =>
                rcases hexact with rfl | rfl <;> decide
            | cons value back =>
                rw [explicitHttpMethod, if_pos ⟨hexact, by simp⟩]
          · rw [if_neg hexact, explicitHttpMethod, if_neg fun h => hexact h.1]
            split
            · rfl
            · rename_i hequals
              rw [not_or] at hexact
              have hshort : startsWith tok "-x" = true := by
                simpa [looksLikeMethod, hexact.2, hequals] using hlooks
              have hlong : 2 < tok.length := longer_of_startsWith hshort hexact.1
              rw [if_pos ⟨hshort, hlong⟩]
              rfl

/-- Another red line than the one on writes by `gh api`. -/
def OtherRedLine (py : Python) (a : Action) : Prop :=
  let argv := argvLower py a
  let joined := " ".intercalate argv
  (credentialVerdict py (.list (argv.map .str))).isSome ∨ (argv.any fun flag => ghDangerousFlags.contains flag) ∨
    ((contains joined "--visibility" && contains joined "public") || argv.contains "public") ∨
      (argv.contains "push" && (contains joined "--force" || argv.contains "-f" ||
        argv.any (fun tok => startsWith tok "+") || argv.contains "--force-with-lease"))

/-- The first token that looks like a method option carries a mutating verb; or a field flag is a token of its own, and
the first token that looks like a method option carries no read verb. -/
def ShowsWrite (py : Python) (args : List String) : Prop :=
  let method := carried ((args.map py.lower).dropWhile fun tok => !looksLikeMethod tok)
  (∃ verb ∈ method, verb ∈ httpMutatingVerbs) ∨
    (∃ tok ∈ args, tok ∈ ghApiFieldFlags) ∧ ∀ verb ∈ method, verb ∉ httpReadVerbs

/-! ### What is blocked -/

section Blocked

variable {py : Python} {files : FileView} {allowlist : Option (List (String × List String))} {root : Option String}
  {a : Action} {args : List String}

/-- What is documented of `str.lower`: on ASCII texts it is the ASCII lower case. -/
def LowersAscii (py : Python) : Prop :=
  ∀ s : String, asciiText s = true → py.lower s = asciiLower s

theorem argvLower_eq : argvLower py a = (argvRaw py a).map py.lower := by
  unfold argvLower argvRaw
  split
  · rw [List.map_map]
    rfl
  · rfl

theorem ghApiVerdict_isSome (hapi : py.lower "api" = "api") :
    (ghApiVerdict py ("api" :: args)).isSome ↔ ShowsWrite py args := by
  have hmethod : explicitHttpMethod (("api" :: args).map py.lower) =
      carried ((args.map py.lower).dropWhile fun tok => !looksLikeMethod tok) := by
    rw [List.map_cons, hapi, explicitHttpMethod_quiet (by decide), explicitHttpMethod_eq]
  have hfields : (("api" :: args).any fun tok => ghApiFieldFlags.contains tok) = true ↔
      ∃ tok ∈ args, tok ∈ ghApiFieldFlags := by
    rw [List.any_cons, show ghApiFieldFlags.contains "api" = false by decide, Bool.false_or]
    simp
  unfold ghApiVerdict ShowsWrite
  simp only [hmethod]
  generalize carried ((args.map py.lower).dropWhile fun tok => !looksLikeMethod tok) = method
  have hmutates : (method.any fun m => httpMutatingVerbs.contains m) = true ↔
      ∃ verb ∈ method, verb ∈ httpMutatingVerbs := by
    cases method <;> simp
  have hreads : (method.any fun m => httpReadVerbs.contains m) = true ↔ ∃ verb ∈ method, verb ∈ httpReadVerbs := by
    cases method <;> simp
  split
  case isTrue hverb =>
    exact ⟨fun _ => .inl (hmutates.1 hverb), fun _ => rfl⟩
  case isFalse hverb =>
    split
    case isTrue hfield =>
      exact ⟨fun _ => .inr ⟨hfields.1 hfield.1, fun verb hm hread => hfield.2 (hreads.2 ⟨verb, hm, hread⟩)⟩, fun _ => rfl⟩
    case isFalse hfield =>
      constructor
      · intro hsome
        cases hsome
      · rintro (hshows | ⟨htok, hquiet⟩)
        · exact absurd (hmutates.2 hshows) hverb
        · refine absurd ⟨hfields.2 htok, fun hread => ?_⟩ hfield
          obtain ⟨verb, hm, hmem⟩ := hreads.1 hread
          exact hquiet verb hm hmem

/-- A red line is drawn when another one is, or the write shows. -/
theorem hardDenyGh_isSome (hapi : py.lower "api" = "api") (hargv : argvRaw py a = "api" :: args) :
    (hardDenyGh py a).isSome ↔ OtherRedLine py a ∨ ShowsWrite py args := by
  have hlower : argvLower py a = "api" :: args.map py.lower := by
    rw [argvLower_eq, hargv, List.map_cons, hapi]
  have hbegins : matchesAnyBegin (argvLower py a) ghDataLossBegins = false := by
    rw [hlower]
    rfl
  have hfirst : ["api"].isPrefixOf (argvLower py a) = true := by
    rw [hlower]
    rfl
  have hlast : ∀ (p q : Bool) (v v' : BlockVerdict),
      (if p = true then some v else if q = true then some v' else none).isSome = true ↔ p = true ∨ q = true := by
    intro p q v v'
    cases p <;> cases q <;> simp
  unfold hardDenyGh OtherRedLine
  simp only [hbegins, hfirst, hargv, if_true, Bool.false_eq_true, if_false]
  rw [← ghApiVerdict_isSome hapi, Option.isSome_or, Bool.or_eq_true]
  split
  case isTrue hforce =>
    exact ⟨fun _ => .inl (.inr (.inl hforce)), fun _ => .inr rfl⟩
  case isFalse hforce =>
    rw [Option.isSome_or, Bool.or_eq_true, hlast]
    tauto

theorem ghApiVerdict_blocks {argv : List String} {v : BlockVerdict} (h : ghApiVerdict py argv = some v) :
    v.blocked = true := by
  unfold ghApiVerdict at h
  dsimp only at h
  split at h
  · cases h
    rfl
  · split at h
    · cases h
      rfl
    · cases h

/-- Every verdict of the red line blocks. -/
theorem hardDenyGh_blocks {v : BlockVerdict} (h : hardDenyGh py a = some v) : v.blocked = true := by
  unfold hardDenyGh at h
  rcases Option.or_eq_some_iff.1 h with hcred | ⟨-, h⟩
  · obtain ⟨_, -, rfl⟩ := Option.map_eq_some_iff.1 hcred
    rfl
  · split at h
    · cases h
      rfl
    · split at h
      · cases h
        rfl
      · rcases Option.or_eq_some_iff.1 h with hwrite | ⟨-, h⟩
        · split at hwrite
          · exact ghApiVerdict_blocks hwrite
          · cases hwrite
        · split at h
          · cases h
            rfl
          · split at h
            · cases h
              rfl
            · cases h

/-- A command line of `gh api` is blocked exactly when a red line is drawn, as it is on the allowlist. -/
theorem classify_blocked (hapi : py.lower "api" = "api") (htype : a.type py = "gh_cli")
    (hargv : argvRaw py a = "api" :: args) :
    (classify py files allowlist root a).blocked = true ↔ OtherRedLine py a ∨ ShowsWrite py args := by
  rw [← hardDenyGh_isSome hapi hargv]
  have hallowed : allowlistedGh py a = true := by
    unfold allowlistedGh
    rw [argvLower_eq, hargv, List.map_cons, hapi]
    rfl
  unfold classify
  simp only [htype, show ("gh_cli" : String) ≠ "mcp_tool" by decide, if_false, if_true, hallowed, denyByDefault]
  cases hdeny : hardDenyGh py a with
  | none =>
      simp [BlockVerdict.allow]
  | some v =>
      simp [hardDenyGh_blocks hdeny]

/-! ### Plain command lines -/

/-- A command line as the policy expects it: one method option at most, not given as `-X=V`; no other token looks like a
method option; and if there are fields, one has its flag in a token of its own. -/
structure Plain (py : Python) (line : ApiLine) : Prop where
  once : line.verbs.length ≤ 1
  spelled : ∀ piece ∈ line.pieces, ∀ verb, piece.1 = .method verb →
    piece.2 ∈ [["-X", verb], ["--method", verb], ["--method=" ++ verb], ["-X" ++ verb]]
  quiet : ∀ piece ∈ line.pieces, piece.1.verb? = none → ∀ tok ∈ piece.2, looksLikeMethod (py.lower tok) = false
  quietRest : ∀ tok ∈ line.rest, looksLikeMethod (py.lower tok) = false
  apart : (∃ piece ∈ line.pieces, piece.1.isField = true) → ∃ piece ∈ line.pieces, ∃ tok ∈ piece.2, tok ∈ ghApiFieldFlags

theorem toLower_ascii {c : Char} (h : c.toLower.toNat < 128) : c.toNat < 128 := by
  unfold Char.toLower at h
  split at h
  case isTrue hupper =>
    have hle : c.toNat ≤ 90 := UInt32.le_iff_toNat_le.1 hupper.2
    omega
  case isFalse _ =>
    exact h

theorem asciiLower_append (s t : String) : asciiLower (s ++ t) = asciiLower s ++ asciiLower t := by
  unfold asciiLower
  rw [String.toList_append, List.map_append, String.ofList_append]

theorem asciiText_append {s t : String} (hs : asciiText s = true) (ht : asciiText t = true) :
    asciiText (s ++ t) = true := by
  unfold asciiText at *
  rw [String.toList_append, List.all_append, hs, ht]
  rfl

theorem MutatingVerb.ascii {verb : String} (h : MutatingVerb verb) : asciiText verb = true := by
  have hall : (["post", "put", "patch", "delete"].all asciiText) = true := by decide
  have hlower : asciiText (asciiLower verb) = true := List.all_eq_true.1 hall _ h
  unfold asciiText asciiLower at hlower
  rw [String.toList_ofList, List.all_map] at hlower
  refine List.all_eq_true.2 fun c hc => decide_eq_true (toLower_ascii ?_)
  exact of_decide_eq_true (List.all_eq_true.1 hlower c hc)

theorem lower_append {s verb : String} (hlower : LowersAscii py) (hs : asciiText s = true) (hverb : MutatingVerb verb) :
    py.lower (s ++ verb) = asciiLower s ++ asciiLower verb := by
  rw [hlower _ (asciiText_append hs hverb.ascii), asciiLower_append]

theorem startsWith_append (s t : String) : startsWith (s ++ t) s = true :=
  startsWith_iff.2 ⟨t.toList, (String.toList_append ..).symm⟩

theorem dropText_append (s t : String) : dropText (s ++ t) s.length = t := by
  unfold dropText
  rw [String.toList_append, ← String.length_toList, List.drop_left, String.ofList_toList]

theorem dropWhile_quiet {front : List String} (back : List String) (h : ∀ tok ∈ front, looksLikeMethod (py.lower tok) = false) :
    ((front ++ back).map py.lower).dropWhile (fun tok => !looksLikeMethod tok) =
      (back.map py.lower).dropWhile fun tok => !looksLikeMethod tok := by
  rw [List.map_append, List.dropWhile_append_of_pos]
  intro tok htok
  obtain ⟨tok', htok', rfl⟩ := List.mem_map.1 htok
  simp [h tok' htok']

theorem short_not_equals {tok : String} (h : startsWith tok "-x" = true) : startsWith tok "--method=" = false := by
  cases hequals : startsWith tok "--method=" with
  | false =>
      rfl
  | true =>
      have hmeets := meets_of_begins (startsWith_iff.1 hequals) (startsWith_iff.1 h)
      revert hmeets
      decide

/-- The verb of a method option is carried by its tokens. -/
theorem carried_spelled {tokens back : List String} {verb : String} (hlower : LowersAscii py)
    (hverb : MutatingVerb verb)
    (h : tokens ∈ [["-X", verb], ["--method", verb], ["--method=" ++ verb], ["-X" ++ verb]]) :
    carried (((tokens ++ back).map py.lower).dropWhile fun tok => !looksLikeMethod tok) = some (asciiLower verb) := by
  have hvalue : py.lower verb = asciiLower verb := hlower verb hverb.ascii
  have hshort : py.lower "-X" = "-x" := (hlower "-X" (by decide)).trans (by decide)
  have hlong : py.lower "--method" = "--method" := (hlower "--method" (by decide)).trans (by decide)
  have hequals : py.lower ("--method=" ++ verb) = "--method=" ++ asciiLower verb := lower_append hlower (by decide) hverb
  have hglued : py.lower ("-X" ++ verb) = "-x" ++ asciiLower verb := lower_append hlower (by decide) hverb
  simp only [List.mem_cons, List.not_mem_nil, or_false] at h
  rcases h with rfl | rfl | rfl | rfl
  · simp only [List.cons_append, List.nil_append, List.map_cons, hshort, hvalue]
    rw [List.dropWhile_cons_of_neg (by decide)]
    rfl
  · simp only [List.cons_append, List.nil_append, List.map_cons, hlong, hvalue]
    rw [List.dropWhile_cons_of_neg (by decide)]
    rfl
  · simp only [List.cons_append, List.nil_append, List.map_cons, hequals]
    have hstarts : startsWith ("--method=" ++ asciiLower verb) "--method=" = true := startsWith_append _ _
    have hexact : ¬ ("--method=" ++ asciiLower verb = "-x" ∨ "--method=" ++ asciiLower verb = "--method") := by
      rintro (heq | heq) <;>
      · rw [heq] at hstarts
        revert hstarts
        decide
    rw [List.dropWhile_cons_of_neg (by simp [looksLikeMethod, hstarts]), carried, if_neg hexact, if_pos hstarts]
    exact congrArg some (dropText_append "--method=" (asciiLower verb))
  · simp only [List.cons_append, List.nil_append, List.map_cons, hglued]
    have hstarts : startsWith ("-x" ++ asciiLower verb) "-x" = true := startsWith_append _ _
    have hexact : ¬ ("-x" ++ asciiLower verb = "-x" ∨ "-x" ++ asciiLower verb = "--method") := by
      rintro (heq | heq)
      · have hempty : asciiLower verb = "" := by
          have hlength := congrArg String.length heq
          simpa using hlength
        unfold MutatingVerb at hverb
        rw [hempty] at hverb
        revert hverb
        decide
      · rw [heq] at hstarts
        revert hstarts
        decide
    rw [List.dropWhile_cons_of_neg (by simp [looksLikeMethod, hstarts]), carried, if_neg hexact,
      if_neg (by simp [short_not_equals hstarts])]
    exact congrArg some (dropText_append "-x" (asciiLower verb))

/-- The write of a plain command line shows. -/
theorem Plain.shows {valued : List String} {line : ApiLine} (hlower : LowersAscii py)
    (hline : parseApi valued args = some line) (hplain : Plain py line) (hwrites : line.Writes) : ShowsWrite py args := by
  have htokens := parseApi_tokens hline
  cases hverbs : line.verbs with
  | nil =>
      have hnone : ∀ piece ∈ line.pieces, piece.1.verb? = none := List.filterMap_eq_nil_iff.1 hverbs
      have hquiet : ∀ tok ∈ args, looksLikeMethod (py.lower tok) = false := by
        intro tok htok
        rw [htokens, List.mem_append, List.mem_flatMap] at htok
        rcases htok with ⟨piece, hpiece, hmem⟩ | hrest
        · exact hplain.quiet piece hpiece (hnone piece hpiece) tok hmem
        · exact hplain.quietRest tok hrest
      have hcarried : carried ((args.map py.lower).dropWhile fun tok => !looksLikeMethod tok) = none := by
        have hdrop := dropWhile_quiet [] hquiet
        rw [List.append_nil] at hdrop
        rw [hdrop]
        rfl
      have hfields : ∃ piece ∈ line.pieces, piece.1.isField = true := by
        rw [← List.any_eq_true]
        by_contra hfields
        unfold ApiLine.Writes ApiLine.method at hwrites
        rw [hverbs, Bool.eq_false_iff.2 hfields] at hwrites
        revert hwrites
        decide
      obtain ⟨piece, hpiece, tok, htok, hflag⟩ := hplain.apart hfields
      refine .inr ⟨⟨tok, ?_, hflag⟩, ?_⟩
      · rw [htokens]
        exact List.mem_append_left _ (List.mem_flatMap.2 ⟨piece, hpiece, htok⟩)
      · rw [hcarried]
        exact fun verb hverb => nomatch hverb
  | cons verb more =>
      have honce := hplain.once
      rw [hverbs, List.length_cons] at honce
      cases List.length_eq_zero_iff.1 (by omega : more.length = 0)
      have hmutating : MutatingVerb verb := by
        unfold ApiLine.Writes ApiLine.method at hwrites
        rw [hverbs] at hwrites
        exact hwrites
      obtain ⟨front, piece, back, hpieces, hfront, hpiece, -⟩ := List.filterMap_eq_cons_iff.1 hverbs
      have hmethod : piece.1 = .method verb := by
        cases hoption : piece.1 with
        | method v =>
            rw [hoption] at hpiece
            cases hpiece
            rfl
        | field text =>
            rw [hoption] at hpiece
            cases hpiece
        | other text =>
            rw [hoption] at hpiece
            cases hpiece
      have hquiet : ∀ tok ∈ front.flatMap (fun piece => piece.2), looksLikeMethod (py.lower tok) = false := by
        intro tok htok
        obtain ⟨p, hp, hmem⟩ := List.mem_flatMap.1 htok
        exact hplain.quiet p (by simp [hpieces, hp]) (hfront p hp) tok hmem
      have hspelled := hplain.spelled piece (by simp [hpieces]) verb hmethod
      refine .inl ⟨asciiLower verb, ?_, hmutating⟩
      rw [htokens, hpieces, List.flatMap_append, List.flatMap_cons, List.append_assoc, List.append_assoc,
        dropWhile_quiet _ hquiet]
      exact carried_spelled hlower hmutating hspelled

/-- A write of `gh api` is blocked exactly when another red line is drawn or the write shows; and it shows in every plain
command line. -/
theorem gh_api_writes_blocked (valued : List String) (hlower : LowersAscii py) (htype : a.type py = "gh_cli")
    (hargv : argvRaw py a = "api" :: args) :
    ((GhWrites valued args → (classify py files allowlist root a).blocked = true) ↔
      (GhWrites valued args → OtherRedLine py a ∨ ShowsWrite py args)) ∧
    ∀ line, parseApi valued args = some line → Plain py line → line.Writes →
      (classify py files allowlist root a).blocked = true := by
  have hapi : py.lower "api" = "api" := (hlower "api" (by decide)).trans (by decide)
  have hblocked := @classify_blocked py files allowlist root a args hapi htype hargv
  refine ⟨?_, fun line hline hplain hwrites => hblocked.2 (.inr (hplain.shows hlower hline hwrites))⟩
  rw [hblocked]

end Blocked

/-! ### Command lines that write -/

section Samples

theorem samplePython_lowers : LowersAscii samplePython :=
  fun _ _ => String.map_eq_internal

/-- The flags of `gh api` beside methods and fields that take a value. -/
def sampleValued : List String :=
  ["-H", "--header", "-q", "--jq", "-t", "--template", "-p", "--preview", "--cache", "--hostname"]

/-- An action with a command line. -/
def sampleGhAction (args : List String) : Action :=
  [("type", .str "gh_cli"), ("argv", .list (("api" :: args).map .str))]

/-- A `POST` with its endpoint. -/
def sampleGhLine : ApiLine :=
  ⟨[(.method "POST", ["-X", "POST"]), (.other "repos/o/r/issues", ["repos/o/r/issues"])], []⟩

theorem sampleGhLine_plain : Plain samplePython sampleGhLine where
  once := by decide
  spelled := by
    intro piece hpiece verb hverb
    simp only [sampleGhLine, List.mem_cons, List.not_mem_nil, or_false] at hpiece
    rcases hpiece with rfl | rfl
    · cases hverb
      simp
    · cases hverb
  quiet := by decide +kernel
  quietRest := by decide
  apart := by decide

/-- It is blocked. -/
theorem gh_api_writes_blocked_sample : (classify samplePython sampleGateWorld.files none none
    (sampleGhAction ["-X", "POST", "repos/o/r/issues"])).blocked = true := by
  have hblocked := @gh_api_writes_blocked samplePython sampleGateWorld.files none none
    (sampleGhAction ["-X", "POST", "repos/o/r/issues"]) ["-X", "POST", "repos/o/r/issues"] sampleValued
    samplePython_lowers (by decide +kernel) (by decide)
  exact hblocked.2 sampleGhLine (by decide) sampleGhLine_plain (by decide)

/-- A command line is blocked if it denotes a write. -/
def SampleBlocked (args : List String) : Prop :=
  GhWrites sampleValued args →
    (classify samplePython sampleGateWorld.files none none (sampleGhAction args)).blocked = true

/-- Writes that are not blocked: a field in the token of its flag, a read method before the one that counts, and a method
after an equals sign. -/
theorem gh_api_writes_pass : ¬ SampleBlocked ["repos/o/r/issues", "-ftitle=x"] ∧
    ¬ SampleBlocked ["-X", "GET", "-X", "POST", "repos/o/r/issues"] ∧
      ¬ SampleBlocked ["-X=DELETE", "repos/o/r/issues/1"] := by
  refine ⟨fun hblocked => ?_, fun hblocked => ?_, fun hblocked => ?_⟩
  · have h := hblocked ⟨_, by rfl, by decide⟩
    revert h
    decide +kernel
  · have h := hblocked ⟨_, by rfl, by decide⟩
    revert h
    decide +kernel
  · have h := hblocked ⟨_, by rfl, by decide⟩
    revert h
    decide +kernel

end Samples

end ProjectManager
