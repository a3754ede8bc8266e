import ProjectManager.Actions.DailyCap
import ProjectManager.Lib.Separators

/-!
# What a hinted key identifies

The key of an action with a hint is a join: `hint`, the label of the tool and the hint, with colons between them and
inside some labels.  An action is `Unmistakable` when no other hinted action can have its key, and `unmistakable_iff`
says by the action's own fields when that is so; two actions whose fields are `Plain` never share a key
(`plain_key_inj`), and no hinted key is a digest.
-/

namespace ProjectManager

open Separators

/-! ### Identities -/

/-- Which tool an action uses. -/
inductive ToolIdentity where
  | mcpTool (server tool : String)
  | ghCli (argv : List String)
  | emailSend (recipient : String)
  | telegramSend (chatId : String)
deriving DecidableEq

/-- The type of the action. -/
def ToolIdentity.typeName : ToolIdentity → String
  | mcpTool .. => "mcp_tool"
  | ghCli _ => "gh_cli"
  | emailSend _ => "email_send"
  | telegramSend _ => "telegram_send"

/-- The label of the tool. -/
def ToolIdentity.label : ToolIdentity → String
  | mcpTool server tool => server ++ ":" ++ tool
  | ghCli argv => "gh " ++ " ".intercalate argv
  | emailSend recipient => "email:" ++ recipient
  | telegramSend chatId => "telegram:" ++ chatId

/-- The tool that a mutating action uses: the server and the tool, the first three tokens of the command, the
recipient or the chat. -/
def toolIdentity (py : Python) (a : Action) : Except String ToolIdentity :=
  let field := fun key => py.str (a.get key (.str "?"))
  if a.type py = "mcp_tool" then
    .ok (.mcpTool (field "server") (field "tool"))
  else if a.type py = "gh_cli" then
    ((a.get "argv" (.list [])).slice 3).map fun argv => .ghCli (argv.map py.str)
  else if a.type py = "email_send" then
    .ok (.emailSend (field "to"))
  else
    .ok (.telegramSend (field "chat_id"))

/-- The hint of an action, if it has one. -/
def dedupHint (a : Action) : Option String :=
  match a.get "dedup_hint" .none with
  | .str hint => if hint = "" then none else some hint
  | _ => none

/-- The gateway takes the action, by its type. -/
def Mutates (py : Python) (a : Action) (type : String) : Prop :=
  a.lookup "type" = some (.str type) ∧ py.lower type ∈ mutatingTypes

/-- Two actions of one type, with one tool and one hint. -/
structure SameTarget (py : Python) (a b : Action) : Prop where
  type_eq : a.type py = b.type py
  tool_eq : toolIdentity py a = toolIdentity py b
  hint_eq : dedupHint a = dedupHint b

/-- No other hinted action of a mutating type has the key of this one. -/
def Unmistakable (py : Python) (a : Action) : Prop :=
  ∀ b type hint key, Mutates py b type → dedupHint b = some hint → actionDedupKey py a = .ok key →
    actionDedupKey py b = .ok key → SameTarget py a b

/-- What is used of the library functions: a text is its own `str`, and only a text of letters and underscores has a
mutating type as its lower case, the type itself among them. -/
structure ReadsTypes (py : Python) : Prop where
  str_str : ∀ s, py.str (.str s) = s
  lower_type : ∀ type ∈ mutatingTypes, py.lower type = type
  letters : ∀ type, py.lower type ∈ mutatingTypes → ∀ c ∈ type.toList, c.isAlpha = true ∨ c = '_'

/-! ### Keys -/

section Keys

variable {py : Python} {a b : Action} {type hint label : String} {id : ToolIdentity}

theorem dedupHint_get (h : dedupHint a = some hint) : a.get "dedup_hint" .none = .str hint ∧ hint ≠ "" := by
  unfold dedupHint at h
  split at h
  · rename_i s hget
    by_cases hs : s = ""
    · rw [if_pos hs] at h
      cases h
    · rw [if_neg hs] at h
      obtain rfl := Option.some.inj h
      exact ⟨hget, hs⟩
  · cases h

/-- The key of a hinted action. -/
theorem hinted_key (h : dedupHint a = some hint) {key : String} (hkey : actionDedupKey py a = .ok key) :
    ∃ label, actionLabel py a = .ok label ∧ key = "hint:" ++ label ++ ":" ++ hint := by
  obtain ⟨hget, hne⟩ := dedupHint_get h
  simp only [actionDedupKey, hget, if_pos hne] at hkey
  cases hlabel : actionLabel py a with
  | error msg =>
      rw [hlabel] at hkey
      cases hkey
  | ok label =>
      rw [hlabel] at hkey
      exact ⟨label, rfl, (Except.ok.inj hkey).symm⟩

theorem key_of_label (h : dedupHint a = some hint) (hlabel : actionLabel py a = .ok label) :
    actionDedupKey py a = .ok ("hint:" ++ label ++ ":" ++ hint) := by
  obtain ⟨hget, hne⟩ := dedupHint_get h
  simp only [actionDedupKey, hget, if_pos hne, hlabel]
  rfl

/-- Two keys are the same when the texts behind `hint:` are. -/
theorem key_eq_iff {label' hint' : String} : "hint:" ++ label ++ ":" ++ hint = "hint:" ++ label' ++ ":" ++ hint' ↔
    label.toList ++ ':' :: hint.toList = label'.toList ++ ':' :: hint'.toList := by
  rw [← String.toList_inj]
  simp [String.toList_append]

theorem Mutates.get (h : Mutates py a type) (default : Val) : a.get "type" default = .str type := by
  rw [Action.get, h.1, Option.getD_some]

theorem Mutates.type_eq (hpy : ReadsTypes py) (h : Mutates py a type) : a.type py = py.lower type := by
  rw [Action.type, Action.lowered, h.get, hpy.str_str]

/-- The label of an action whose type is written in lower case is the label of its tool. -/
theorem label_of_identity (hpy : ReadsTypes py) (h : Mutates py a type) (hlower : type ∈ mutatingTypes) :
    actionLabel py a = (toolIdentity py a).map ToolIdentity.label := by
  have htype := h.type_eq hpy
  rw [hpy.lower_type type hlower] at htype
  have hget := h.get (.str "?")
  simp only [mutatingTypes, List.mem_cons, List.not_mem_nil, or_false] at hlower
  obtain rfl | rfl | rfl | rfl := hlower
  · simp only [toolIdentity, actionLabel, hget, htype]
    rfl
  · simp only [toolIdentity, actionLabel, hget, htype]
    cases hargv : (a.get "argv" (.list [])).slice 3 with
    | error msg =>
        rfl
    | ok argv =>
        rfl
  · simp only [toolIdentity, actionLabel, hget, htype]
    rfl
  · simp only [toolIdentity, actionLabel, hget, htype]
    rfl

/-- Any other spelling of a type is its own label. -/
theorem label_of_spelling (hpy : ReadsTypes py) (h : Mutates py a type) (hlower : type ∉ mutatingTypes) :
    actionLabel py a = .ok type := by
  have hget := h.get (.str "?")
  simp only [mutatingTypes, List.mem_cons, List.not_mem_nil, or_false, not_or] at hlower
  obtain ⟨hmcp, hgh, hemail, htelegram⟩ := hlower
  unfold actionLabel
  rw [hget]
  split
  · rename_i heq
    exact absurd (Val.str.inj heq) hmcp
  · rename_i heq
    exact absurd (Val.str.inj heq) hgh
  · rename_i heq
    exact absurd (Val.str.inj heq) hemail
  · rename_i heq
    exact absurd (Val.str.inj heq) htelegram
  · rw [hpy.str_str]
    rfl

theorem typeName_of_identity (hpy : ReadsTypes py) (h : Mutates py a type) (hid : toolIdentity py a = .ok id) :
    a.type py = id.typeName := by
  have hmem := h.2
  rw [← h.type_eq hpy] at hmem
  simp only [toolIdentity] at hid
  split at hid
  · rename_i heq
    obtain rfl := Except.ok.inj hid
    exact heq
  · split at hid
    · rename_i heq
      cases hargv : (a.get "argv" (.list [])).slice 3 with
      | error msg =>
          rw [hargv] at hid
          cases hid
      | ok argv =>
          rw [hargv] at hid
          obtain rfl := Except.ok.inj hid
          exact heq
    · split at hid
      · rename_i heq
        obtain rfl := Except.ok.inj hid
        exact heq
      · rename_i hmcp hgh hemail
        obtain rfl := Except.ok.inj hid
        simpa [ToolIdentity.typeName, mutatingTypes, hmcp, hgh, hemail] using hmem

end Keys

/-! ### Plain fields -/

/-- The fields of the label have no separator in them, and a server is not written like another kind of label. -/
def ToolIdentity.Plain : ToolIdentity → Prop
  | mcpTool server tool => ':' ∉ server.toList ∧ ':' ∉ tool.toList ∧ server ≠ "email" ∧ server ≠ "telegram" ∧
      ¬ "gh ".toList <+: server.toList
  | ghCli argv => argv ≠ [] ∧ ∀ token ∈ argv, ':' ∉ token.toList ∧ ' ' ∉ token.toList
  | emailSend recipient => ':' ∉ recipient.toList
  | telegramSend chatId => ':' ∉ chatId.toList

/-- What stands before the first colon of a label and a hint, if the fields are plain. -/
def ToolIdentity.head : ToolIdentity → String
  | mcpTool server _ => server
  | ghCli argv => "gh " ++ " ".intercalate argv
  | emailSend _ => "email"
  | telegramSend _ => "telegram"

/-- What stands behind it. -/
def ToolIdentity.rest (hint : List Char) : ToolIdentity → List Char
  | mcpTool _ tool => tool.toList ++ ':' :: hint
  | ghCli _ => hint
  | emailSend recipient => recipient.toList ++ ':' :: hint
  | telegramSend chatId => chatId.toList ++ ':' :: hint

/-- The type that the head of a plain label shows. -/
def typeOfHead (head : String) : String :=
  if head = "email" then
    "email_send"
  else if head = "telegram" then
    "telegram_send"
  else if "gh ".toList <+: head.toList then
    "gh_cli"
  else
    "mcp_tool"

section Plain

variable {id id' : ToolIdentity} {hint hint' : List Char}

theorem ghLabel_toList (argv : List String) : (ToolIdentity.ghCli argv).head.toList =
    "gh ".toList ++ [' '].intercalate (argv.map String.toList) := by
  rw [ToolIdentity.head, String.toList_append, String.toList_intercalate]
  rfl

theorem label_cut (id : ToolIdentity) (hint : List Char) :
    id.label.toList ++ ':' :: hint = id.head.toList ++ ':' :: id.rest hint := by
  cases id with
  | ghCli argv =>
      rfl
  | _ =>
      simp [ToolIdentity.label, ToolIdentity.head, ToolIdentity.rest]

theorem colon_not_mem_gh {argv : List String} (h : ∀ token ∈ argv, ':' ∉ token.toList) :
    ':' ∉ (ToolIdentity.ghCli argv).head.toList := by
  rw [ghLabel_toList, List.mem_append, not_or]
  refine ⟨by decide, fun hmem => ?_⟩
  obtain hspace | ⟨w, hw, hcolon⟩ := mem_of_mem_intercalate hmem
  · revert hspace
    decide
  · obtain ⟨token, htoken, rfl⟩ := List.mem_map.1 hw
    exact h token htoken hcolon

theorem ToolIdentity.Plain.colon_not_mem_head (h : id.Plain) : ':' ∉ id.head.toList := by
  cases id with
  | mcpTool server tool =>
      exact h.1
  | ghCli argv =>
      exact colon_not_mem_gh fun token htoken => (h.2 token htoken).1
  | emailSend recipient =>
      change ':' ∉ "email".toList
      decide
  | telegramSend chatId =>
      change ':' ∉ "telegram".toList
      decide

theorem ToolIdentity.Plain.typeOfHead_head (h : id.Plain) : typeOfHead id.head = id.typeName := by
  cases id with
  | mcpTool server tool =>
      obtain ⟨-, -, hemail, htelegram, hgh⟩ := h
      rw [typeOfHead, ToolIdentity.head, if_neg hemail, if_neg htelegram, if_neg hgh]
      rfl
  | ghCli argv =>
      have hgh : "gh ".toList <+: (ToolIdentity.ghCli argv).head.toList := by
        rw [ghLabel_toList]
        exact List.prefix_append _ _
      have hhead : ∀ word : String, ¬ "gh ".toList <+: word.toList → (ToolIdentity.ghCli argv).head ≠ word := by
        rintro word hword rfl
        exact hword hgh
      rw [typeOfHead, if_neg (hhead "email" (by decide)), if_neg (hhead "telegram" (by decide)), if_pos hgh]
      rfl
  | emailSend recipient =>
      rfl
  | telegramSend chatId =>
      rfl

/-- Behind plain fields, a text says what it was put together from. -/
theorem plain_label_inj (h : id.Plain) (h' : id'.Plain)
    (htext : id.label.toList ++ ':' :: hint = id'.label.toList ++ ':' :: hint') : id = id' ∧ hint = hint' := by
  rw [label_cut, label_cut] at htext
  obtain ⟨hhead, htail⟩ := cut_first h.colon_not_mem_head h'.colon_not_mem_head htext
  have hhead := String.toList_injective hhead
  have htype : id.typeName = id'.typeName := by
    rw [← h.typeOfHead_head, hhead, h'.typeOfHead_head]
  cases id with
  | mcpTool server tool =>
      cases id' with
      | mcpTool server' tool' =>
          obtain ⟨htool, hhint⟩ := cut_first h.2.1 h'.2.1 htail
          rw [show server = server' from hhead, String.toList_injective htool]
          exact ⟨rfl, hhint⟩
      | _ =>
          simp [ToolIdentity.typeName] at htype
  | ghCli argv =>
      cases id' with
      | ghCli argv' =>
          have hfree : ∀ {argv : List String}, (∀ token ∈ argv, ':' ∉ token.toList ∧ ' ' ∉ token.toList) →
              ∀ w ∈ argv.map String.toList, ' ' ∉ w := by
            intro argv hargv w hw
            obtain ⟨token, htoken, rfl⟩ := List.mem_map.1 hw
            exact (hargv token htoken).2
          have hwords := congrArg String.toList hhead
          rw [ghLabel_toList, ghLabel_toList] at hwords
          have hwords := intercalate_inj (by simpa using h.1) (by simpa using h'.1) (hfree h.2) (hfree h'.2)
            (List.append_cancel_left hwords)
          rw [List.map_injective_iff.2 (fun _ _ => String.toList_injective) hwords]
          exact ⟨rfl, htail⟩
      | _ =>
          simp [ToolIdentity.typeName] at htype
  | emailSend recipient =>
      cases id' with
      | emailSend recipient' =>
          obtain ⟨hrecipient, hhint⟩ := cut_first h h' htail
          rw [String.toList_injective hrecipient]
          exact ⟨rfl, hhint⟩
      | _ =>
          simp [ToolIdentity.typeName] at htype
  | telegramSend chatId =>
      cases id' with
      | telegramSend chatId' =>
          obtain ⟨hchat, hhint⟩ := cut_first h h' htail
          rw [String.toList_injective hchat]
          exact ⟨rfl, hhint⟩
      | _ =>
          simp [ToolIdentity.typeName] at htype

end Plain

/-! ### Fields that no other action can imitate -/

/-- The label can come from no other tool, whatever stands behind it: a server and a tool without colons, whose server
is no label of another kind, or a command of one word. -/
def ToolIdentity.Alone (py : Python) : ToolIdentity → Prop
  | mcpTool server tool => ':' ∉ server.toList ∧ ':' ∉ tool.toList ∧ server ≠ "email" ∧ server ≠ "telegram" ∧
      ¬ "gh ".toList <+: server.toList ∧ (py.lower server ∈ mutatingTypes → server ∈ mutatingTypes)
  | ghCli argv => ∃ token, argv = [token] ∧ token ≠ "" ∧ ' ' ∉ token.toList ∧ ':' ∉ token.toList
  | emailSend _ | telegramSend _ => False

section Alone

variable {py : Python} {id id' : ToolIdentity} {hint hint' : List Char}

theorem ToolIdentity.Alone.colon_not_mem_gh {argv : List String} (h : (ToolIdentity.ghCli argv).Alone py) :
    ':' ∉ (ToolIdentity.ghCli argv).label.toList := by
  obtain ⟨token, rfl, -, -, hcolon⟩ := h
  simpa [ToolIdentity.label] using hcolon

theorem not_gh_label {server : String} (h : ¬ "gh ".toList <+: server.toList) (argv : List String)
    (rest : List Char) : server.toList ++ ':' :: rest ≠ (ToolIdentity.ghCli argv).label.toList := by
  intro heq
  have hgh : "gh ".toList <+: server.toList ++ ':' :: rest := by
    rw [heq]
    simp [ToolIdentity.label]
  obtain hshort | hlong := List.prefix_or_prefix_of_prefix hgh (List.prefix_append server.toList (':' :: rest))
  · exact h hshort
  · obtain ⟨mid, hmid⟩ := hlong
    rw [← hmid, List.prefix_append_right_inj] at hgh
    cases mid with
    | nil =>
        rw [List.append_nil] at hmid
        exact h (hmid ▸ List.prefix_rfl)
    | cons d mid =>
        have hd : d = ':' := (List.cons_prefix_cons.1 hgh).1
        have hmem : ':' ∈ "gh ".toList := by
          rw [← hmid, hd]
          simp
        revert hmem
        decide

/-- The labels that have no colon, or none but the one between server and tool. -/
theorem ToolIdentity.Alone.label_inj (h : id.Alone py) (hlabel : id.label = id'.label) : id = id' := by
  cases id with
  | mcpTool server tool =>
      obtain ⟨hserver, htool, hemail, htelegram, hgh, -⟩ := h
      have hlist : server.toList ++ ':' :: tool.toList = id'.label.toList := by
        rw [← hlabel]
        simp [ToolIdentity.label]
      cases id' with
      | mcpTool server' tool' =>
          have hcut : server.toList ++ ':' :: tool.toList = server'.toList ++ ':' :: tool'.toList := by
            rw [hlist]
            simp [ToolIdentity.label]
          obtain ⟨hs, ht⟩ := cut_only hserver htool hcut
          rw [String.toList_injective hs, String.toList_injective ht]
      | ghCli argv =>
          exact absurd hlist (not_gh_label hgh argv _)
      | emailSend recipient =>
          have hcut : server.toList ++ ':' :: tool.toList = "email".toList ++ ':' :: recipient.toList := by
            rw [hlist]
            simp [ToolIdentity.label]
          exact absurd (String.toList_injective (cut_only hserver htool hcut).1) hemail
      | telegramSend chatId =>
          have hcut : server.toList ++ ':' :: tool.toList = "telegram".toList ++ ':' :: chatId.toList := by
            rw [hlist]
            simp [ToolIdentity.label]
          exact absurd (String.toList_injective (cut_only hserver htool hcut).1) htelegram
  | ghCli argv =>
      have hcolon := h.colon_not_mem_gh
      rw [hlabel] at hcolon
      obtain ⟨token, rfl, hne, hspace, -⟩ := h
      cases id' with
      | ghCli argv' =>
          have hlist := congrArg String.toList hlabel
          simp only [ToolIdentity.label, String.toList_append, String.toList_intercalate, List.append_cancel_left_eq,
            List.map_singleton, List.intercalate_singleton] at hlist
          have hwords : argv'.map String.toList = [token.toList] :=
            intercalate_eq_word (by simpa using hne) hspace hlist.symm
          obtain ⟨token', rfl, htoken⟩ := List.map_eq_singleton_iff.1 hwords
          rw [String.toList_injective htoken]
      | _ =>
          simp [ToolIdentity.label] at hcolon
  | _ =>
      exact h.elim

/-- Only the server stands before a colon of such a label. -/
theorem ToolIdentity.Alone.before_colon (h : id.Alone py) {s mid : List Char} (hlabel : id.label.toList = s ++ ':' :: mid) :
    ∃ server tool, id = .mcpTool server tool ∧ server.toList = s := by
  cases id with
  | mcpTool server tool =>
      have hcut : server.toList ++ ':' :: tool.toList = s ++ ':' :: mid := by
        rw [← hlabel]
        simp [ToolIdentity.label]
      exact ⟨server, tool, rfl, (cut_only h.1 h.2.1 hcut).1⟩
  | ghCli argv =>
      refine absurd ?_ h.colon_not_mem_gh
      rw [hlabel]
      simp
  | _ =>
      exact h.elim

/-- A text that ends with a hint without inner colons can be put together in one way only. -/
theorem ToolIdentity.Alone.text_inj (h : id.Alone py) (hhint : ':' ∉ hint.dropLast) (hne : hint' ≠ [])
    (htext : id.label.toList ++ ':' :: hint = id'.label.toList ++ ':' :: hint') : id = id' ∧ hint = hint' := by
  obtain ⟨hlabel, rfl⟩ | ⟨mid, hlabel, -⟩ := cut_last hhint hne htext
  · exact ⟨h.label_inj (String.toList_injective hlabel), rfl⟩
  · -- the other label would be the server
    obtain ⟨server, tool, rfl, hserver⟩ := h.before_colon hlabel
    obtain ⟨hcolon, -, -, -, hgh, -⟩ := h
    rw [hserver] at hcolon hgh
    cases id' with
    | ghCli argv =>
        refine absurd ?_ hgh
        rw [show (ToolIdentity.ghCli argv).label = (ToolIdentity.ghCli argv).head from rfl, ghLabel_toList]
        exact List.prefix_append _ _
    | _ =>
        simp [ToolIdentity.label] at hcolon

/-- Nor is it the text of an action whose type is spelled in another way. -/
theorem ToolIdentity.Alone.text_ne_spelling (hpy : ReadsTypes py) (h : id.Alone py) (hhint : ':' ∉ hint.dropLast)
    (hne : hint' ≠ []) {type : String} (hlower : py.lower type ∈ mutatingTypes) (hspelled : type ∉ mutatingTypes) :
    id.label.toList ++ ':' :: hint ≠ type.toList ++ ':' :: hint' := by
  intro htext
  have hletters : ∀ c ∈ [':', ' '], c ∉ type.toList := by
    intro c hc hmem
    have hnone : ∀ c ∈ [':', ' '], ¬ (c.isAlpha = true ∨ c = '_') := by
      decide
    exact hnone c hc (hpy.letters type hlower c hmem)
  obtain ⟨hlabel, -⟩ | ⟨mid, hlabel, -⟩ := cut_last hhint hne htext
  · cases id with
    | mcpTool server tool =>
        refine hletters ':' (by simp) ?_
        rw [← hlabel]
        simp [ToolIdentity.label]
    | ghCli argv =>
        refine hletters ' ' (by simp) ?_
        rw [← hlabel]
        simp [ToolIdentity.label]
    | _ =>
        exact h.elim
  · obtain ⟨server, tool, rfl, hserver⟩ := h.before_colon hlabel
    obtain rfl := String.toList_injective hserver
    exact hspelled (h.2.2.2.2.2 hlower)

end Alone

/-! ### Imitations -/

/-- The identity is one that an action can have: a command shows at most three tokens. -/
def ToolIdentity.Short : ToolIdentity → Prop
  | ghCli argv => argv.length ≤ 3
  | _ => True

/-- No other label and hint make the same text. -/
def ToolIdentity.Sole (id : ToolIdentity) (hint : String) : Prop :=
  ∀ id' hint', id'.Short → hint' ≠ "" → id.label ++ ":" ++ hint = id'.label ++ ":" ++ hint' → id = id' ∧ hint = hint'

section Sole

variable {id : ToolIdentity} {hint : String}

/-- Cutting a text at one of its characters. -/
theorem split_at_mem {c : Char} {s : String} (h : c ∈ s.toList) :
    ∃ before after : String, s = before ++ String.singleton c ++ after := by
  obtain ⟨before, after, hs⟩ := List.append_of_mem h
  refine ⟨String.ofList before, String.ofList after, ?_⟩
  rw [← String.toList_inj, hs]
  simp

/-- A hint with a colon before its last character is a hint behind another one. -/
theorem split_hint (h : ':' ∈ hint.toList.dropLast) : ∃ before after : String, after ≠ "" ∧ hint = before ++ ":" ++ after := by
  have hne : hint.toList ≠ [] := by
    rintro hnil
    simp [hnil] at h
  obtain ⟨before, after, hcut⟩ := List.append_of_mem h
  refine ⟨String.ofList before, String.ofList (after ++ [hint.toList.getLast hne]), by simp, ?_⟩
  have hlast := List.dropLast_append_getLast hne
  rw [hcut] at hlast
  rw [← String.toList_inj]
  simpa using hlast.symm

theorem append_ne_self {before after : String} : before ++ ":" ++ after ≠ after := by
  intro heq
  have hlength := congrArg String.length heq
  simp only [String.length_append] at hlength
  have hcolon : ":".length = 1 := rfl
  omega

theorem ToolIdentity.Sole.hint_free (h : id.Sole hint) : ':' ∉ hint.toList.dropLast := by
  intro hmem
  obtain ⟨before, after, hafter, rfl⟩ := split_hint hmem
  cases id with
  | mcpTool server tool =>
      have hsame := h (.mcpTool server (tool ++ ":" ++ before)) after trivial hafter
        (by simp [ToolIdentity.label, String.append_assoc])
      exact append_ne_self hsame.2
  | ghCli argv =>
      have hsame := h (.mcpTool (ToolIdentity.ghCli argv).label before) after trivial hafter
        (by simp [ToolIdentity.label, String.append_assoc])
      exact append_ne_self hsame.2
  | emailSend recipient =>
      have hsame := h (.emailSend (recipient ++ ":" ++ before)) after trivial hafter
        (by simp [ToolIdentity.label, String.append_assoc])
      exact append_ne_self hsame.2
  | telegramSend chatId =>
      have hsame := h (.telegramSend (chatId ++ ":" ++ before)) after trivial hafter
        (by simp [ToolIdentity.label, String.append_assoc])
      exact append_ne_self hsame.2

/-- A mail can be imitated by a tool of a server `email`. -/
theorem not_sole_email {recipient : String} (hne : hint ≠ "") : ¬ (ToolIdentity.emailSend recipient).Sole hint := by
  intro h
  have hsame := h (.mcpTool "email" recipient) hint trivial hne rfl
  exact ToolIdentity.noConfusion hsame.1

theorem not_sole_telegram {chatId : String} (hne : hint ≠ "") : ¬ (ToolIdentity.telegramSend chatId).Sole hint := by
  intro h
  have hsame := h (.mcpTool "telegram" chatId) hint trivial hne rfl
  exact ToolIdentity.noConfusion hsame.1

/-- What keeps a tool of a server from being imitated. -/
theorem ToolIdentity.Sole.mcp {server tool : String} (h : (ToolIdentity.mcpTool server tool).Sole hint) (hne : hint ≠ "") :
    ':' ∉ server.toList ∧ ':' ∉ tool.toList ∧ server ≠ "email" ∧ server ≠ "telegram" ∧
      ¬ "gh ".toList <+: server.toList := by
  refine ⟨fun hmem => ?_, fun hmem => ?_, ?_, ?_, ?_⟩
  · obtain ⟨before, after, rfl⟩ := split_at_mem hmem
    have hsame := h (.mcpTool before (after ++ ":" ++ tool)) hint trivial hne
      (by simp [ToolIdentity.label, String.append_assoc])
    have hserver := (ToolIdentity.mcpTool.inj hsame.1).2
    rw [eq_comm] at hserver
    exact append_ne_self hserver
  · obtain ⟨before, after, rfl⟩ := split_at_mem hmem
    have hsame := h (.mcpTool (server ++ ":" ++ before) after) hint trivial hne
      (by simp [ToolIdentity.label, String.append_assoc])
    exact append_ne_self (ToolIdentity.mcpTool.inj hsame.1).2
  · rintro rfl
    exact ToolIdentity.noConfusion (h (.emailSend tool) hint trivial hne rfl).1
  · rintro rfl
    exact ToolIdentity.noConfusion (h (.telegramSend tool) hint trivial hne rfl).1
  · rintro ⟨rest, hrest⟩
    have hserver : server = "gh " ++ String.ofList rest := by
      rw [← String.toList_inj, ← hrest]
      simp
    subst hserver
    have hsame := h (.ghCli [String.ofList rest]) (tool ++ ":" ++ hint) (by simp [ToolIdentity.Short])
      (by simp [hne]) (by simp [ToolIdentity.label, String.append_assoc])
    exact ToolIdentity.noConfusion hsame.1

/-- What keeps a command from being imitated: it is one word. -/
theorem ToolIdentity.Sole.gh {argv : List String} (h : (ToolIdentity.ghCli argv).Sole hint) (hne : hint ≠ "") :
    ∃ token, argv = [token] ∧ token ≠ "" ∧ ' ' ∉ token.toList ∧ ':' ∉ token.toList := by
  cases argv with
  | nil =>
      have hsame := h (.ghCli [""]) hint (by simp [ToolIdentity.Short]) hne rfl
      exact absurd (ToolIdentity.ghCli.inj hsame.1) (by simp)
  | cons token rest =>
      cases rest with
      | nil =>
          refine ⟨token, rfl, ?_, fun hmem => ?_, fun hmem => ?_⟩
          · rintro rfl
            have hsame := h (.ghCli []) hint (by simp [ToolIdentity.Short]) hne rfl
            exact absurd (ToolIdentity.ghCli.inj hsame.1) (by simp)
          · obtain ⟨before, after, rfl⟩ := split_at_mem hmem
            have hsame := h (.ghCli [before, after]) hint (by simp [ToolIdentity.Short]) hne
              (by simp [ToolIdentity.label, String.intercalate_cons_cons, String.append_assoc])
            exact absurd (ToolIdentity.ghCli.inj hsame.1) (by simp)
          · obtain ⟨before, after, rfl⟩ := split_at_mem hmem
            have hsame := h (.mcpTool ("gh " ++ before) after) hint trivial hne
              (by simp [ToolIdentity.label, String.append_assoc])
            exact ToolIdentity.noConfusion hsame.1
      | cons token' rest =>
          have hsame := h (.ghCli [" ".intercalate (token :: token' :: rest)]) hint (by simp [ToolIdentity.Short]) hne
            (by simp [ToolIdentity.label])
          exact absurd (ToolIdentity.ghCli.inj hsame.1) (by simp)

end Sole

/-! ### Actions -/

/-- A hinted action of a type, with these fields. -/
def hintedAction (type : String) (fields : List (String × Val)) (hint : String) : Action :=
  ("type", .str type) :: ("dedup_hint", .str hint) :: fields

/-- The fields of an action with this identity. -/
def ToolIdentity.fields : ToolIdentity → List (String × Val)
  | mcpTool server tool => [("server", .str server), ("tool", .str tool)]
  | ghCli argv => [("argv", .list (argv.map .str))]
  | emailSend recipient => [("to", .str recipient)]
  | telegramSend chatId => [("chat_id", .str chatId)]

/-- The fields say that no other hinted action can have the key: the type is spelled as the gateway spells it, the
hint has no colon before its last character, and the label can come from no other tool. -/
def StandsAlone (py : Python) (a : Action) (type hint : String) : Prop :=
  type ∈ mutatingTypes ∧ ':' ∉ hint.toList.dropLast ∧ ∃ id, toolIdentity py a = .ok id ∧ id.Alone py

/-- The type is spelled as the gateway spells it, and the fields of the label are plain. -/
def PlainAction (py : Python) (a : Action) (type : String) : Prop :=
  type ∈ mutatingTypes ∧ ∃ id, toolIdentity py a = .ok id ∧ id.Plain

section Actions

variable {py : Python} {a b : Action} {type type' hint hint' key : String} {id : ToolIdentity}

theorem hintedAction_mutates (py : Python) (fields : List (String × Val)) (hint : String) (h : py.lower type ∈ mutatingTypes) :
    Mutates py (hintedAction type fields hint) type :=
  ⟨rfl, h⟩

theorem hintedAction_hint (type : String) (fields : List (String × Val)) {hint : String} (hne : hint ≠ "") :
    dedupHint (hintedAction type fields hint) = some hint := by
  have hget : Action.get (hintedAction type fields hint) "dedup_hint" .none = .str hint := rfl
  simp only [dedupHint, hget, if_neg hne]

theorem typeName_mutates (id : ToolIdentity) : id.typeName ∈ mutatingTypes := by
  cases id <;> simp [ToolIdentity.typeName, mutatingTypes]

/-- Every short identity is one of an action. -/
theorem identity_of_fields (hpy : ReadsTypes py) (id : ToolIdentity) (h : id.Short) (hint : String) :
    toolIdentity py (hintedAction id.typeName id.fields hint) = .ok id := by
  have hmutates := hintedAction_mutates py id.fields hint
    ((hpy.lower_type _ (typeName_mutates id)).symm ▸ typeName_mutates id)
  have htype := hmutates.type_eq hpy
  rw [hpy.lower_type _ (typeName_mutates id)] at htype
  simp only [toolIdentity, htype]
  cases id with
  | mcpTool server tool =>
      change Except.ok (ToolIdentity.mcpTool (py.str (.str server)) (py.str (.str tool))) = _
      rw [hpy.str_str, hpy.str_str]
  | ghCli argv =>
      change Except.ok (ToolIdentity.ghCli (((argv.map Val.str).take 3).map py.str)) = _
      rw [List.take_of_length_le (by rw [List.length_map]; exact h), List.map_map]
      simp [Function.comp_def, hpy.str_str]
  | emailSend recipient =>
      change Except.ok (ToolIdentity.emailSend (py.str (.str recipient))) = _
      rw [hpy.str_str]
  | telegramSend chatId =>
      change Except.ok (ToolIdentity.telegramSend (py.str (.str chatId))) = _
      rw [hpy.str_str]

/-- The identity of an action with a key, if its type is spelled as the gateway spells it. -/
theorem identity_of_key (hpy : ReadsTypes py) (h : Mutates py a type) (hlower : type ∈ mutatingTypes)
    (hhint : dedupHint a = some hint) (hkey : actionDedupKey py a = .ok key) :
    ∃ id, toolIdentity py a = .ok id ∧ key = "hint:" ++ id.label ++ ":" ++ hint := by
  obtain ⟨label, hlabel, rfl⟩ := hinted_key hhint hkey
  rw [label_of_identity hpy h hlower] at hlabel
  cases hid : toolIdentity py a with
  | error msg =>
      rw [hid] at hlabel
      cases hlabel
  | ok id =>
      rw [hid] at hlabel
      obtain rfl := Except.ok.inj hlabel
      exact ⟨id, rfl, rfl⟩

theorem key_of_identity (hpy : ReadsTypes py) (h : Mutates py a type) (hlower : type ∈ mutatingTypes)
    (hhint : dedupHint a = some hint) (hid : toolIdentity py a = .ok id) :
    actionDedupKey py a = .ok ("hint:" ++ id.label ++ ":" ++ hint) := by
  refine key_of_label hhint ?_
  rw [label_of_identity hpy h hlower, hid]
  rfl

theorem sameTarget (hpy : ReadsTypes py) (h : Mutates py a type) (h' : Mutates py b type')
    (hid : toolIdentity py a = .ok id) (hid' : toolIdentity py b = .ok id) (hhint : dedupHint a = some hint)
    (hhint' : dedupHint b = some hint) : SameTarget py a b where
  type_eq := by rw [typeName_of_identity hpy h hid, typeName_of_identity hpy h' hid']
  tool_eq := by rw [hid, hid']
  hint_eq := by rw [hhint, hhint']

theorem hint_ne_nil (h : dedupHint a = some hint) : hint.toList ≠ [] :=
  fun hnil => (dedupHint_get h).2 (String.toList_eq_nil_iff.1 hnil)

/-- Two plain actions with one key are about one target. -/
theorem plain_key_inj (hpy : ReadsTypes py) (h : Mutates py a type) (h' : Mutates py b type')
    (hhint : dedupHint a = some hint) (hhint' : dedupHint b = some hint') (hplain : PlainAction py a type)
    (hplain' : PlainAction py b type') (hkey : actionDedupKey py a = .ok key) (hkey' : actionDedupKey py b = .ok key) :
    SameTarget py a b := by
  obtain ⟨hlower, id, hid, hplain⟩ := hplain
  obtain ⟨hlower', id', hid', hplain'⟩ := hplain'
  rw [key_of_identity hpy h hlower hhint hid] at hkey
  rw [key_of_identity hpy h' hlower' hhint' hid', ← hkey] at hkey'
  obtain ⟨rfl, hsame⟩ := plain_label_inj hplain' hplain (key_eq_iff.1 (Except.ok.inj hkey'))
  obtain rfl := String.toList_injective hsame
  exact sameTarget hpy h h' hid hid' hhint hhint'

/-- A key that stands alone is shared by no action about another target. -/
theorem StandsAlone.unmistakable (hpy : ReadsTypes py) (h : Mutates py a type) (hhint : dedupHint a = some hint)
    (halone : StandsAlone py a type hint) : Unmistakable py a := by
  intro b type' hint' key h' hhint' hkey hkey'
  obtain ⟨hlower, hfree, id, hid, halone⟩ := halone
  rw [key_of_identity hpy h hlower hhint hid] at hkey
  by_cases hlower' : type' ∈ mutatingTypes
  · obtain ⟨id', hid', rfl⟩ := identity_of_key hpy h' hlower' hhint' hkey'
    obtain ⟨rfl, hsame⟩ := halone.text_inj hfree (hint_ne_nil hhint') (key_eq_iff.1 (Except.ok.inj hkey))
    obtain rfl := String.toList_injective hsame
    exact sameTarget hpy h h' hid hid' hhint hhint'
  · rw [key_of_label hhint' (label_of_spelling hpy h' hlower'), ← hkey] at hkey'
    exact absurd (key_eq_iff.1 (Except.ok.inj hkey'.symm))
      (halone.text_ne_spelling hpy hfree (hint_ne_nil hhint') h'.2 hlower')

/-- Two actions of one type and hint whose fields all differ. -/
def spelledAction (type hint x : String) : Action :=
  hintedAction type [("server", .str x), ("argv", .list [.str x]), ("to", .str x), ("chat_id", .str x)] hint

theorem spelledAction_inj (hpy : ReadsTypes py) (h : py.lower type ∈ mutatingTypes) {x y : String}
    (hsame : toolIdentity py (spelledAction type hint x) = toolIdentity py (spelledAction type hint y)) : x = y := by
  have htype : ∀ x, Action.type py (spelledAction type hint x) = py.lower type := fun x =>
    (hintedAction_mutates py _ hint h).type_eq hpy
  have hargv : ∀ x, ((spelledAction type hint x).get "argv" (.list [])).slice 3 = .ok [.str x] := fun _ => rfl
  have hserver : ∀ x, (spelledAction type hint x).get "server" (.str "?") = .str x := fun _ => rfl
  have hto : ∀ x, (spelledAction type hint x).get "to" (.str "?") = .str x := fun _ => rfl
  have hchat : ∀ x, (spelledAction type hint x).get "chat_id" (.str "?") = .str x := fun _ => rfl
  simp only [toolIdentity, htype, hargv, hserver, hto, hchat, hpy.str_str] at hsame
  split at hsame
  · exact (ToolIdentity.mcpTool.inj (Except.ok.inj hsame)).1
  · split at hsame
    · simpa [Except.map, hpy.str_str] using hsame
    · split at hsame
      · exact ToolIdentity.emailSend.inj (Except.ok.inj hsame)
      · exact ToolIdentity.telegramSend.inj (Except.ok.inj hsame)

/-- A key that nothing else can have stands alone. -/
theorem Unmistakable.standsAlone (hpy : ReadsTypes py) (h : Mutates py a type) (hhint : dedupHint a = some hint)
    (hkey : actionDedupKey py a = .ok key) (hunm : Unmistakable py a) : StandsAlone py a type hint := by
  have hne := (dedupHint_get hhint).2
  by_cases hlower : type ∈ mutatingTypes
  · obtain ⟨id, hid, rfl⟩ := identity_of_key hpy h hlower hhint hkey
    have hsole : id.Sole hint := by
      intro id' hint' hshort hne' htext
      have hid' := identity_of_fields hpy id' hshort hint'
      have hmutates := hintedAction_mutates py id'.fields hint'
        ((hpy.lower_type _ (typeName_mutates id')).symm ▸ typeName_mutates id')
      have hhint' := hintedAction_hint id'.typeName id'.fields hne'
      have hkey' := key_of_identity hpy hmutates (typeName_mutates id') hhint' hid'
      have hsamekey : "hint:" ++ id'.label ++ ":" ++ hint' = "hint:" ++ id.label ++ ":" ++ hint := by
        simp only [String.append_assoc] at htext ⊢
        rw [htext]
      rw [hsamekey] at hkey'
      have hsame := hunm _ _ _ _ hmutates hhint' hkey hkey'
      have htool := hsame.tool_eq
      have hhints := hsame.hint_eq
      rw [hid, hid'] at htool
      rw [hhint, hhint'] at hhints
      exact ⟨Except.ok.inj htool, Option.some.inj hhints⟩
    refine ⟨hlower, hsole.hint_free, id, hid, ?_⟩
    cases id with
    | mcpTool server tool =>
        obtain ⟨hserver, htool, hemail, htelegram, hgh⟩ := hsole.mcp hne
        refine ⟨hserver, htool, hemail, htelegram, hgh, fun hlowered => ?_⟩
        by_contra hspelled
        have hmutates := hintedAction_mutates py [] (tool ++ ":" ++ hint) hlowered
        have hhint' : dedupHint (hintedAction server [] (tool ++ ":" ++ hint)) = some (tool ++ ":" ++ hint) :=
          hintedAction_hint server [] (by simp [hne])
        have hlabel := label_of_spelling hpy hmutates hspelled
        have hkey' := key_of_label hhint' hlabel
        rw [show "hint:" ++ server ++ ":" ++ (tool ++ ":" ++ hint) =
          "hint:" ++ (ToolIdentity.mcpTool server tool).label ++ ":" ++ hint by
            simp [ToolIdentity.label, String.append_assoc]] at hkey'
        have hhints := (hunm _ _ _ _ hmutates hhint' hkey hkey').hint_eq
        rw [hhint, hhint'] at hhints
        exact append_ne_self (Option.some.inj hhints).symm
    | ghCli argv =>
        exact hsole.gh hne
    | emailSend recipient =>
        exact not_sole_email hne hsole
    | telegramSend chatId =>
        exact not_sole_telegram hne hsole
  · -- the label is the type as it is spelled, and says nothing of the tool
    have hsame : ∀ x, SameTarget py a (spelledAction type hint x) := by
      intro x
      have hmutates : Mutates py (spelledAction type hint x) type := hintedAction_mutates py _ hint h.2
      have hhint' : dedupHint (spelledAction type hint x) = some hint := hintedAction_hint type _ hne
      refine hunm _ _ _ _ hmutates hhint' hkey ?_
      rw [key_of_label hhint' (label_of_spelling hpy hmutates hlower), ← hkey,
        key_of_label hhint (label_of_spelling hpy h hlower)]
    have hfields := (hsame "1").tool_eq.symm.trans (hsame "2").tool_eq
    exact absurd (spelledAction_inj hpy h.2 hfields) (by decide)

/-- A hinted key is no digest. -/
theorem hinted_ne_unhinted (hdigests : HexDigests py) (hhint : dedupHint a = some hint) (hnone : dedupHint b = none)
    {key' : String} (hkey : actionDedupKey py a = .ok key) (hkey' : actionDedupKey py b = .ok key') : key ≠ key' := by
  obtain ⟨label, -, rfl⟩ := hinted_key hhint hkey
  have hdigest : key' = py.sha256 (py.dumps (.dict b)) := by
    unfold actionDedupKey at hkey'
    unfold dedupHint at hnone
    split at hkey'
    · rename_i s hget
      simp only [hget] at hnone
      by_cases hs : s = ""
      · rw [if_neg (not_not.2 hs)] at hkey'
        exact (Except.ok.inj hkey').symm
      · rw [if_neg hs] at hnone
        cases hnone
    · exact (Except.ok.inj hkey').symm
  intro heq
  have hmem : 'h' ∈ "0123456789abcdef".toList := by
    refine hdigests (py.dumps (.dict b)) 'h' ?_
    rw [← hdigest, ← heq]
    simp
  revert hmem
  decide

end Actions

/-- **What a hinted key identifies.**  An action is told from every other hinted one by its key just when its fields
stand alone; two actions with plain fields and different targets have different keys; a hinted key is never the key of
an action without a hint. -/
theorem dedup_key_identifies {py : Python} (hpy : ReadsTypes py) (hdigests : HexDigests py) :
    (∀ a type hint key, Mutates py a type → dedupHint a = some hint → actionDedupKey py a = .ok key →
      (Unmistakable py a ↔ StandsAlone py a type hint)) ∧
    (∀ a b type type' hint hint' key, Mutates py a type → Mutates py b type' → dedupHint a = some hint →
      dedupHint b = some hint' → PlainAction py a type → PlainAction py b type' → actionDedupKey py a = .ok key →
      actionDedupKey py b = .ok key → SameTarget py a b) ∧
    ∀ a b hint key key', dedupHint a = some hint → dedupHint b = none → actionDedupKey py a = .ok key →
      actionDedupKey py b = .ok key' → key ≠ key' :=
  ⟨fun _ _ _ _ h hhint hkey => ⟨fun hunm => hunm.standsAlone hpy h hhint hkey, fun halone => halone.unmistakable hpy h hhint⟩,
    fun _ _ _ _ _ _ _ h h' hhint hhint' hplain hplain' hkey hkey' =>
      plain_key_inj hpy h h' hhint hhint' hplain hplain' hkey hkey',
    fun _ _ _ _ _ hhint hnone hkey hkey' => hinted_ne_unhinted hdigests hhint hnone hkey hkey'⟩

/-! ### Labels with a colon -/

/-- A command without a hint, as the gateway takes it. -/
def bareCommand : Action :=
  [("type", .str "gh_cli")]

/-- The sample library functions, with the canonical text of `bareCommand` and its digest. -/
def hintPython : Python :=
  { samplePython with
    dumps := fun _ => "\x7b\"type\": \"gh_cli\"\x7d"
    sha256 := fun _ => "d120b89cd5e87775f3cc05998c99e42c2b6a797f2b706fe9af5f26d2a3a9de79" }

theorem letter_of_toLower : ∀ c : Char, c.toLower.isAlpha = true ∨ c.toLower = '_' → c.isAlpha = true ∨ c = '_' := by
  intro c
  by_cases hc : c.toNat < 128
  · exact Text.ascii_induction
      (p := fun c => c.toLower.isAlpha = true ∨ c.toLower = '_' → c.isAlpha = true ∨ c = '_') (by decide) c hc
  · rw [Text.toLower_of_not_ascii hc]
    exact id

theorem toLower_of_forall {s : String} (h : ∀ c ∈ s.toList, c.toLower = c) : s.toLower = s := by
  rw [← String.toList_inj, String.toLower, String.toList_map]
  exact (List.map_congr_left h).trans (List.map_id _)

theorem hintPython_readsTypes : ReadsTypes hintPython where
  str_str := fun _ => rfl
  lower_type := by
    have hsmall : ∀ type ∈ mutatingTypes, ∀ c ∈ type.toList, c.toLower = c := by
      simp only [mutatingTypes, List.forall_mem_cons]
      refine ⟨?_, ?_, ?_, ?_, by simp⟩
      all_goals decide
    exact fun type htype => toLower_of_forall (hsmall type htype)
  letters := by
    intro type hlower c hc
    have hnames : ∀ name ∈ mutatingTypes, ∀ d ∈ name.toList, d.isAlpha = true ∨ d = '_' := by
      simp only [mutatingTypes, List.forall_mem_cons]
      refine ⟨?_, ?_, ?_, ?_, by simp⟩
      all_goals decide
    have hmem : c.toLower ∈ (hintPython.lower type).toList := by
      change c.toLower ∈ type.toLower.toList
      rw [String.toLower, String.toList_map]
      exact List.mem_map_of_mem hc
    exact letter_of_toLower c (hnames _ hlower _ hmem)

theorem hintPython_hex : HexDigests hintPython := by
  have hdigest : "d120b89cd5e87775f3cc05998c99e42c2b6a797f2b706fe9af5f26d2a3a9de79".toList ⊆
      "0123456789abcdef".toList := by
    decide
  exact fun _ _ hc => hdigest hc

/-- The command that creates a label. -/
def labelCommand (name hint : String) : Action :=
  hintedAction "gh_cli" (ToolIdentity.ghCli ["label", "create", name]).fields hint

theorem labelCommand_mutates (name hint : String) : Mutates hintPython (labelCommand name hint) "gh_cli" :=
  hintedAction_mutates hintPython _ hint (by
    rw [hintPython_readsTypes.lower_type "gh_cli" (by decide)]
    decide)

theorem labelCommand_identity (name hint : String) :
    toolIdentity hintPython (labelCommand name hint) = .ok (.ghCli ["label", "create", name]) :=
  identity_of_fields hintPython_readsTypes (.ghCli ["label", "create", name]) (by simp [ToolIdentity.Short]) hint

theorem labelCommand_key (name hint : String) (hne : hint ≠ "") :
    actionDedupKey hintPython (labelCommand name hint) =
      .ok ("hint:" ++ (ToolIdentity.ghCli ["label", "create", name]).label ++ ":" ++ hint) :=
  key_of_identity hintPython_readsTypes (labelCommand_mutates name hint) (by decide)
    (hintedAction_hint "gh_cli" _ hne) (labelCommand_identity name hint)

/-- Another label cannot have the key of a label without a colon, nor can a command without a hint. -/
theorem dedup_key_identifies_label : (∀ key, actionDedupKey hintPython (labelCommand "bug" "x") = .ok key →
      actionDedupKey hintPython (labelCommand "fix" "x") ≠ .ok key) ∧
    ∀ key, actionDedupKey hintPython (labelCommand "bug" "x") = .ok key →
      actionDedupKey hintPython bareCommand ≠ .ok key := by
  obtain ⟨-, hplain, hbare⟩ := dedup_key_identifies hintPython_readsTypes hintPython_hex
  have hlabel : ∀ name, (∀ c ∈ [':', ' '], c ∉ name.toList) → PlainAction hintPython (labelCommand name "x") "gh_cli" := by
    intro name hname
    refine ⟨by decide, _, labelCommand_identity name "x", by simp, ?_⟩
    simp only [List.forall_mem_cons]
    exact ⟨by decide, by decide, ⟨hname ':' (by simp), hname ' ' (by simp)⟩, by simp⟩
  have hhint : ∀ name, dedupHint (labelCommand name "x") = some "x" := fun name => hintedAction_hint _ _ (by decide)
  refine ⟨fun key hkey hkey' => ?_, fun key hkey hkey' => hbare _ _ _ _ _ (hhint "bug") rfl hkey hkey' rfl⟩
  have hsame := hplain _ _ _ _ _ _ _ (labelCommand_mutates "bug" "x") (labelCommand_mutates "fix" "x") (hhint "bug")
    (hhint "fix") (hlabel "bug" (by decide)) (hlabel "fix" (by decide)) hkey hkey'
  have htool := hsame.tool_eq
  rw [labelCommand_identity, labelCommand_identity] at htool
  revert htool
  simp

/-- The label `type:bug` with the hint `x` and the label `type` with the hint `bug:x` have one key. -/
theorem dedup_key_collides : ¬ ∀ a b type type' hint hint' key, Mutates hintPython a type → Mutates hintPython b type' →
    dedupHint a = some hint → dedupHint b = some hint' → actionDedupKey hintPython a = .ok key →
    actionDedupKey hintPython b = .ok key → SameTarget hintPython a b := by
  intro hall
  have hkey := labelCommand_key "type:bug" "x" (by decide)
  have hkey' := labelCommand_key "type" "bug:x" (by decide)
  have hsame := hall _ _ _ _ _ _ _ (labelCommand_mutates "type:bug" "x") (labelCommand_mutates "type" "bug:x")
    (hintedAction_hint _ _ (by decide)) (hintedAction_hint _ _ (by decide)) hkey (hkey'.trans (by decide))
  have htool := hsame.tool_eq
  rw [labelCommand_identity, labelCommand_identity] at htool
  revert htool
  simp

end ProjectManager
