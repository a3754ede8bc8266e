import ProjectManager.Actions.Secrets

/-!
# The action policy

`classify` decides whether an action is refused: the red line first (data loss, credentials, security),
then a default-deny allowlist.  `needsInterrupt` decides whether an action has to wait for a person.
-/

namespace ProjectManager

open Text

/-- `BlockCategory`. -/
inductive BlockCategory where
  | dataLoss | credential | security | notAllowlisted
deriving DecidableEq, Repr

/-- `BlockCategory.value`. -/
def BlockCategory.text : BlockCategory → String
  | .dataLoss => "data_loss"
  | .credential => "credential"
  | .security => "security"
  | .notAllowlisted => "not_allowlisted"

/-- `BlockVerdict`. -/
structure BlockVerdict where
  blocked : Bool
  category : Option BlockCategory := none
  reason : String := ""
deriving DecidableEq, Repr

/-- `_ALLOW`. -/
def BlockVerdict.allow : BlockVerdict where
  blocked := false

/-- A refusal. -/
def BlockVerdict.deny (category : BlockCategory) (reason : String) : BlockVerdict where
  blocked := true
  category := some category
  reason := reason

/-- The red line: a refusal that no approval overrides. -/
def BlockVerdict.hardDeny (v : BlockVerdict) : Bool :=
  v.blocked && decide (v.category ≠ some .notAllowlisted)

/-- `InterruptVerdict`. -/
structure InterruptVerdict where
  interrupt : Bool
  reason : String := ""
deriving DecidableEq, Repr

/-- The files that an attachment check looks at: resolved paths by their parts. -/
structure FileView where
  resolve : String → List String
  isFile : List String → Bool

/-! ### Tables -/

/-- `_LOP_B_MCP_TOOL_MARKERS`. -/
def lopBToolMarkers : List String :=
  ["closeissue", "close_issue", "transitionissue", "assignissue", "reassign", "createcomment"]

/-- `_LOP_B_GH_PREFIXES`. -/
def lopBGhBegins : List (List String) :=
  [["pr", "merge"], ["pr", "close"], ["pr", "ready"]]

/-- `_DEFAULT_MCP_ALLOWLIST`. -/
def defaultMcpAllowlist : List (String × List String) :=
  [("slack", ["post_message", "post_message_blocks", "update_message"]),
    ("confluence", ["createpage", "updatepage"]),
    ("jira", ["addcomment", "createissue"]),
    ("linear", ["linear_createcomment"])]

/-- `_GH_ALLOWLIST_PREFIXES`. -/
def ghAllowlistBegins : List (List String) :=
  [["pr", "list"], ["pr", "view"], ["pr", "create"], ["issue", "list"], ["issue", "view"],
    ["issue", "create"], ["issue", "comment"], ["repo", "view"], ["run", "list"], ["run", "view"], ["api"]]

/-- `_DATA_LOSS_TOOL_MARKERS`. -/
def dataLossToolMarkers : List String :=
  ["delete", "remove", "purge", "destroy", "trash", "archive"]

/-- `_SECURITY_TOOL_MARKERS`. -/
def securityToolMarkers : List String :=
  ["setpermission", "updatepermission", "grant", "setpublic", "makepublic", "setvisibility",
    "setrestriction", "addrestriction", "invite", "addmember", "updateprojectrole", "updaterole"]

/-- `_GH_DATA_LOSS_PREFIXES`. -/
def ghDataLossBegins : List (List String) :=
  [["repo", "delete"], ["release", "delete"], ["cache", "delete"], ["issue", "delete"],
    ["gist", "delete"], ["secret", "delete"], ["ssh-key", "delete"]]

/-- `_GH_DANGEROUS_FLAGS`. -/
def ghDangerousFlags : List String :=
  ["--force", "--delete-branch", "--confirm", "--yes"]

/-- `_HTTP_MUTATING_VERBS`. -/
def httpMutatingVerbs : List String :=
  ["post", "put", "patch", "delete"]

/-- `_GH_API_FIELD_FLAGS`. -/
def ghApiFieldFlags : List String :=
  ["-f", "-F", "--field", "--raw-field", "--input"]

/-- `_HTTP_READ_VERBS`. -/
def httpReadVerbs : List String :=
  ["get", "head"]

/-! ### Command lines -/

/-- `_argv_lower`. -/
def argvLower (py : Python) (a : Action) : List String :=
  match a.get "argv" (.list []) with
  | .list items => items.map fun v => py.lower (py.str v)
  | _ => []

/-- The command line in its own case. -/
def argvRaw (py : Python) (a : Action) : List String :=
  match a.get "argv" (.list []) with
  | .list items => items.map py.str
  | _ => []

/-- `_matches_any_prefix`. -/
def matchesAnyBegin (argv : List String) (begins : List (List String)) : Bool :=
  begins.any fun b => b.isPrefixOf argv

/-- `_explicit_http_method`. -/
def explicitHttpMethod : List String → Option String
  | [] => none
  | tok :: rest =>
      if (tok = "-x" ∨ tok = "--method") ∧ rest ≠ [] then
        rest.head?
      else if startsWith tok "--method=" then
        some (String.ofList (tok.toList.drop 9))
      else if startsWith tok "-x" ∧ 2 < tok.length then
        some (String.ofList (tok.toList.drop 2))
      else
        explicitHttpMethod rest

/-- `_gh_api_verdict`. -/
def ghApiVerdict (py : Python) (argv : List String) : Option BlockVerdict :=
  let method := explicitHttpMethod (argv.map py.lower)
  if method.any fun m => httpMutatingVerbs.contains m then
    some (.deny .dataLoss ("gh api with mutating verb " ++ (method.getD "").toUpper))
  else if argv.any (fun tok => ghApiFieldFlags.contains tok) ∧
      ¬ method.any fun m => httpReadVerbs.contains m then
    some (.deny .dataLoss "gh api with field params is an implicit POST (write)")
  else
    none

/-! ### The red line -/

mutual

/-- `_flatten_strings`. -/
def flattenStrings : Val → List String
  | .str s => [s]
  | .dict entries => flattenEntries entries
  | .list items => flattenItems items
  | _ => []

/-- The texts of the values of a dict. -/
def flattenEntries : List (String × Val) → List String
  | [] => []
  | (_, v) :: rest => flattenStrings v ++ flattenEntries rest

/-- The texts of the items of a list. -/
def flattenItems : List Val → List String
  | [] => []
  | v :: rest => flattenStrings v ++ flattenItems rest

end

/-- `_credential_verdict`. -/
def credentialVerdict (py : Python) (payload : Val) : Option BlockVerdict :=
  (containsSecret py payload).map (.deny .credential)

/-- `_security_verdict`. -/
def securityVerdict (py : Python) (tool : String) (args : Val) : Option BlockVerdict :=
  if securityToolMarkers.any fun m => contains tool m then
    some (.deny .security s!"tool {py.repr (.str tool)} changes permissions/visibility")
  else
    let flat := py.lower (" ".intercalate (flattenStrings args))
    if contains flat "public" || contains flat "anonymous" || contains flat "everyone" then
      some (.deny .security "action would expose content publicly")
    else
      none

/-- `_valid_version`. -/
def validVersion (py : Python) : Val → Bool
  | .int n => decide (1 ≤ n)
  | .float q => decide (1 ≤ q)
  | .str s => (py.parseInt s).any fun n => decide (1 ≤ n)
  | _ => false

/-- The version of an update; arguments that are no dict have none. -/
def argsVersion : Val → Val
  | .dict entries => (entries.lookup "version").getD .none
  | _ => .none

/-- `_hard_deny_mcp`. -/
def hardDenyMcp (py : Python) (a : Action) : Option BlockVerdict :=
  let tool := a.lowered py "tool"
  let args := a.get "args" (.dict [])
  let siblings := a.filter fun e => !(["type", "server", "tool", "args"].contains e.1)
  (credentialVerdict py args).or <| (credentialVerdict py (.dict siblings)).or <|
    if dataLossToolMarkers.any fun m => contains tool m then
      some (.deny .dataLoss s!"tool {py.repr (.str tool)} is destructive (data loss)")
    else if (contains tool "updatepage" || contains tool "update_page") && !validVersion py (argsVersion args) then
      some (.deny .dataLoss "updatePage requires a positive integer version (unversioned overwrite)")
    else
      securityVerdict py tool args

/-- `Path.suffix` of a file name. -/
def pathSuffix (name : String) : String :=
  let ext := name.toList.reverse.takeWhile fun c => c != '.'
  if ext ≠ [] ∧ ext.length + 1 < name.length then "." ++ String.ofList ext.reverse else ""

/-- `confined_xlsx_path`: the resolved path, or why it is refused. -/
def confinedXlsxPath (files : FileView) (attachment : Val) (artifactRoot : Option String) :
    Except String (List String) :=
  match artifactRoot, attachment with
  | none, _ => .error "email attachment present but artifact root unknown (fail-closed)"
  | some root, .str path =>
      if strip path = "" then
        .error "email attachment path is not a valid string"
      else if !(files.resolve root).isPrefixOf (files.resolve path) then
        .error "email attachment is outside the artifact dir"
      else if pathSuffix ((files.resolve path).getLastD "") ≠ ".xlsx" then
        .error "email attachment is not an .xlsx report"
      else if !files.isFile (files.resolve path) then
        .error "email attachment file does not exist"
      else
        .ok (files.resolve path)
  | some _, _ => .error "email attachment path is not a valid string"

/-- `_attachment_verdict`. -/
def attachmentVerdict (files : FileView) (attachment : Val) (artifactRoot : Option String) :
    Option BlockVerdict :=
  match attachment with
  | .none => none
  | attachment =>
      match confinedXlsxPath files attachment artifactRoot with
      | .ok _ => none
      | .error msg => some (.deny .security msg)

/-- Whether the field `to` of an email names someone. -/
def hasRecipient (py : Python) : Val → Bool
  | .str s => strip s != ""
  | .list items => items.any fun v => strip (py.str v) != ""
  | _ => false

/-- `_hard_deny_email`. -/
def hardDenyEmail (py : Python) (files : FileView) (a : Action) (artifactRoot : Option String) :
    Option BlockVerdict :=
  let recipient := a.get "to" .none
  let subject := a.get "subject" (.str "")
  let body := a.get "body" (.str "")
  let attachment := a.get "attachment_path" .none
  let payload := Val.dict [("to", recipient), ("subject", subject), ("body", body), ("attachment_path", attachment)]
  (credentialVerdict py payload).or <| (attachmentVerdict files attachment artifactRoot).or <|
    if !hasRecipient py recipient then
      some (.deny .notAllowlisted "email_send has no recipient")
    else if strip (py.str body) = "" then
      some (.deny .notAllowlisted "email_send has an empty body")
    else
      none

/-- `_hard_deny_telegram`. -/
def hardDenyTelegram (py : Python) (a : Action) : Option BlockVerdict :=
  let chatId := a.get "chat_id" .none
  let text := a.get "text" (.str "")
  (credentialVerdict py (.dict [("chat_id", chatId), ("text", text)])).or <|
    if strip (py.str (chatId.orElse (.str ""))) = "" then
      some (.deny .notAllowlisted "telegram_send has no chat_id")
    else if strip (py.str text) = "" then
      some (.deny .notAllowlisted "telegram_send has an empty text")
    else
      none

/-- `_hard_deny_gh`. -/
def hardDenyGh (py : Python) (a : Action) : Option BlockVerdict :=
  let argv := argvLower py a
  let joined := " ".intercalate argv
  (credentialVerdict py (.list (argv.map .str))).or <|
    if matchesAnyBegin argv ghDataLossBegins then
      some (.deny .dataLoss "gh subcommand is an irreversible delete")
    else if argv.any fun flag => ghDangerousFlags.contains flag then
      some (.deny .dataLoss "gh command carries a forced/irreversible flag")
    else
      (if ["api"].isPrefixOf argv then ghApiVerdict py (argvRaw py a) else none).or <|
        if (contains joined "--visibility" && contains joined "public") || argv.contains "public" then
          some (.deny .security "gh command changes repository visibility to public")
        else if argv.contains "push" && (contains joined "--force" || argv.contains "-f" ||
            argv.any (fun tok => startsWith tok "+") || argv.contains "--force-with-lease") then
          some (.deny .dataLoss "force-push detected")
        else
          none

/-! ### The verdicts -/

/-- `_normalize_allowlist`. -/
def normalizeAllowlist (py : Python) : Option (List (String × List String)) → List (String × List String)
  | none => defaultMcpAllowlist
  | some table => table.map fun e => (py.lower e.1, e.2.map py.lower)

/-- `_allowlisted_mcp`; of two entries for a server the later counts. -/
def allowlistedMcp (py : Python) (a : Action) (table : List (String × List String)) : Bool :=
  ((table.reverse.lookup (a.lowered py "server")).getD []).contains (a.lowered py "tool")

/-- `_allowlisted_gh`. -/
def allowlistedGh (py : Python) (a : Action) : Bool :=
  matchesAnyBegin (argvLower py a) ghAllowlistBegins

/-- The default-deny layer. -/
def denyByDefault (py : Python) (allowed : Bool) (label : Val) : BlockVerdict :=
  if allowed then
    .allow
  else
    .deny .notAllowlisted s!"action {py.repr label} is not on the allowlist (default deny)"

/-- `classify`. -/
def classify (py : Python) (files : FileView) (allowlist : Option (List (String × List String)))
    (artifactRoot : Option String) (a : Action) : BlockVerdict :=
  let type := a.type py
  if type = "mcp_tool" then
    (hardDenyMcp py a).getD
      (denyByDefault py (allowlistedMcp py a (normalizeAllowlist py allowlist)) (a.get "tool" .none))
  else if type = "gh_cli" then
    (hardDenyGh py a).getD
      (denyByDefault py (allowlistedGh py a) (.str (" ".intercalate ((argvLower py a).take 3))))
  else if type = "email_send" then
    (hardDenyEmail py files a artifactRoot).getD .allow
  else if type = "telegram_send" then
    (hardDenyTelegram py a).getD .allow
  else
    (credentialVerdict py (a.get "args" (a.get "argv" (.dict a)))).getD
      (.deny .notAllowlisted s!"unknown action type {py.repr (.str type)} is denied by default")

/-- `needs_interrupt`; malformed arguments raise. -/
def needsInterrupt (py : Python) (externalChannels : List String) (a : Action) :
    Except String InterruptVerdict := do
  let type := a.type py
  if type = "email_send" then
    return { interrupt := true, reason := "Lớp B: gửi email cần người duyệt" }
  else if type = "mcp_tool" then
    let tool := a.lowered py "tool"
    if lopBToolMarkers.any fun m => contains tool m then
      return { interrupt := true, reason := s!"Lớp B: {py.repr (.str tool)} cần người duyệt" }
    else if contains tool "post_message" || contains tool "post_message_blocks" then
      let channel := py.str (← ((a.get "args" .none).orElse (.dict [])).getKey "channel" (.str ""))
      if channel ≠ "" ∧ channel ∈ externalChannels then
        return { interrupt := true
                 reason := s!"Lớp B: post tới channel external {py.repr (.str channel)} cần người duyệt" }
      else
        return { interrupt := false }
    else
      return { interrupt := false }
  else if type = "gh_cli" then
    let argv := (← (a.get "argv" (.list [])).iterate).map fun v => py.lower (py.str v)
    match lopBGhBegins.find? fun b => b.isPrefixOf argv with
    | some b => return { interrupt := true, reason := "Lớp B: gh " ++ " ".intercalate b ++ " cần người duyệt" }
    | none => return { interrupt := false }
  else
    return { interrupt := false }

end ProjectManager
