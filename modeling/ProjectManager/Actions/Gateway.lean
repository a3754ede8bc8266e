import ProjectManager.Actions.HardBlock
import ProjectManager.Lib.Process
import ProjectManager.Lib.Table

/-!
# The action gateway

The one path for every mutation, as programs over the stores it shares with other gateways: the approval
queue, the set of claimed keys, the audit log.  Any number of calls run at once, on gateways with any
configuration.  `gateway_mediates` says that whenever a call is about to run a write handler, the red
line, the kill switch and dry-run let it pass, and the call is entitled to run it.
-/

namespace ProjectManager

open Process Table

/-! ### The trust ladder -/

/-- The grant for one kind of action. -/
structure Grant where
  enabled : Bool
  maxPerDay : ℕ
  /-- the channels or recipients that the grant names -/
  destinations : Option (List String)

/-- `auto_approve` as the profile loader validates it. -/
structure AutoApprove where
  slackPost : Option Grant
  emailSend : Option Grant
  trustedTelegram : List String

/-- The kinds of action that the trust ladder knows. -/
inductive SemanticType where
  | slackPost | emailSend
deriving DecidableEq

/-- The key of a kind. -/
def SemanticType.text : SemanticType → String
  | .slackPost => "slack_post"
  | .emailSend => "email_send"

/-- The grant of a kind. -/
def AutoApprove.grant (config : AutoApprove) : SemanticType → Option Grant
  | .slackPost => config.slackPost
  | .emailSend => config.emailSend

/-- Where a call comes from. -/
inductive Origin where
  | scheduled
  | chat (senderId transport chatId : String)

/-- `AutoApproveDecision`. -/
structure AutoApproveDecision where
  allowed : Bool
  rationale : String := ""
  reason : String := ""

/-- `_action_semantic_type`. -/
def actionSemanticType (py : Python) (a : Action) : Option SemanticType :=
  if a.type py = "email_send" then
    some .emailSend
  else if a.type py = "mcp_tool" && Text.contains (a.lowered py "tool") "post_message" then
    some .slackPost
  else
    none

/-- `_action_destination`. -/
def actionDestination (py : Python) (a : Action) (stype : SemanticType) : Except String String := do
  let args := (a.get "args" .none).orElse (.dict [])
  match stype with
  | .slackPost => return py.str ((← args.getKey "channel" .none).orElse (.str ""))
  | .emailSend =>
      if (a.get "to" .none).truthy then
        return py.str (a.get "to" .none)
      else
        return py.str ((← args.getKey "to" .none).orElse (.str ""))

/-- The trusted-sender gate of `evaluate`. -/
def evaluateOrigin (config : AutoApprove) (stype : SemanticType) : Origin → AutoApproveDecision
  | .scheduled => { allowed := true, rationale := "auto_approve:scheduled:" ++ stype.text }
  | .chat senderId transport chatId =>
      if transport ≠ "telegram" then
        { allowed := false, reason := "chat auto chỉ áp dụng Telegram" }
      else if senderId = "" ∨ chatId = "" ∨ chatId ≠ senderId then
        { allowed := false, reason := "chat auto chỉ áp dụng DM riêng" }
      else if senderId ∉ config.trustedTelegram then
        { allowed := false, reason := "người gửi không trong danh sách tin cậy" }
      else
        { allowed := true, rationale := "auto_approve:trusted_sender:" ++ senderId }

/-- `evaluate`. -/
def evaluate (py : Python) (a : Action) (config : AutoApprove) (origin : Origin) :
    Except String AutoApproveDecision := do
  match actionSemanticType py a with
  | none => return { allowed := false, reason := "loại hành động không hỗ trợ auto" }
  | some stype =>
      match config.grant stype with
      | none => return { allowed := false, reason := stype.text ++ " chưa bật auto" }
      | some grant =>
          if !grant.enabled then
            return { allowed := false, reason := stype.text ++ " chưa bật auto" }
          else
            let dest ← actionDestination py a stype
            if grant.destinations.any fun ds => !ds.contains dest then
              return { allowed := false
                       reason := "đích " ++ py.repr (.str dest) ++ " ngoài phạm vi được cấp" }
            else
              return evaluateOrigin config stype origin

/-- The key of one of the day's slots. -/
def slotKey (stype : SemanticType) (date : String) (seq : ℕ) : String :=
  s!"auto-slot:{stype.text}:{date}:{seq}"

/-! ### Stores -/

/-- The status of a queued action. -/
inductive ApprovalStatus where
  | pending | approved | rejected
deriving DecidableEq, Repr

/-- The text of an approval status. -/
def ApprovalStatus.text : ApprovalStatus → String
  | .pending => "pending"
  | .approved => "approved"
  | .rejected => "rejected"

/-- A row of `approvals`. -/
structure PendingApproval where
  id : ℕ
  action : Action
  reason : String
  status : ApprovalStatus
  rationale : String

/-- `AuditEntry`. -/
structure AuditEntry where
  actionType : String
  tool : String
  verdict : String
  reason : String
  params : Action
  resultSummary : String
  dryRun : Bool
  rationale : String

/-- What the gateways share, and what they read of their surroundings. -/
structure GateWorld where
  approvals : Auto PendingApproval ℕ (fun r => r.id) (fun r => r.id)
  seenKeys : List String
  audit : List AuditEntry
  /-- the calls of each gateway object in the rate-limit window -/
  recentCalls : ℕ → List ℚ
  monotonic : ℚ
  localDate : String
  files : FileView
  /-- what the write handlers would answer now -/
  handler : Action → Except String String

/-- The calls of the gateway programs to their stores and handlers. -/
inductive GateCall where
  | files
  | enqueue (action : Action) (reason rationale : String)
  | getApproval (id : ℕ)
  | transitionIfPending (id : ℕ) (status : ApprovalStatus)
  | setStatus (id : ℕ) (status : ApprovalStatus)
  | claim (key : String)
  | release (key : String)
  | today
  | checkRateLimit (gateway : ℕ)
  | record (entry : AuditEntry)
  | invoke (action : Action)

/-- What a call answers. -/
@[reducible] def GateCall.Resp : GateCall → Type
  | files => FileView
  | enqueue .. => ℕ
  | getApproval _ => Option PendingApproval
  | transitionIfPending .. => Bool
  | setStatus .. => Unit
  | claim _ => Bool
  | release _ => Unit
  | today => String
  | checkRateLimit _ => Bool
  | record _ => Unit
  | invoke _ => Except String String

/-- `_RATE_LIMIT_MAX`. -/
def rateLimitMax : ℕ := 10

/-- `_RATE_LIMIT_WINDOW_S`. -/
def rateLimitWindow : ℚ := 60

/-- Changes the status of the rows that match. -/
def GateWorld.updateApprovals (w : GateWorld) (p : PendingApproval → Bool) (status : ApprovalStatus) :
    GateWorld :=
  { w with approvals :=
      w.approvals.updateWhere p (fun r => { r with status := status }) (fun _ => rfl) fun _ => rfl }

/-- Runs a call. -/
def GateCall.handle (py : Python) : (c : GateCall) → GateWorld → c.Resp × GateWorld
  | files, w => (w.files, w)
  | enqueue action reason rationale, w =>
      (w.approvals.last + 1,
        match w.approvals.insert?
            (fun n => { id := n, action := redactEntries py action, reason := reason, status := .pending
                        rationale := rationale }) fun _ => rfl with
        | some approvals => { w with approvals := approvals }
        | none => w)
  | getApproval id, w => (w.approvals.find? id, w)
  | transitionIfPending id status, w =>
      let isPending := fun r : PendingApproval => decide (r.id = id) && decide (r.status = .pending)
      (w.approvals.rows.any isPending, w.updateApprovals isPending status)
  | setStatus id status, w => ((), w.updateApprovals (fun r => decide (r.id = id)) status)
  | claim key, w =>
      if key ∈ w.seenKeys then (false, w) else (true, { w with seenKeys := key :: w.seenKeys })
  | release key, w => ((), { w with seenKeys := w.seenKeys.filter fun k => decide (k ≠ key) })
  | today, w => (w.localDate, w)
  | checkRateLimit gateway, w =>
      let live := (w.recentCalls gateway).dropWhile fun t => decide (t < w.monotonic - rateLimitWindow)
      let admitted := decide (live.length < rateLimitMax)
      let calls := if admitted then live ++ [w.monotonic] else live
      (admitted, { w with recentCalls := fun g => if g = gateway then calls else w.recentCalls g })
  | record entry, w => ((), { w with audit := w.audit ++ [entry] })
  | invoke action, w => (w.handler action, w)

/-! ### The gateway -/

/-- A gateway object. -/
structure Gateway where
  name : ℕ
  writeDisabled : Bool
  dryRun : Bool
  externalChannels : List String
  mcpAllowlist : Option (List (String × List String))
  autoApprove : Option AutoApprove
  artifactRoot : String

/-- The statuses of `GatewayResult`. -/
inductive GatewayStatus where
  | executed | dryRun | skipped | deduplicated | pendingApproval
deriving DecidableEq, Repr

/-- `GatewayResult`. -/
structure GatewayResult where
  status : GatewayStatus
  summary : String
  approvalId : Option ℕ := none

/-- Programs of the gateway. -/
abbrev GateProg :=
  Prog GateCall GateCall.Resp

/-- Issues one call. -/
def gate (c : GateCall) : GateProg c.Resp :=
  .ask c

/-- `_MUTATING_TYPES`. -/
def mutatingTypes : List String :=
  ["mcp_tool", "gh_cli", "email_send", "telegram_send"]

/-- `_label`. -/
def actionLabel (py : Python) (a : Action) : Except String String := do
  let field := fun key => py.str (a.get key (.str "?"))
  match a.get "type" (.str "?") with
  | .str "mcp_tool" => return field "server" ++ ":" ++ field "tool"
  | .str "gh_cli" => return "gh " ++ " ".intercalate ((← (a.get "argv" (.list [])).slice 3).map py.str)
  | .str "email_send" => return "email:" ++ field "to"
  | .str "telegram_send" => return "telegram:" ++ field "chat_id"
  | other => return py.str other

/-- `_action_dedup_key`. -/
def actionDedupKey (py : Python) (a : Action) : Except String String := do
  match a.get "dedup_hint" .none with
  | .str hint =>
      if hint ≠ "" then
        return "hint:" ++ (← actionLabel py a) ++ ":" ++ hint
      else
        return py.sha256 (py.dumps (.dict a))
  | _ => return py.sha256 (py.dumps (.dict a))

namespace Gateway

variable (py : Python) (g : Gateway)

/-- The policy as this gateway applies it. -/
def verdict (files : FileView) (a : Action) : BlockVerdict :=
  classify py files g.mcpAllowlist (some g.artifactRoot) a

/-- `_record`. -/
def record (a : Action) (tool verdict reason rationale : String) (dryRun : Bool) (result : String) :
    GateProg Unit :=
  gate (.record
    { actionType := a.type py
      tool := tool
      verdict := verdict
      reason := reason
      params := a
      resultSummary := result
      dryRun := dryRun
      rationale := rationale })

/-- The checks on the shape of an action, shared by `_execute` and `enqueue_for_approval`. -/
def checkedAction (action : Val) (refused : String) : Except String Action :=
  match action with
  | .dict a =>
      if mutatingTypes.contains (Action.type py a) then
        .ok a
      else
        .error ("ActionGateway only handles mutating actions; got type=" ++
          py.repr (.str (Action.type py a)) ++ ".")
  | other => .error s!"action must be a dict, got {other.typeName}; refused {refused}."

/-- `_execute` from the reserved key on: the handler runs at most once. -/
def runHandler (a : Action) (tool key rationale : String) (hasHandler : Bool) : GateProg GatewayResult :=
  if !hasHandler then do
    gate (.release key)
    record py a tool "skipped" "no handler (Phase 0)" rationale false ""
    return { status := .skipped, summary := "no handler for " ++ tool }
  else do
    let outcome ← gate (.invoke a)
    match outcome with
    | .error exc => do
        gate (.release key)
        record py a tool "deny" ("handler error: " ++ exc) rationale false ""
        Prog.raise ("Handler for " ++ tool ++ " failed: " ++ exc)
    | .ok summary => do
        record py a tool "allow" "executed" rationale false summary
        return { status := .executed, summary := summary }

/-- `_execute` after the verdict let the action pass: kill switch, dry-run, rate limit, idempotency. -/
def runPassed (a : Action) (tool rationale : String) (hasHandler : Bool) : GateProg GatewayResult :=
  if g.writeDisabled then do
    record py a tool "deny" "kill switch on" rationale false ""
    Prog.raise "AGENT_WRITE_DISABLED is on; all mutations are refused."
  else if g.dryRun then do
    record py a tool "dry_run" "DRY_RUN on" rationale true ""
    return { status := .dryRun, summary := "[dry-run] would run " ++ tool }
  else do
    let admitted ← gate (.checkRateLimit g.name)
    if !admitted then do
      record py a tool "deny" "rate limit" rationale false ""
      Prog.raise s!"Rate limit: more than {rateLimitMax} mutations in 60s."
    else do
      let key ← Prog.ofExcept (actionDedupKey py a)
      let claimed ← gate (.claim key)
      if !claimed then do
        record py a tool "skipped" "duplicate action" rationale false ""
        return { status := .deduplicated, summary := "duplicate " ++ tool ++ " skipped" }
      else
        runHandler py a tool key rationale hasHandler

/-- `_execute` from the deny stage on. -/
def runVerdict (a : Action) (tool rationale : String) (hasHandler approved : Bool) (v : BlockVerdict) :
    GateProg GatewayResult :=
  if v.blocked ∧ ¬ (approved ∧ v.category = some .notAllowlisted) then do
    record py a tool "deny" v.reason rationale false ""
    Prog.raise ("Lớp A hard-block (" ++ (v.category.map BlockCategory.text).getD "?" ++ "): " ++ v.reason)
  else
    runPassed py g a tool rationale hasHandler

/-- `_execute(approved=True)`. -/
def executeApproved (action : Val) (hasHandler : Bool) (rationale : String) : GateProg GatewayResult := do
  let a ← Prog.ofExcept (checkedAction py action "un-run")
  let tool ← Prog.ofExcept (actionLabel py a)
  let files ← gate .files
  runVerdict py g a tool rationale hasHandler true (g.verdict py files a)

/-- The loop of `claim_daily_slot`: `left` slots remain to be tried. -/
def claimSlot (stype : SemanticType) (date : String) (max : ℕ) : ℕ → GateProg Bool
  | 0 => return false
  | left + 1 => do
      let claimed ← gate (.claim (slotKey stype date (max - left)))
      if claimed then return true else claimSlot stype date max left

/-- `claim_daily_slot`. -/
def claimDailySlot (a : Action) (config : AutoApprove) : GateProg Bool :=
  match actionSemanticType py a with
  | none => return false
  | some stype =>
      match config.grant stype with
      | none => return false
      | some grant =>
          if grant.maxPerDay = 0 then
            return false
          else do
            let date ← gate .today
            claimSlot stype date grant.maxPerDay grant.maxPerDay

/-- `_try_auto_approve`: the rationale to run the action with, or nothing. -/
def tryAutoApprove (a : Action) (origin : Origin) : GateProg (Option String) :=
  match g.autoApprove with
  | none => return none
  | some config => do
      let decision ← Prog.ofExcept (evaluate py a config origin)
      if !decision.allowed then
        return none
      else
        let claimed ← claimDailySlot py a config
        return if claimed then some decision.rationale else none

/-- The trust ladder is asked only when there is a handler to run. -/
def autoRationale (a : Action) (origin : Origin) (hasHandler : Bool) : GateProg (Option String) :=
  if hasHandler then tryAutoApprove py g a origin else return none

/-- Queues an action for approval. -/
def enqueue (a : Action) (tool reason rationale : String) : GateProg GatewayResult := do
  let id ← gate (.enqueue a reason rationale)
  record py a tool "pending" reason rationale false ""
  return { status := .pendingApproval
           summary := s!"{tool} queued for approval (id={id}): {reason}"
           approvalId := some id }

/-- `execute`. -/
def execute (action : Val) (hasHandler : Bool) (rationale : String) : GateProg GatewayResult := do
  let a ← Prog.ofExcept (checkedAction py action "un-run")
  let tool ← Prog.ofExcept (actionLabel py a)
  let files ← gate .files
  let interrupt ← Prog.ofExcept (needsInterrupt py g.externalChannels a)
  if interrupt.interrupt ∧ ¬ (g.verdict py files a).hardDeny then do
    let auto ← autoRationale py g a .scheduled hasHandler
    match auto with
    | some auto => executeApproved py g action hasHandler auto
    | none => enqueue py a tool interrupt.reason rationale
  else
    runVerdict py g a tool rationale hasHandler false (g.verdict py files a)

/-- `enqueue_for_approval`. -/
def enqueueForApproval (action : Val) (reason rationale senderId transport chatId : String)
    (hasHandler : Bool) : GateProg GatewayResult := do
  let a ← Prog.ofExcept (checkedAction py action "un-queued")
  let tool ← Prog.ofExcept (actionLabel py a)
  let files ← gate .files
  if (g.verdict py files a).blocked then do
    record py a tool "deny" (g.verdict py files a).reason rationale false ""
    return { status := .skipped
             summary := "hard-denied, not queued: " ++ (g.verdict py files a).reason }
  else
    let auto ← autoRationale py g a (.chat senderId transport chatId) hasHandler
    match auto with
    | some auto => executeApproved py g action hasHandler auto
    | none => enqueue py a tool reason rationale

/-- `approve`. -/
def approve (id : ℕ) : GateProg GatewayResult := do
  let row ← gate (.getApproval id)
  match row with
  | none => Prog.raise s!"No approval with id={id}."
  | some row => do
      let won ← gate (.transitionIfPending id .approved)
      if !won then
        Prog.raise s!"Approval id={id} is already '{row.status.text}'."
      else
        (executeApproved py g (.dict row.action) true s!"approved (id={id})").catchWith fun msg => do
          gate (.setStatus id .pending)
          Prog.raise msg

/-- `reject`. -/
def reject (id : ℕ) : GateProg Unit := do
  let row ← gate (.getApproval id)
  gate (.setStatus id .rejected)
  match row with
  | none => return ()
  | some row => do
      let tool ← Prog.ofExcept (actionLabel py row.action)
      record py row.action tool "reject" s!"rejected approval id={id}" "" false ""

end Gateway

end ProjectManager
