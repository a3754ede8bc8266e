import ProjectManager.Actions.Queueing
import ProjectManager.Inbox.Slack
import ProjectManager.Inbox.Telegram

/-!
# Chat commands

`maybe_handle_command`: a mention is classified, its arguments are checked, and the action goes to the queue under a
reason that carries the stamp of the mention.  A mention that is polled again is recognised by a search for that
stamp in the reasons of the pending approvals.
-/

namespace ProjectManager

open Process Text

/-! ### The catalog -/

/-- A rule of `args_schema`; `pattern` is what `re.fullmatch` says of the pattern. -/
structure ArgRule where
  required : Bool := false
  maxLen : ℕ := 0
  pattern : Option (String → Bool) := none

/-- A command of the catalog; `build_args` has the configuration of the agent. -/
structure CommandSpec where
  description : String
  server : String
  tool : String
  argsSchema : List (String × ArgRule)
  buildArgs : Option (List (String × String) → Except String Action)

/-- The commands of a pack. -/
abbrev Catalog :=
  List (String × CommandSpec)

/-- A stamp that one of the two transports gives a message. -/
def IsTransportTs (ts : String) : Prop :=
  IsStamp ts ∨ ∃ update m, toMention update = some m ∧ m.ts = ts

/-- What is read of a mention. -/
structure ChatMention where
  ts : String
  text : String
  user : String
  transport : String
  channel : String
  stamp : IsTransportTs ts

/-! ### Classification -/

/-- `classify_intent`, from the answer of the model; `parse` takes the fences off and reads the JSON text. -/
def classifyIntent (parse : String → Option Val) (answer : Except AnswerError (String × Option ℚ)) :
    Except AnswerError (Action × Option ℚ) :=
  match answer with
  | .error e => if e ∈ infraErrors then .error e else .ok ([("intent", .str "question")], none)
  | .ok (content, cost) =>
      match parse content with
      | some (.dict intent) => .ok (intent, cost)
      | _ => .ok ([("intent", .str "question")], none)

/-- One field of `validate_args`. -/
def checkArg (name : String) (rule : ArgRule) (value : Val) : Except String (Option (String × String)) :=
  let missing := if rule.required then Except.error s!"thiếu field bắt buộc: {name}" else .ok none
  match value with
  | .none => missing
  | .str text =>
      let text := strip text
      if text = "" then
        missing
      else if rule.maxLen ≠ 0 ∧ rule.maxLen < text.length then
        .error s!"field {name} dài quá {rule.maxLen} ký tự"
      else if rule.pattern.any fun fullmatch => !fullmatch text then
        .error s!"field {name} sai định dạng"
      else
        .ok (some (name, text))
  | _ => .error s!"field {name} phải là chuỗi"

/-- `validate_args`. -/
def validateArgs (spec : CommandSpec) : Val → Except String (List (String × String))
  | .dict args => do
      let unknown := (args.map Prod.fst).filter fun k => (spec.argsSchema.lookup k).isNone
      if unknown ≠ [] then
        throw ("field không có trong schema: " ++ ", ".intercalate (unknown.insertionSort (· ≤ ·)))
      let clean ← spec.argsSchema.mapM fun (name, rule) => checkArg name rule (Action.get args name .none)
      return clean.reduceOption
  | _ => .error "args phải là một object"

/-- `_args_preview`. -/
def argsPreview (py : Python) (args : Action) (limit : ℕ) : String :=
  let text := ", ".intercalate (args.map fun (k, v) => k ++ "=" ++ py.str v)
  String.ofList (text.toList.take limit) ++ if limit < text.length then "…" else ""

/-- The replies to a command. -/
inductive ChatReply where
  | unsupported (catalog : List (String × String))
  | badArgs (commandId err : String)
  | alreadyQueued (approvalId : ℕ)
  | executed (commandId preview : String)
  | refused (commandId summary : String)
  | queued (approvalId : Option ℕ) (commandId preview : String)
deriving DecidableEq

/-- The text of a reply. -/
def ChatReply.text (profileId : String) : ChatReply → String
  | unsupported catalog =>
      "Mình chưa hỗ trợ yêu cầu đó qua chat. Các lệnh hiện có: " ++
        "; ".intercalate (catalog.map fun (id, description) => s!"`{id}` — {description}") ++
        ". Hoặc hỏi thông tin bình thường, mình trả lời được."
  | badArgs commandId err =>
      s!"Lệnh `{commandId}` chưa chạy được: {err}. Bạn bổ sung rồi nhắc lại giúp mình."
  | alreadyQueued approvalId =>
      s!"Yêu cầu này đã ở hàng chờ duyệt (#{approvalId}) — duyệt tại /approvals hoặc `mpm agent approve`."
  | executed commandId preview =>
      s!"✅ Đã chạy `{commandId}` ({preview}) — tự duyệt (bạn trong danh sách tin cậy)."
  | refused commandId summary =>
      s!"Lệnh `{commandId}` bị guardrail từ chối: {summary}"
  | queued approvalId commandId preview =>
      let id := (approvalId.map toString).getD "None"
      s!"⏳ Đã xếp hàng chờ duyệt *#{id}*: `{commandId}` ({preview}). Duyệt tại dashboard /approvals hoặc " ++
        s!"`mpm agent approve {profileId} {id}`."

/-- What a classified mention asks for. -/
inductive ChatRequest where
  | question
  | unsupported
  | badArgs (commandId err : String)
  | command (commandId : String) (spec : CommandSpec) (clean : List (String × String))

/-- `maybe_handle_command` up to the checked arguments. -/
def readIntent (commands : Catalog) (intent : Action) : Except AnswerError ChatRequest :=
  match intent.get "intent" .none with
  | .str "question" => .ok .question
  | .str "unsupported" => .ok .unsupported
  | _ =>
      match intent.get "command_id" .none with
      | .str commandId =>
          match commands.lookup commandId with
          | none => .ok .unsupported
          | some spec =>
              match validateArgs spec ((intent.get "args" .none).orElse (.dict [])) with
              | .error err => .ok (.badArgs commandId err)
              | .ok clean => .ok (.command commandId spec clean)
      | .list _ => .error (.other "TypeError")
      | .dict _ => .error (.other "TypeError")
      | _ => .ok .unsupported

/-! ### The guard and the queue -/

/-- The marker of a stamp. -/
def chatMarker (ts : String) : String :=
  "chat-command ts=" ++ ts

/-- The reason that a command is queued under. -/
def chatReason (commandId ts : String) : String :=
  "chat-command '" ++ commandId ++ "' cần người duyệt (" ++ chatMarker ts ++ ")"

/-- `list_pending`. -/
def GateWorld.pendingApprovals (w : GateWorld) : List PendingApproval :=
  w.approvals.rows.filter fun row => decide (row.status = .pending)

/-- `_already_queued`. -/
def alreadyQueued (w : GateWorld) (marker : String) : Option ℕ :=
  (w.pendingApprovals.find? fun row => contains row.reason marker).map fun row => row.id

/-- The arguments of the action. -/
def CommandSpec.actionArgs (spec : CommandSpec) (clean : List (String × String)) : Except String Action :=
  match spec.buildArgs with
  | some buildArgs => buildArgs clean
  | none => .ok (clean.map fun (k, v) => (k, .str v))

/-- The action that is queued. -/
def CommandSpec.action (spec : CommandSpec) (args : Action) : Val :=
  .dict [("type", .str "mcp_tool"), ("server", .str spec.server), ("tool", .str spec.tool), ("args", .dict args)]

/-- The reply to what the gateway has done. -/
def gatewayReply (commandId preview : String) (result : GatewayResult) : ChatReply :=
  if result.status = .executed then
    .executed commandId preview
  else if result.status ≠ .pendingApproval then
    .refused commandId result.summary
  else
    .queued result.approvalId commandId preview

section Handling

variable (py : Python) (parse : String → Option Val) (g : Gateway) (commands : Catalog)

/-- What the mention asks for, and what the classification cost. -/
def requestOf (answer : Except AnswerError (String × Option ℚ)) : Except AnswerError (ChatRequest × Option ℚ) := do
  let (intent, cost) ← classifyIntent parse answer
  return (← readIntent commands intent, cost)

/-- `maybe_handle_command` from the checked arguments on. -/
def queueCommand (m : ChatMention) (commandId : String) (spec : CommandSpec) (clean : List (String × String))
    (w : GateWorld) : Except AnswerError ChatReply × GateWorld :=
  match alreadyQueued w (chatMarker m.ts) with
  | some existing => (.ok (.alreadyQueued existing), w)
  | none =>
      match spec.actionArgs clean with
      | .error msg => (.error (.other msg), w)
      | .ok args =>
          match (g.enqueueForApproval py (spec.action args) (chatReason commandId m.ts) (chatMarker m.ts) m.user
              m.transport m.channel true).run (GateCall.handle py) w with
          | (.error msg, w') => (.error (.other msg), w')
          | (.ok result, w') => (.ok (gatewayReply commandId (argsPreview py args 120) result), w')

/-- `maybe_handle_command`, with the answer of the model. -/
def maybeHandleCommand (answer : Except AnswerError (String × Option ℚ)) (m : ChatMention) (w : GateWorld) :
    Except AnswerError (Option (ChatReply × Option ℚ)) × GateWorld :=
  if commands.isEmpty then
    (.ok none, w)
  else
    match requestOf parse commands answer with
    | .error e => (.error e, w)
    | .ok (.question, _) => (.ok none, w)
    | .ok (.unsupported, cost) => (.ok (some (.unsupported (commands.map fun c => (c.1, c.2.description)), cost)), w)
    | .ok (.badArgs commandId err, cost) => (.ok (some (.badArgs commandId err, cost)), w)
    | .ok (.command commandId spec clean, cost) =>
        let (out, w') := queueCommand py g m commandId spec clean w
        (out.map fun reply => some (reply, cost), w')

end Handling

end ProjectManager
