import ProjectManager.Actions.Value
import ProjectManager.Inbox.Answers
import ProjectManager.Lib.Process

/-!
# The chat for operations

The dialogue by which the operator runs commands of the fleet: `handle_ops_message` as a program over the calls
that leave it, the statements of the draft store, the questions to the model, and the hooks of the commands.  The
model only classifies a message and extracts the value of a slot; what it answers is not trusted with more.
-/

namespace ProjectManager

open Process

/-! ### Replies to a preview -/

/-- `_CONFIRM_WORDS`. -/
def confirmWords : List String :=
  ["xác nhận", "xac nhan", "đồng ý", "dong y", "ok", "duyệt", "duyet", "yes", "chốt", "chot", "được", "duoc"]

/-- `_CANCEL_WORDS`, and `_CANCEL_WORD_TOKENS`. -/
def cancelWords : List String :=
  ["huỷ", "hủy", "huy", "thôi", "thoi", "không", "khong", "cancel", "stop", "dừng", "dung"]

/-- `_CONFIRM_WORD_TOKENS`. -/
def confirmWordTokens : List String :=
  ["ok", "duyệt", "duyet", "yes", "chốt", "chot", "được", "duoc", "nhận", "nhan"]

/-- The letters that the pattern of `_confirm_decision` names beside `\w`. -/
def vietnameseLetters : List Char :=
  "àáảãạăắằẳẵặâấầẩẫậèéẻẽẹêếềểễệìíỉĩịòóỏõọôốồổỗộơớờởỡợùúủũụưứừửữựỳýỷỹỵđ".toList

/-- `_norm`. -/
def normReply (py : Python) (text : String) : String :=
  py.lower (Text.strip text)

/-- The words of a reply: the longest runs of the characters of the pattern. -/
def replyTokens (py : Python) (message : String) : List String :=
  (((py.lower message).toList.splitOnP fun c => !(py.isWord c || vietnameseLetters.contains c)).filter
    fun word => !word.isEmpty).map String.ofList

/-- What a reply to a preview comes to. -/
inductive ConfirmDecision where
  | confirm
  | cancel
  | unclear
deriving DecidableEq

/-- `_confirm_decision`. -/
def confirmDecision (py : Python) (message : String) : ConfirmDecision :=
  let tokens := replyTokens py message
  if tokens.any fun t => cancelWords.contains t then
    .cancel
  else if (tokens.any fun t => confirmWordTokens.contains t) || confirmWords.contains (normReply py message) then
    .confirm
  else
    .unclear

/-! ### Commands -/

/-- The values of slots, in the order in which they were set. -/
abbrev Slots :=
  List (String × String)

/-- `slots[name] = value`. -/
def Slots.set (slots : Slots) (name value : String) : Slots :=
  if slots.any fun s => s.1 == name then
    slots.map fun s => if s.1 = name then (name, value) else s
  else
    slots ++ [(name, value)]

/-- A slot is filled. -/
def Slots.has (slots : Slots) (name : String) : Bool :=
  (slots.lookup name).any fun value => value != ""

/-- The rule of a slot; an empty text or list, or zero, means that there is no such rule. -/
structure SlotRule where
  prompt : String
  required : Bool
  hint : String
  maxLen : ℕ
  lower : Bool
  choices : List (String × List String)
  pattern : String

/-- A command of the catalogue; its hooks are calls. -/
structure OpsCommand where
  description : String
  slots : List (String × SlotRule)
  readonly : Bool
  onCancel : Bool

/-- `OPS_COMMANDS`. -/
abbrev OpsCatalogue :=
  List (String × OpsCommand)

/-- `command_listing`. -/
def commandListing (catalogue : OpsCatalogue) : String :=
  "; ".intercalate (catalogue.map fun c => "`" ++ c.1 ++ "` — " ++ c.2.description)

/-- What the chat takes from the library: texts, `json.loads` of an answer without its fence, and `re.fullmatch`. -/
structure OpsLibrary where
  py : Python
  parseJsonObject : String → Option Action
  fullmatch : String → String → Bool

/-- `_normalize_slot`. -/
def normalizeSlot (py : Python) (rule : SlotRule) (value : String) : String :=
  let stripped := Text.strip value
  let value := if rule.lower then py.lower stripped else stripped
  let key := py.lower value
  let canonical := rule.choices.find? fun c => key == py.lower c.1 || c.2.any fun a => key == py.lower a
  (canonical.map fun c => c.1).getD value

/-- `_validate_slot`. -/
def validateSlot (lib : OpsLibrary) (rule : SlotRule) (value : String) : Option String :=
  if rule.maxLen ≠ 0 ∧ rule.maxLen < value.length then
    some ("dài quá " ++ toString rule.maxLen ++ " ký tự")
  else if rule.choices ≠ [] ∧ value ∉ rule.choices.map fun c => c.1 then
    some ("chỉ nhận: " ++ ", ".intercalate (rule.choices.map fun c => c.1))
  else if rule.pattern ≠ "" ∧ ¬ lib.fullmatch rule.pattern value then
    some "sai định dạng"
  else
    none

/-- `_next_missing_slot`. -/
def nextMissingSlot (spec : OpsCommand) (slots : Slots) : Option (String × SlotRule) :=
  spec.slots.find? fun s => s.2.required && !slots.has s.1

/-- The slots that a classified message brings with it. -/
def seedSlots (lib : OpsLibrary) (spec : OpsCommand) (slots : Slots) : List (String × Val) → Slots
  | [] => slots
  | (name, value) :: rest =>
      match value, spec.slots.lookup name with
      | .str s, some rule =>
          let normalized := normalizeSlot lib.py rule s
          if Text.strip s ≠ "" ∧ validateSlot lib rule normalized = none then
            seedSlots lib spec (slots.set name normalized) rest
          else
            seedSlots lib spec slots rest
      | _, _ => seedSlots lib spec slots rest

/-! ### Calls -/

inductive OpsPhase where
  | collecting
  | awaitingConfirm
deriving DecidableEq

/-- `OpsDraft`. -/
structure OpsDraft where
  commandId : String
  slots : Slots
  phase : OpsPhase
  updatedAt : ℚ
deriving DecidableEq

/-- `DRAFT_TTL_S`. -/
def draftTtl : ℚ :=
  1800

/-- What the hook of a command may raise. -/
inductive CommandError where
  | valueError (msg : String)
  | other (msg : String)

/-- `str(exc)`. -/
def CommandError.text : CommandError → String
  | valueError msg => msg
  | other msg => msg

/-- The calls that leave the program. -/
inductive OpsCall where
  /-- the row of a conversation -/
  | select (key : String)
  | save (key : String) (draft : OpsDraft)
  | clear (key : String)
  /-- the question which command a message means -/
  | classify (message : String)
  /-- the question which value a message gives -/
  | extract (field prompt answer hint : String)
  | preview (commandId : String) (slots : Slots)
  | run (commandId : String) (slots : Slots)
  | onCancel (commandId : String) (slots : Slots)

/-- The answers: the model answers with a text and its cost, a preview with the slots as it leaves them. -/
abbrev OpsCall.Resp : OpsCall → Type
  | .select _ => Option OpsDraft
  | .save _ _ => Unit
  | .clear _ => Unit
  | .classify _ => Except AnswerError (String × Option ℚ)
  | .extract _ _ _ _ => Except AnswerError (String × Option ℚ)
  | .preview _ _ => Slots × Except CommandError String
  | .run _ _ => Except CommandError String
  | .onCancel _ _ => Except CommandError Unit

/-- Programs of the chat. -/
abbrev OpsProg :=
  Prog OpsCall OpsCall.Resp

/-- Issues one call. -/
def ops (c : OpsCall) : OpsProg c.Resp :=
  .ask c

/-- `load`. -/
def loadDraft (key : String) (now : ℚ) : OpsProg (Option OpsDraft) := do
  match ← ops (.select key) with
  | none => return none
  | some draft =>
      if draftTtl < now - draft.updatedAt then
        ops (.clear key)
        return none
      else
        return some draft

/-! ### The model's part -/

/-- `classify_ops_intent`: what cannot be read is a question; a failure of the infrastructure is raised. -/
def classifyOpsIntent (lib : OpsLibrary) (message : String) : OpsProg (Action × Option ℚ) := do
  match ← ops (.classify message) with
  | .ok (content, cost) =>
      match lib.parseJsonObject content with
      | some parsed => return (parsed, cost)
      | none => return ([("intent", .str "question")], none)
  | .error e =>
      if e ∈ infraErrors then
        Prog.raise e.name
      else
        return ([("intent", .str "question")], none)

/-- `extract_slot_value`: what cannot be read is the answer as it is. -/
def extractSlotValue (lib : OpsLibrary) (field prompt answer hint : String) : OpsProg (String × Option ℚ) := do
  match ← ops (.extract field prompt answer hint) with
  | .ok (content, cost) =>
      match lib.parseJsonObject content with
      | some parsed =>
          let value := Text.strip (lib.py.str ((parsed.get "value" .none).orElse (.str "")))
          return (if value = "" then Text.strip answer else value, cost)
      | none => return (Text.strip answer, none)
  | .error e =>
      if e ∈ infraErrors then
        Prog.raise e.name
      else
        return (Text.strip answer, none)

/-! ### The dialogue -/

/-- A reply, which is empty when the message is left to the other paths, and the cost. -/
abbrev OpsReply :=
  String × Option ℚ

/-- `_advance_or_confirm`. -/
def advanceOrConfirm (catalogue : OpsCatalogue) (commandId : String) (slots : Slots) (key : String) (now : ℚ)
    (cost : Option ℚ) : OpsProg OpsReply :=
  match catalogue.lookup commandId with
  | none => Prog.raise "KeyError"
  | some spec =>
      match nextMissingSlot spec slots with
      | some (_, rule) => do
          ops (.save key ⟨commandId, slots, .collecting, now⟩)
          return (rule.prompt, cost)
      | none => do
          let (slots, previewed) ← ops (.preview commandId slots)
          match previewed with
          | .error (.valueError msg) =>
              ops (.clear key)
              return ("Chưa giao được việc: " ++ msg, cost)
          | .error (.other msg) => Prog.raise msg
          | .ok text =>
              if slots.has "auto_confirmed" then
                ops (.clear key)
                return (text, cost)
              else
                ops (.save key ⟨commandId, slots, .awaitingConfirm, now⟩)
                return (text, cost)

/-- The text of a value, if it is one. -/
def asText (v : Val) : Option String :=
  match v with
  | .str s => some s
  | _ => none

/-- `(intent.get("slots") or {}).items()`. -/
def intentSlots (intent : Action) : Except String (List (String × Val)) :=
  match intent.get "slots" .none with
  | .dict entries => .ok entries
  | v => if v.truthy then .error ("'" ++ v.typeName ++ "' object has no attribute 'items'") else .ok []

/-- `_start_new`. -/
def startNew (lib : OpsLibrary) (catalogue : OpsCatalogue) (message key : String) (now : ℚ) : OpsProg OpsReply := do
  let (intent, cost) ← classifyOpsIntent lib message
  let kind := asText (intent.get "intent" .none)
  let unsupported : OpsReply := ("Mình quản lý đội qua các lệnh: " ++ commandListing catalogue ++
    ". Hoặc hỏi thông tin, mình trả lời được.", cost)
  if kind = some "question" then
    return ("", cost)
  else if kind = some "unsupported" then
    return unsupported
  else
    match intent.get "command_id" .none with
    | .str commandId =>
        match catalogue.lookup commandId with
        | none => return unsupported
        | some spec => do
            let entries ← Prog.ofExcept (intentSlots intent)
            let slots := seedSlots lib spec [] entries
            if spec.readonly then
              match ← ops (.run commandId slots) with
              | .ok text => return (text, cost)
              | .error exc => return ("Chưa lấy được thông tin: " ++ exc.text, cost)
            else
              advanceOrConfirm catalogue commandId slots key now cost
    | .list _ => Prog.raise "unhashable type: 'list'"
    | .dict _ => Prog.raise "unhashable type: 'dict'"
    | _ => return unsupported

/-- `_collect_slot`. -/
def collectSlot (lib : OpsLibrary) (catalogue : OpsCatalogue) (draft : OpsDraft) (message key : String) (now : ℚ) :
    OpsProg OpsReply :=
  match catalogue.lookup draft.commandId with
  | none => do
      ops (.clear key)
      return ("Lệnh không còn khả dụng, mình huỷ nháp. Bạn thử lại nhé.", none)
  | some spec =>
      if cancelWords.contains (normReply lib.py message) then do
        ops (.clear key)
        return ("Đã huỷ. Cần gì bạn cứ nhắn mình.", none)
      else
        match nextMissingSlot spec draft.slots with
        | none => advanceOrConfirm catalogue draft.commandId draft.slots key now none
        | some (asking, rule) => do
            let (value, cost) ← extractSlotValue lib asking rule.prompt message rule.hint
            if value = "" then
              advanceOrConfirm catalogue draft.commandId draft.slots key now cost
            else
              let normalized := normalizeSlot lib.py rule value
              match validateSlot lib rule normalized with
              | some err => return ("Giá trị cho '" ++ asking ++ "' " ++ err ++ ". Bạn nhập lại giúp mình.", cost)
              | none => advanceOrConfirm catalogue draft.commandId (draft.slots.set asking normalized) key now cost

/-- `_handle_confirm`. -/
def handleConfirm (lib : OpsLibrary) (catalogue : OpsCatalogue) (draft : OpsDraft) (message key : String) :
    OpsProg OpsReply := do
  let spec := catalogue.lookup draft.commandId
  if confirmDecision lib.py message = .confirm ∧ spec.isSome then
    ops (.clear key)
    match ← ops (.run draft.commandId draft.slots) with
    | .ok text => return (text, none)
    | .error (.valueError msg) => return ("Chưa thực hiện được: " ++ msg, none)
    | .error (.other msg) => return ("Có lỗi khi thực hiện: " ++ msg, none)
  else
    ops (.clear key)
    if spec.any fun c => c.onCancel then
      let _ ← ops (.onCancel draft.commandId draft.slots)
    return ("Đã huỷ (chưa xác nhận rõ). Cần làm lại bạn nhắn mình từ đầu nhé.", none)

/-- `handle_ops_message`. -/
def handleOpsMessage (lib : OpsLibrary) (catalogue : OpsCatalogue) (message key : String) (now : ℚ) :
    OpsProg OpsReply := do
  match ← loadDraft key now with
  | none => startNew lib catalogue message key now
  | some draft =>
      match draft.phase with
      | .awaitingConfirm => handleConfirm lib catalogue draft message key
      | .collecting => collectSlot lib catalogue draft message key now

end ProjectManager
