import ProjectManager.Actions.Value
import ProjectManager.Lib.KeptLines
import ProjectManager.Runtime.Service

/-!
# Editing the registry

`load_registry` and the three edits of `registry.yaml`.  An edit works on the lines of the file, with regular
expressions; the new text replaces the file only when it can be loaded and passes a check of the edited agent.  The
patterns are deterministic: white space before a character that is none is taken as a whole.
-/

namespace ProjectManager

open Lines Text

/-! ### Loading -/

/-- `[a-z0-9]` -/
def isIdStart (c : Char) : Bool :=
  c.isLower || c.isDigit

/-- `[a-z0-9_-]` -/
def isIdRest (c : Char) : Bool :=
  isIdStart c || c == '_' || c == '-'

/-- A text that `_AGENT_ID_RE` matches; a stripped text has no newline at its end. -/
def isAgentId : List Char → Bool
  | [] => false
  | c :: cs => isIdStart c && cs.all isIdRest

/-- The id of an agent. -/
structure AgentId where
  chars : List Char
  valid : isAgentId chars = true

/-- The id as a text. -/
def AgentId.text (agentId : AgentId) : String :=
  String.ofList agentId.chars

/-- What `load_registry` raises. -/
inductive RegistryError where
  | yaml (text : String)
  | noAgents
  | notMapping (raw : Val)
  | badId (rawId : Val)
  | unsafeId (id : String)
  | duplicateId (id : String)

/-- The text of an error; `path` is the file. -/
def RegistryError.message (py : Python) (path : String) : RegistryError → String
  | yaml text => text
  | noAgents => path ++ ": 'agents' must be a list of \x7bid, enabled\x7d."
  | notMapping raw => path ++ ": each agent must be a mapping; got " ++ py.repr raw ++ "."
  | badId rawId =>
      path ++ ": agent 'id' must be a non-empty string; got " ++ py.repr rawId ++
        ". If it is a YAML reserved word (on/off/yes/no/true/false), quote it."
  | unsafeId id =>
      path ++ ": Invalid agent id " ++ py.repr (.str id) ++
        ": must match ^[a-z0-9][a-z0-9_-]*$ (lowercase alnum, '-'/'_', no '/' or '..')."
  | duplicateId id => path ++ ": duplicate agent id " ++ py.repr (.str id) ++ "."

/-- `raw.get(key)` -/
def dictGet (entries : List (String × Val)) (key : String) : Val :=
  (entries.lookup key).getD .none

/-- One entry of the list of agents. -/
def loadEntry : Val → Except RegistryError RegistryEntry
  | .dict raw =>
      match dictGet raw "id" with
      | .str rawId =>
          let agentId := strip rawId
          if agentId = "" then
            .error (.badId (.str rawId))
          else if isAgentId agentId.toList then
            .ok ⟨agentId, ((raw.lookup "enabled").getD (.bool true)).truthy⟩
          else
            .error (.unsafeId agentId)
      | rawId => .error (.badId rawId)
  | raw => .error (.notMapping raw)

/-- The loop over the list of agents. -/
def loadEntries : List String → List Val → Except RegistryError (List RegistryEntry)
  | _, [] => .ok []
  | seen, raw :: rest =>
      match loadEntry raw with
      | .error e => .error e
      | .ok entry =>
          if entry.id ∈ seen then
            .error (.duplicateId entry.id)
          else
            (loadEntries (seen ++ [entry.id]) rest).map (entry :: ·)

/-- `load_registry` of a file that exists; `safeLoad` is `yaml.safe_load`. -/
def loadRegistry (safeLoad : List Char → Except String Val) (text : List Char) : Except RegistryError (List RegistryEntry) :=
  match safeLoad text with
  | .error text => .error (.yaml text)
  | .ok doc =>
      match doc.orElse (.dict []) with
      | .dict entries =>
          match dictGet entries "agents" with
          | .list agents => loadEntries [] agents
          | _ => .error .noAgents
      | _ => .error .noAgents

/-! ### The patterns -/

/-- What stands behind `^\s*-\s+`. -/
def afterDash (line : List Char) : Option (List Char) :=
  match line.dropWhile isSpace with
  | '-' :: rest => if rest.head?.any isSpace then some (rest.dropWhile isSpace) else none
  | _ => none

/-- `^\s*-\s+id:` -/
def isIdItem (line : List Char) : Bool :=
  (afterDash line).any fun rest => "id:".toList.isPrefixOf rest

/-- `\s*(#.*)?$` -/
def isLineEnd (rest : List Char) : Bool :=
  match rest.dropWhile isSpace with
  | [] => true
  | '#' :: comment => !comment.dropLast.contains '\n'
  | _ => false

/-- `^\s*-\s+id:\s*` with the id of the agent behind it, and `\s*(#.*)?$`. -/
def isItemOf (agentId : AgentId) (line : List Char) : Bool :=
  match afterDash line with
  | some rest =>
      let value := (rest.drop 3).dropWhile isSpace
      "id:".toList.isPrefixOf rest && agentId.chars.isPrefixOf value && isLineEnd (value.drop agentId.chars.length)
  | none => false

/-- `^\S` -/
def isAtMargin (line : List Char) : Bool :=
  line.head?.any fun c => !isSpace c

/-- The group of `^(\s*)enabled:\s*\S+.*$`. -/
def enabledIndent (line : List Char) : Option (List Char) :=
  let rest := line.dropWhile isSpace
  if "enabled:".toList.isPrefixOf rest && (rest.drop 8).any fun c => !isSpace c then
    some (line.takeWhile isSpace)
  else
    none

/-! ### The edits -/

/-- What an edit raises. -/
inductive EditError where
  | unknownAgent
  | registry (e : RegistryError)
  | unexpectedState

/-- `_entry_bounds` -/
def entryBounds (lines : List (List Char)) (agentId : AgentId) : Option (ℕ × ℕ) :=
  (lines.findIdx? (isItemOf agentId)).map fun start =>
    (start, start + 1 + (lines.drop (start + 1)).findIdx fun line => isIdItem line || isAtMargin line)

/-- `_replace_validated`: how the edit ends, and the file behind it. -/
def replaceValidated (safeLoad : List Char → Except String Val) (file newText : List Char)
    (check : List RegistryEntry → Bool) : Except EditError Unit × List Char :=
  match loadRegistry safeLoad newText with
  | .error e => (.error (.registry e), file)
  | .ok entries => if check entries then (.ok (), newText) else (.error .unexpectedState, file)

/-- The lines that `append_registry` writes behind the file. -/
def appendedLines (agentId : AgentId) : List (List Char) :=
  ["  - id: ".toList ++ agentId.chars ++ ['\n'], "    enabled: true\n".toList]

/-- `append_registry` -/
def appendRegistry (safeLoad : List Char → Except String Val) (agentId : AgentId) (file : List Char) :
    Except EditError Unit × List Char :=
  let gap := if file.getLast? = some '\n' || file.isEmpty then [] else ['\n']
  replaceValidated safeLoad file (file ++ gap ++ (appendedLines agentId).flatten) fun entries =>
    entries.any fun e => decide (e.id = agentId.text) && e.enabled

/-- A flag as it is written. -/
def flagText (enabled : Bool) : List Char :=
  if enabled then "true".toList else "false".toList

/-- The line that sets the flag, behind some white space. -/
def enabledLine (indent : List Char) (enabled : Bool) : List Char :=
  indent ++ "enabled: ".toList ++ flagText enabled ++ ['\n']

/-- The lines of the file when the flag is set in the block from `start` to `stop`. -/
def setEnabledLines (lines : List (List Char)) (start stop : ℕ) (enabled : Bool) : List (List Char) :=
  let block := (lines.drop (start + 1)).take (stop - (start + 1))
  match block.findIdx? fun line => (enabledIndent line).isSome with
  | some i => lines.modify (start + 1 + i) fun line => enabledLine ((enabledIndent line).getD []) enabled
  | none =>
      let idIndent := (lines.getD start []).takeWhile isSpace
      lines.insertIdx (start + 1) (enabledLine (idIndent ++ "  ".toList) enabled)

/-- `set_registry_enabled` -/
def setRegistryEnabled (safeLoad : List Char → Except String Val) (agentId : AgentId) (enabled : Bool) (file : List Char) :
    Except EditError Unit × List Char :=
  let lines := keepLines file
  match entryBounds lines agentId with
  | none => (.error .unknownAgent, file)
  | some (start, stop) =>
      replaceValidated safeLoad file (setEnabledLines lines start stop enabled).flatten fun entries =>
        entries.any fun e => decide (e.id = agentId.text) && decide (e.enabled = enabled)

/-- `remove_registry_entry` -/
def removeRegistryEntry (safeLoad : List Char → Except String Val) (agentId : AgentId) (file : List Char) :
    Except EditError Unit × List Char :=
  let lines := keepLines file
  match entryBounds lines agentId with
  | none => (.error .unknownAgent, file)
  | some (start, stop) =>
      replaceValidated safeLoad file (lines.take start ++ lines.drop stop).flatten fun entries =>
        entries.all fun e => decide (e.id ≠ agentId.text)

/-- The three edits. -/
inductive RegistryEdit where
  | append
  | setEnabled (enabled : Bool)
  | remove

/-- One edit of an agent: how it ends, and the file behind it. -/
def RegistryEdit.run (safeLoad : List Char → Except String Val) (agentId : AgentId) (file : List Char) :
    RegistryEdit → Except EditError Unit × List Char
  | append => appendRegistry safeLoad agentId file
  | setEnabled enabled => setRegistryEnabled safeLoad agentId enabled file
  | remove => removeRegistryEntry safeLoad agentId file

end ProjectManager
