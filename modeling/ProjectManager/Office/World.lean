import Mathlib.Data.Rat.Floor
import ProjectManager.Lib.Process
import ProjectManager.Lib.Text
import ProjectManager.Store.Ledger

/-!
# What the ticker and the step workers share

The coordinator's ticker and the step workers are separate processes.  They meet in the store, in the
artifact files (`team_task_artifact`), in the retry sidecar and in the process table.  Everything else
they touch is asked for (`Query`: the clock of the machine, the roster, the approval queue, the language
model) or told (`Notice`: room events, escalations, signals).  `OfficeCall.handle` is the effect of one
call; `stepArtifactPath_inj` and `stepArtifactPath_ne_review` say that the file names keep the files
apart.
-/

namespace ProjectManager

open Process

/-! ### Artifact files -/

/-- A file of a task's artifact directory. -/
structure ArtifactPath where
  taskId : String
  name : String
deriving DecidableEq, Repr

/-- `step_artifact_path`. -/
def stepArtifactPath (taskId : String) (stepSeq : ℕ) : ArtifactPath where
  taskId := taskId
  name := "step-" ++ stepSeq.repr ++ ".json"

/-- `review_verdict_artifact_path`. -/
def reviewVerdictArtifactPath (taskId : String) (parentSeq reviewRound : ℕ) : ArtifactPath where
  taskId := taskId
  name := "step-" ++ parentSeq.repr ++ "-review-" ++ reviewRound.repr ++ ".json"

/-- The JSON object of an artifact file; a key that is not there is `none`. -/
structure Artifact where
  status : Option String := none
  resultText : Option String := none
  stepTitle : Option String := none
  attempt : Option AttemptId := none
  version : Option AttemptId := none
  selfCheckFailed : Option Bool := none
  error : Option String := none
  passed : Option Bool := none
  failures : Option (List String) := none
  reviewedVersion : Option AttemptId := none
  round : Option ℕ := none
deriving DecidableEq, Repr

/-- `str(artifact.get("result_text", ""))`. -/
def Artifact.text (a : Artifact) : String :=
  a.resultText.getD ""

/-- `bool(verdict.get("passed"))`. -/
def Artifact.isPassed (a : Artifact) : Bool :=
  a.passed.getD false

/-- `_artifact_version`. -/
def Artifact.lockedVersion (a : Artifact) : Option AttemptId :=
  a.version <|> a.attempt

theorem stepArtifactPath_toList (taskId : String) (n : ℕ) :
    (stepArtifactPath taskId n).name.toList = "step-".toList ++ (n.repr.toList ++ '.' :: "json".toList) := by
  simp [stepArtifactPath, String.toList_append]

theorem reviewVerdictArtifactPath_toList (taskId : String) (n round : ℕ) :
    (reviewVerdictArtifactPath taskId n round).name.toList =
      "step-".toList ++ (n.repr.toList ++ '-' :: ("review-" ++ round.repr ++ ".json").toList) := by
  simp [reviewVerdictArtifactPath, String.toList_append]

/-- Two steps have two files. -/
theorem stepArtifactPath_inj {taskId taskId' : String} {m n : ℕ}
    (h : stepArtifactPath taskId m = stepArtifactPath taskId' n) : taskId = taskId' ∧ m = n := by
  have hname := congrArg (fun p : ArtifactPath => p.name.toList) h
  simp only [stepArtifactPath_toList] at hname
  exact ⟨congrArg ArtifactPath.taskId h,
    (Text.digits_unique (by decide) (by decide) (List.append_cancel_left hname)).1⟩

/-- A verdict file is never the file of a step. -/
theorem stepArtifactPath_ne_review (taskId taskId' : String) (m n round : ℕ) :
    stepArtifactPath taskId m ≠ reviewVerdictArtifactPath taskId' n round := by
  intro h
  have hname := congrArg (fun p : ArtifactPath => p.name.toList) h
  simp only [stepArtifactPath_toList, reviewVerdictArtifactPath_toList] at hname
  have hchar := (Text.digits_unique (by decide) (by decide) (List.append_cancel_left hname)).2
  exact absurd hchar (by decide)

/-! ### Questions and notices -/

/-- A decision in the approval queue. -/
inductive Decision where
  | pending | approved | rejected
deriving DecidableEq, Repr

/-- The prompts that the language model is given, by what their builders receive. -/
inductive Prompt where
  | work (agent stepTitle handoffContext searchContext : String)
  | selfCheck (agent resultText acceptance : String)
  | rework (agent brief priorOutput : String) (failures : List String)
  | review (agent resultText acceptance : String)
  | aggregate (taskTitle : String) (parts : List String)
deriving DecidableEq

/-- What a process asks the machine, the registry or the language model. -/
inductive Query where
  /-- `os.kill(pid, 0)` -/
  | pidAlive (pid : ℕ)
  /-- the process id that the next spawn gets -/
  | nextPid
  /-- `assignable_staff` -/
  | assignableStaff
  /-- `_approval_status` -/
  | approvalStatus (approvalId : ℕ)
  /-- `LlmClient.complete` -/
  | complete (prompt : Prompt)
  /-- the search hook; the empty text when there is none -/
  | search (agent query : String)
  /-- `propose_consults` -/
  | proposeConsults (agent stepTitle handoffContext : String)
  /-- `ask_colleague` -/
  | askColleague (agent colleague question : String)
  /-- `external_write` -/
  | externalWrite (agent resultText : String)
deriving DecidableEq

/-- The answers to questions; a raised exception is an error. -/
@[reducible] def Query.Resp : Query → Type
  | pidAlive _ => Bool
  | nextPid => ℕ
  | assignableStaff => List (String × String)
  | approvalStatus _ => Option Decision
  | complete _ => Except String LlmResult
  | search .. => Except String String
  | proposeConsults .. => Except String (List (String × String))
  | askColleague .. => Except String (String × ℚ)
  | externalWrite .. => Except String Bool

/-- What a process tells and nobody answers. -/
inductive Notice where
  /-- `append_office_event` in the room of a task -/
  | room (taskId author kind : String) (body : List (String × String))
  /-- `escalate` -/
  | escalate (taskId : String) (stepId : Option String) (eventKind message : String)
  /-- `kill_pid` -/
  | killPid (pid : ℕ) (attemptId : AttemptId)
deriving DecidableEq

/-! ### The shared world -/

/-- A worker process that was started: the step and the lease on its command line. -/
structure Spawn where
  taskId : String
  stepId : String
  agent : String
  attemptId : AttemptId
deriving DecidableEq, Repr

/-- Everything that the processes share.  `spawned` lists all workers ever started. -/
structure Office where
  ledger : Ledger
  files : ArtifactPath → Option Artifact
  retries : String → ℕ
  spawned : List Spawn
  env : (q : Query) → q.Resp

/-- The calls of the processes. -/
inductive OfficeCall where
  | store (o : StoreOp)
  | now
  | readArtifact (path : ArtifactPath)
  | writeArtifact (path : ArtifactPath) (a : Artifact)
  | getRetries (key : String)
  | setRetries (key : String) (count : ℕ)
  | spawnStep (s : Spawn)
  | ask (q : Query)
  | note (n : Notice)
deriving DecidableEq

namespace OfficeCall

/-- What a call answers. -/
@[reducible] def Resp : OfficeCall → Type
  | store o => o.Resp
  | now => Time
  | readArtifact _ => Option Artifact
  | writeArtifact .. => Unit
  | getRetries _ => ℕ
  | setRetries .. => Unit
  | spawnStep _ => ℕ
  | ask q => q.Resp
  | note _ => Unit

/-- The effect of a call. -/
def handle (rt : Runtime) : (e : OfficeCall) → Office → e.Resp × Office
  | store o, w => ((o.run rt w.ledger).1, { w with ledger := (o.run rt w.ledger).2 })
  | now, w => (w.ledger.clock, w)
  | readArtifact path, w => (w.files path, w)
  | writeArtifact path a, w => ((), { w with files := Function.update w.files path (some a) })
  | getRetries key, w => (w.retries key, w)
  | setRetries key count, w => ((), { w with retries := Function.update w.retries key count })
  | spawnStep s, w => (w.env .nextPid, { w with spawned := w.spawned ++ [s] })
  | ask q, w => (w.env q, w)
  | note _, w => ((), w)

end OfficeCall

/-- A program of the ticker or of a worker. -/
abbrev OfficeProg (α : Type) :=
  Prog OfficeCall OfficeCall.Resp α

/-- The calls and answers of a process so far. -/
abbrev OfficeLog :=
  Log OfficeCall OfficeCall.Resp

/-- Issues an operation of the store. -/
def OfficeProg.store (o : StoreOp) : OfficeProg o.Resp :=
  Prog.ask (OfficeCall.store o)

/-- Asks a question. -/
def OfficeProg.query (q : Query) : OfficeProg q.Resp :=
  Prog.ask (OfficeCall.ask q)

/-- Gives a notice. -/
def OfficeProg.note (n : Notice) : OfficeProg Unit :=
  Prog.ask (OfficeCall.note n)

/-- Reads an artifact file. -/
def OfficeProg.read (path : ArtifactPath) : OfficeProg (Option Artifact) :=
  Prog.ask (OfficeCall.readArtifact path)

/-! ### Settings -/

/-- `CheckVerdict`: what a self-check answers. -/
structure CheckVerdict where
  passed : Bool
  failures : List String
  confidence : ℚ

/-- `ReviewVerdict`. -/
structure ReviewVerdict where
  passed : Bool
  failures : List String
deriving DecidableEq, Repr

/-- The settings of the office and the readers of the model's JSON answers. -/
structure OfficeConfig where
  rt : Runtime
  /-- `company.yaml::team_task_cap_usd` -/
  costCapUsd : ℚ
  /-- `company.yaml::team_task_concurrency` -/
  concurrency : ℕ
  /-- `settings.openrouter_api_key` is set -/
  hasApiKey : Bool
  /-- the agents whose step graph has an external write -/
  external : String → Bool
  /-- `parse_check_verdict` -/
  parseCheckVerdict : String → Except String CheckVerdict
  /-- `parse_review_verdict` -/
  parseReviewVerdict : String → Except String ReviewVerdict

/-- An amount with a fixed number of decimals, rounded half to even. -/
def fixed (digits : ℕ) (q : ℚ) : String :=
  let scaled := q * 10 ^ digits
  let low := ⌊scaled⌋
  let rest := scaled - low
  let n := if rest < 1 / 2 ∨ rest = 1 / 2 ∧ low % 2 = 0 then low else low + 1
  let frac := (n.natAbs % 10 ^ digits).repr
  let sign := if n < 0 then "-" else ""
  let zeros := String.ofList (List.replicate (digits - frac.length) '0')
  sign ++ (n.natAbs / 10 ^ digits).repr ++ "." ++ zeros ++ frac

example : fixed 4 (1 / 3) = "0.3333" ∧ fixed 2 (5 / 2) = "2.50" := by decide +kernel

end ProjectManager
