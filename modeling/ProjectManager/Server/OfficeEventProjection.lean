import ProjectManager.Runtime.Tasks

/-!
# The projection of office events

`summarize_office_event` keeps of the body of an event the fields that its kind allows, as short texts and counts, and
drops the rest before the row is written.  A field that is absent becomes the empty text.
-/

namespace ProjectManager

/-- The kinds of events; `other` is every other text. -/
inductive OfficeEventKind where
  | ceo | assignment | stepStatus | handoff | milestone | consult | review | other
deriving DecidableEq, Repr

/-- `_MAX_TEXT_CHARS`. -/
def maxTextChars : ℕ :=
  500

/-- `_CONSULT_SUMMARY_CHARS`. -/
def consultSummaryChars : ℕ :=
  120

/-- `str(value or "")`, cut after so many characters. -/
def cutText (py : Python) (maxChars : ℕ) (value : Val) : String :=
  let text := py.str (value.orElse (.str ""))
  if maxChars < text.toList.length then String.ofList (text.toList.take maxChars) ++ "…" else text

/-- `_short`. -/
def short (py : Python) (value : Val) : String :=
  cutText py maxTextChars value

/-- `_short_consult`. -/
def shortConsult (py : Python) (value : Val) : String :=
  cutText py consultSummaryChars value

/-- `_REVIEW_VERDICTS`. -/
def reviewVerdicts : List String :=
  ["passed", "needs_rework"]

/-- `_STEP_PHASES`. -/
def stepPhases : List String :=
  ["dang-lam", "tu-soat", "dang-sua", "nho-tro-giup"]

/-- A text of a closed list, else the empty text. -/
def oneOf (allowed : List String) (text : String) : String :=
  if text ∈ allowed then text else ""

/-- `summarize_office_event`; `int` of a count may raise. -/
def summarizeOfficeEvent (py : Python) (kind : OfficeEventKind) (body : List (String × Val)) :
    Except AnswerError (List (String × Val)) :=
  let field := fun name => (name, Val.str (short py (Action.get body name .none)))
  let summary := fun name => (name, Val.str (shortConsult py (Action.get body name .none)))
  let count := fun name => ((Action.get body name .none).orElse (.int 0)).toInt py
  let closed := fun allowed name => (name, Val.str (oneOf allowed (short py (Action.get body name .none))))
  match kind with
  | .ceo => .ok [field "text"]
  | .assignment => do
      let stepCount ← count "step_count"
      .ok [field "task_title", ("step_count", .int stepCount), field "summary", field "pic", field "task_id"]
  | .stepStatus =>
      .ok [field "task_title", field "step_title", field "status", field "assigned_to", closed stepPhases "phase",
        field "attempt_id"]
  | .handoff => .ok [field "task_title", field "step_title", field "message", field "assigned_to"]
  | .milestone => .ok [field "task_id", field "task_title", field "milestone", field "message"]
  | .consult =>
      .ok [field "from", field "to", summary "question_summary", summary "answer_summary", field "attempt_id"]
  | .review => do
      let failureCount ← count "failure_count"
      .ok [field "task_title", field "step_title", closed reviewVerdicts "verdict",
        ("failure_count", .int failureCount), field "assigned_to"]
  | .other => .ok []

end ProjectManager
