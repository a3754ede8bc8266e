import Mathlib.Data.Rat.Defs
import ProjectManager.Lib.Intake

/-!
# Answering the messages of a poll

The loop that the two inboxes share: messages are handed to `answer_mention` one by one; one that was answered
or failed for a reason of its own is done with, and a failure of the infrastructure ends the poll.
`answerLoop_works` says that a poll works through a beginning of its messages and ends with the key of the last
that is done with.
-/

namespace ProjectManager

open Intake

/-- What `answer_mention` may raise. -/
inductive AnswerError where
  | budgetExceeded
  | apiConnection
  | apiTimeout
  | providerCall
  | other (name : String)
deriving DecidableEq

/-- The name of the class. -/
def AnswerError.name : AnswerError → String
  | budgetExceeded => "BudgetExceededError"
  | apiConnection => "APIConnectionError"
  | apiTimeout => "APITimeoutError"
  | providerCall => "ProviderCallError"
  | other name => name

/-- `INFRA_ERRORS`. -/
def infraErrors : List AnswerError :=
  [.budgetExceeded, .apiConnection, .apiTimeout, .providerCall]

/-- `_MAX_REPLIES_PER_POLL`. -/
def maxRepliesPerPoll : ℕ :=
  3

/-- What a poll returns to the worker. -/
structure InboxResult where
  status : String
  replied : ℕ
  costUsd : Option ℚ
  delivered : Bool
deriving DecidableEq

/-- The variables of the loop: `last` is the key up to which messages are done with. -/
structure Replies (α κ : Type) where
  replied : ℕ
  totalCost : ℚ
  haveCost : Bool
  last : Option κ
  history : List (Handling α)

namespace Replies

variable {α κ : Type}

def start : Replies α κ :=
  ⟨0, 0, false, none, []⟩

/-- A message that is passed over or has failed. -/
def skip (r : Replies α κ) (k : κ) (e : Handling α) : Replies α κ :=
  { r with last := some k, history := r.history ++ [e] }

/-- A message that has its reply. -/
def reply (r : Replies α κ) (k : κ) (m : α) (cost : Option ℚ) : Replies α κ where
  replied := r.replied + 1
  totalCost := r.totalCost + cost.getD 0
  haveCost := r.haveCost || cost.isSome
  last := some k
  history := r.history ++ [.answered m]

/-- `cost_usd` of the result. -/
def costUsd (r : Replies α κ) : Option ℚ :=
  if r.haveCost then some r.totalCost else none

end Replies

section Loop

variable {α κ : Type} (key : α → κ) (stop : ℕ → Bool) (due : α → Bool) (answer : α → Except AnswerError (Option ℚ))

/-- The loop over the messages, with what ends it early and which messages are for the agent.  The answers are
those that `answer_mention` comes to, with their costs. -/
def answerLoop : List α → Replies α κ → Replies α κ
  | [], r => r
  | m :: rest, r =>
      if stop r.replied then
        r
      else if !due m then
        answerLoop rest (r.skip (key m) (.ignored m))
      else
        match answer m with
        | .ok cost => answerLoop rest (r.reply (key m) m cost)
        | .error e =>
            if e ∈ infraErrors then
              { r with history := r.history ++ [.held m] }
            else
              answerLoop rest (r.skip (key m) (.failed m))

/-- What becomes of a message. -/
def handle (m : α) : Handling α :=
  if due m then
    match answer m with
    | .ok _ => .answered m
    | .error e => if e ∈ infraErrors then .held m else .failed m
  else
    .ignored m

variable {due answer}

theorem handle_item (m : α) : (handle due answer m).item = m := by
  unfold handle
  split
  · split
    · rfl
    · split <;> rfl
  · rfl

/-- A message for the agent is done with when it was answered, or failed for a reason of its own. -/
theorem handle_due {m : α} (hdue : due m = true) (h : (handle due answer m).consumed = true) :
    handle due answer m = .answered m ∨ handle due answer m = .failed m := by
  unfold handle at h ⊢
  rw [if_pos hdue] at h ⊢
  split at h
  · exact .inl rfl
  · split at h
    case isTrue _ =>
      cases h
    case isFalse hnot =>
      rw [if_neg hnot]
      exact .inr rfl

variable (due answer)

/-- The loop works through a beginning of its messages. -/
theorem answerLoop_works (items : List α) (r : Replies α κ) : ∃ done new,
    Works (handle due answer) items done new ∧
    (answerLoop key stop due answer items r).history = r.history ++ new ∧
    (answerLoop key stop due answer items r).last = (done.getLast?.map key).or r.last := by
  induction items generalizing r with
  | nil =>
      exact ⟨[], [], .stop, by simp [answerLoop], by simp [answerLoop]⟩
  | cons m rest ih =>
      have hnext : ∀ r' : Replies α κ, r'.history = r.history ++ [handle due answer m] → r'.last = some (key m) →
          (handle due answer m).consumed = true →
          answerLoop key stop due answer (m :: rest) r = answerLoop key stop due answer rest r' →
          ∃ done new, Works (handle due answer) (m :: rest) done new ∧
            (answerLoop key stop due answer (m :: rest) r).history = r.history ++ new ∧
            (answerLoop key stop due answer (m :: rest) r).last = (done.getLast?.map key).or r.last := by
        intro r' hhistory hlast hconsumed heq
        obtain ⟨done, new, hworks, hhistory', hlast'⟩ := ih r'
        refine ⟨m :: done, handle due answer m :: new, .next hconsumed hworks, ?_, ?_⟩
        · rw [heq, hhistory', hhistory, List.append_assoc, List.singleton_append]
        · rw [heq, hlast', hlast]
          cases hdone : done.getLast? with
          | none =>
              have hnil := List.getLast?_eq_none_iff.1 hdone
              simp [hnil]
          | some k =>
              simp [List.getLast?_cons, hdone]
      by_cases hstop : stop r.replied = true
      · exact ⟨[], [], .stop, by simp [answerLoop, hstop], by simp [answerLoop, hstop]⟩
      by_cases hdue : due m = true
      · cases hanswer : answer m with
        | ok cost =>
            have hhandle : handle due answer m = .answered m := by simp [handle, hdue, hanswer]
            refine hnext (r.reply (key m) m cost) (by rw [hhandle]; rfl) rfl (by rw [hhandle]; rfl) ?_
            simp [answerLoop, hstop, hdue, hanswer]
        | error e =>
            by_cases hinfra : e ∈ infraErrors
            · have hhandle : handle due answer m = .held m := by simp [handle, hdue, hanswer, hinfra]
              refine ⟨[], [handle due answer m], .hold (by rw [hhandle]; rfl), ?_, ?_⟩
              · simp [answerLoop, hstop, hdue, hanswer, hinfra, hhandle]
              · simp [answerLoop, hstop, hdue, hanswer, hinfra]
            · have hhandle : handle due answer m = .failed m := by simp [handle, hdue, hanswer, hinfra]
              refine hnext (r.skip (key m) (.failed m)) (by rw [hhandle]; rfl) rfl (by rw [hhandle]; rfl) ?_
              simp [answerLoop, hstop, hdue, hanswer, hinfra]
      · have hhandle : handle due answer m = .ignored m := by simp [handle, hdue]
        refine hnext (r.skip (key m) (.ignored m)) (by rw [hhandle]; rfl) rfl (by rw [hhandle]; rfl) ?_
        simp [answerLoop, hstop, hdue]

/-- A poll ends with the key of the last message that is done with. -/
theorem answers_works (items : List α) : ∃ done, Works (handle due answer) items done
      (answerLoop key stop due answer items Replies.start).history ∧
    (answerLoop key stop due answer items Replies.start).last = done.getLast?.map key := by
  obtain ⟨done, new, hworks, hhistory, hlast⟩ := answerLoop_works key stop due answer items Replies.start
  have hnew : (answerLoop key stop due answer items Replies.start).history = new := hhistory
  refine ⟨done, hnew ▸ hworks, hlast.trans ?_⟩
  exact Option.or_none

end Loop

end ProjectManager
