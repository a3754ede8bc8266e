import Mathlib.Tactic.Linarith
import ProjectManager.Lib.Execution
import ProjectManager.Lib.Text
import ProjectManager.Llm.Budget
import ProjectManager.Plan.Amend

/-!
# The chain of models

`LlmClient.complete` walks a chain of models: it checks the budget, asks the model with a few retries, records what
the answer has cost, and goes on to the next model after a failure that another model might not have, or after a
blank answer.  A run that returns is a row of attempts at the first models of the chain (`Walk`).  The result carries
the cost of the last answer only, so it is the recorded total just when the blank answers before it were free
(`complete_cost_iff`).
-/

namespace ProjectManager

open Process Text

/-! ### Failures of a call -/

/-- What a call to the provider can raise. -/
inductive LlmError where
  | budgetExceeded (text : String)
  | apiStatus (code : ℕ) (text : String)
  | timeout (text : String)
  | connection (text : String)
  | providerCall (text : String)
  | other (text : String)
deriving DecidableEq

/-- `str` of the exception. -/
def LlmError.text : LlmError → String
  | budgetExceeded text | apiStatus _ text | timeout text | connection text | providerCall text | other text => text

/-- `_NO_FALLBACK_STATUS`. -/
def noFallbackStatus : List ℕ := [401, 403]

/-- `should_try_next_model`. -/
def shouldTryNextModel : LlmError → Bool
  | .budgetExceeded _ => false
  | .apiStatus code _ => !noFallbackStatus.contains code
  | .timeout _ | .connection _ => true
  | .providerCall _ => true
  | .other _ => false

/-- `isinstance(exc, _RETRYABLE)`; the rate limit is the status 429. -/
def isRetryable : LlmError → Bool
  | .timeout _ | .connection _ => true
  | .apiStatus code _ => code == 429
  | _ => false

/-- `_MAX_RETRIES`. -/
def maxRetries : ℕ := 2

/-- `_RETRY_BACKOFF_S`. -/
def retryBackoffS : ℚ := 3 / 2

/-! ### Answers -/

/-- A message of the conversation. -/
structure ChatMessage where
  role : String
  content : String

/-- A completion of the provider, its numbers as far as they read as numbers: the token counts and the cost among the
usage, the cost beside the usage, and the content of each choice. -/
structure ChatCompletion where
  promptTokens : Option ℤ
  completionTokens : Option ℤ
  totalTokens : Option ℤ
  usageCost : Option ℚ
  cost : Option ℚ
  choices : List (Option String)

/-- `UsageInfo`. -/
structure UsageInfo where
  promptTokens : ℤ
  completionTokens : ℤ
  totalTokens : ℤ
  costUsd : Option ℚ

/-- `extract_usage`. -/
def extractUsage (response : ChatCompletion) : UsageInfo :=
  let promptTokens := response.promptTokens.getD 0
  let completionTokens := response.completionTokens.getD 0
  let total := response.totalTokens.getD 0
  { promptTokens := promptTokens
    completionTokens := completionTokens
    totalTokens := if total = 0 then promptTokens + completionTokens else total
    costUsd := response.usageCost <|> response.cost }

/-- `LlmResult`, with the accounting. -/
structure CompletionResult extends LlmResult where
  model : String
  promptTokens : ℤ
  completionTokens : ℤ
  fallbackFrom : List String

/-- The settings of the client. -/
structure LlmSettings where
  openrouterModel : String
  openrouterReferer : String
  openrouterTitle : String
  modelChain : List String
  monthlyBudgetUsd : ℚ

/-- `effective_model_chain`. -/
def LlmSettings.effectiveModelChain (settings : LlmSettings) : List String :=
  if settings.modelChain.isEmpty then [settings.openrouterModel] else settings.modelChain

/-! ### The client -/

/-- What the client calls: the files of the budget, the provider, and the clock. -/
inductive LlmCall where
  | budget (c : BudgetCall)
  | create (headers : List (String × String)) (messages : List ChatMessage) (model : String)
  | sleep (seconds : ℚ)

/-- What a call answers. -/
@[reducible] def LlmCall.Resp : LlmCall → Type
  | budget c => c.Resp
  | create .. => Except LlmError ChatCompletion
  | sleep _ => Unit

/-- Programs of the client. -/
abbrev LlmProg :=
  Prog LlmCall LlmCall.Resp

/-- The calls and answers of a program of the client. -/
abbrev LlmLog :=
  Log LlmCall LlmCall.Resp

/-- Makes one call. -/
def llmAsk (c : LlmCall) : LlmProg c.Resp :=
  .ask c

/-- `check_allowed`, with the files that it reads. -/
def BudgetProg.checkAllowed (fixed : ℕ → ℚ → String) (cap : ℚ) : BudgetProg (Bool × ℚ) := do
  let month ← budgetAsk .currentMonth
  let spent ← budgetAsk (.read month)
  match spent with
  | .error exc => Prog.raise exc
  | .ok spent => Prog.ofExcept (ProjectManager.checkAllowed fixed cap spent)

/-- A method of the tracker, called by the client. -/
def ofBudget {α : Type} : BudgetProg α → LlmProg α
  | .ret a => .ret a
  | .raise msg => .raise msg
  | .call c k => .call (.budget c) fun r => ofBudget (k r)

/-- The headers of a request. -/
def LlmSettings.headers (settings : LlmSettings) : List (String × String) :=
  [("HTTP-Referer", settings.openrouterReferer), ("X-Title", settings.openrouterTitle)]

/-- The attempts of `_call_with_retry`, when `left` of them remain after the next one. -/
def attemptCall (py : Python) (settings : LlmSettings) (messages : List ChatMessage) (model : String) (left : ℕ) :
    LlmProg (Except LlmError ChatCompletion) :=
  .call (.create settings.headers messages model) fun answer =>
    match answer with
    | .ok response => return .ok response
    | .error exc =>
      if isRetryable exc then
        match left with
        | 0 =>
          return .error (.providerCall ("OpenRouter call failed after " ++ (maxRetries + 1).repr ++
            " attempts for model " ++ py.repr (.str model) ++ ": " ++ exc.text))
        | left + 1 => do
          llmAsk (.sleep (retryBackoffS * (maxRetries - left : ℕ)))
          attemptCall py settings messages model left
      else
        return .error exc

/-- `_call_with_retry`. -/
def callWithRetry (py : Python) (settings : LlmSettings) (messages : List ChatMessage) (model : String) :
    LlmProg (Except LlmError ChatCompletion) :=
  attemptCall py settings messages model maxRetries

/-- The loop of `complete` over what is left of the chain. -/
def completeFrom (py : Python) (fixed : ℕ → ℚ → String) (settings : LlmSettings) (messages : List ChatMessage) :
    List String → List String → LlmProg CompletionResult
  | [], _ => .raise "unreachable: model chain loop always returns or raises"
  | model :: rest, fallbackFrom => do
    let _ ← ofBudget (.checkAllowed fixed settings.monthlyBudgetUsd)
    match ← callWithRetry py settings messages model with
    | .error exc =>
      if !rest.isEmpty && shouldTryNextModel exc then
        completeFrom py fixed settings messages rest (fallbackFrom ++ [model])
      else
        .raise exc.text
    | .ok response => do
      let usage := extractUsage response
      ofBudget (recordCost py usage.costUsd)
      match response.choices with
      | [] => .raise "list index out of range"
      | content :: _ =>
        if strip (content.getD "") = "" && !rest.isEmpty then
          completeFrom py fixed settings messages rest (fallbackFrom ++ [model])
        else
          return {
            content := content.getD ""
            model := model
            promptTokens := usage.promptTokens
            completionTokens := usage.completionTokens
            costUsd := usage.costUsd
            fallbackFrom := fallbackFrom }

/-- The chain that `complete` walks: a model that is given by name bypasses the declared one. -/
def LlmSettings.chainFor (settings : LlmSettings) (model : Option String) : List String :=
  match model with
  | some name => if name = "" then settings.effectiveModelChain else [name]
  | none => settings.effectiveModelChain

/-- `complete`. -/
def complete (py : Python) (fixed : ℕ → ℚ → String) (settings : LlmSettings) (messages : List ChatMessage)
    (model : Option String) : LlmProg CompletionResult :=
  completeFrom py fixed settings messages (settings.chainFor model) []

/-! ### What a run records -/

/-- What the writes of a log add to the totals that were read before them, the last of which is `spent`. -/
def recordedFrom : ℚ → LlmLog → ℚ
  | _, [] => 0
  | _, ⟨.budget (.read _), .ok spent⟩ :: log => recordedFrom spent log
  | spent, ⟨.budget (.write _ total), _⟩ :: log => total - spent + recordedFrom spent log
  | spent, _ :: log => recordedFrom spent log

/-- What is recorded to the budget in a run. -/
def recordedTotal (log : LlmLog) : ℚ :=
  recordedFrom 0 log

/-- The known costs of the answers in a run. -/
def answerCosts : LlmLog → List ℚ
  | [] => []
  | ⟨.create .., .ok response⟩ :: log => (extractUsage response).costUsd.getD 0 :: answerCosts log
  | _ :: log => answerCosts log

/-- A call to the provider with a model, or a pause before one. -/
def LlmCall.For (model : String) : LlmCall → Prop
  | .create _ _ name => name = model
  | .sleep _ => True
  | .budget _ => False

/-- An access to the budget's files. -/
def LlmCall.OfBudget : LlmCall → Prop
  | .budget _ => True
  | _ => False

/-- One attempt of `complete`: the total that its check has read, the calls to the provider, and the calls that record
the cost. -/
structure LlmAttempt where
  model : String
  month : String
  spent : ℚ
  calls : LlmLog
  record : LlmLog

/-- The calls of an attempt. -/
def LlmAttempt.log (a : LlmAttempt) : LlmLog :=
  ⟨.budget .currentMonth, a.month⟩ :: ⟨.budget (.read a.month), .ok a.spent⟩ :: a.calls ++ a.record

/-- The check has let the attempt through, and all its calls are for its model. -/
structure LlmAttempt.Ok (fixed : ℕ → ℚ → String) (cap : ℚ) (a : LlmAttempt) : Prop where
  checked : ∃ ratio, checkAllowed fixed cap a.spent = .ok ratio
  asked : a.calls ≠ []
  own : ∀ x ∈ a.calls, x.1.For a.model
  recorded : ∀ x ∈ a.record, x.1.OfBudget

/-- The cost of the result is what was recorded in the run, and the run is a row of attempts, each behind a check of
the budget, at the first models of the chain. -/
def CostAgrees (fixed : ℕ → ℚ → String) (cap : ℚ) (chain : List String) (log : LlmLog) (result : CompletionResult) :
    Prop :=
  result.costUsd.getD 0 = recordedTotal log ∧
    ∃ attempts : List LlmAttempt, attempts.map LlmAttempt.model <+: chain ∧ log = attempts.flatMap LlmAttempt.log ∧
      ∀ a ∈ attempts, a.Ok fixed cap

/-! ### One attempt -/

theorem answerCosts_append (log log' : LlmLog) : answerCosts (log ++ log') = answerCosts log ++ answerCosts log' := by
  fun_induction answerCosts log with
  | case1 =>
      rfl
  | case2 _ _ _ _ _ ih =>
      rw [List.cons_append, answerCosts, ih, List.cons_append]
  | case3 x log hx ih =>
      rw [List.cons_append, answerCosts, ih]
      exact hx

/-- Accesses to the budget are no answers. -/
theorem answerCosts_budget {log : LlmLog} (h : ∀ x ∈ log, x.1.OfBudget) : answerCosts log = [] := by
  induction log with
  | nil =>
      rfl
  | cons x log ih =>
      obtain ⟨hx, hlog⟩ := List.forall_mem_cons.1 h
      obtain ⟨c, r⟩ := x
      cases c with
      | budget c =>
          exact ih hlog
      | create headers messages model =>
          exact hx.elim
      | sleep seconds =>
          exact hx.elim

/-- Calls to the provider record nothing. -/
theorem recordedFrom_calls {model : String} {calls : LlmLog} (h : ∀ x ∈ calls, x.1.For model) (spent : ℚ) (log : LlmLog) :
    recordedFrom spent (calls ++ log) = recordedFrom spent log := by
  induction calls with
  | nil =>
      rfl
  | cons x calls ih =>
      obtain ⟨hx, hcalls⟩ := List.forall_mem_cons.1 h
      obtain ⟨c, r⟩ := x
      cases c with
      | budget c =>
          exact hx.elim
      | create headers messages model =>
          exact ih hcalls
      | sleep seconds =>
          exact ih hcalls

/-- A method of the tracker ends as it does alone. -/
theorem ofBudget_ends {α : Type} {p : BudgetProg α} {log : LlmLog} {out : Except String α}
    (h : (ofBudget p).Ends log out) :
    ∃ accesses : BudgetLog, log = accesses.map (fun x => ⟨.budget x.1, x.2⟩) ∧ p.Ends accesses out := by
  induction p generalizing log with
  | ret a =>
      cases h with
      | ret =>
          exact ⟨[], rfl, .ret a⟩
  | raise msg =>
      cases h with
      | raise =>
          exact ⟨[], rfl, .raise msg⟩
  | call c k ih =>
      cases h with
      | call h =>
          obtain ⟨accesses, rfl, hends⟩ := ih _ h
          exact ⟨⟨c, _⟩ :: accesses, rfl, .call hends⟩

/-- A check that passes has read a total that the cap allows. -/
theorem checkAllowed_ends {fixed : ℕ → ℚ → String} {cap : ℚ} {log : LlmLog} {ratio : Bool × ℚ}
    (h : (ofBudget (.checkAllowed fixed cap)).Ends log (.ok ratio)) :
    ∃ month spent, log = [⟨.budget .currentMonth, month⟩, ⟨.budget (.read month), .ok spent⟩] ∧
      checkAllowed fixed cap spent = .ok ratio := by
  obtain ⟨accesses, rfl, hends⟩ := ofBudget_ends h
  cases hends with
  | @call _ _ month _ _ hends =>
      cases hends with
      | @call _ _ spent _ _ hends =>
          cases spent with
          | error exc =>
              cases hends
          | ok spent =>
              refine ⟨month, spent, ?_⟩
              change (Prog.ofExcept (checkAllowed fixed cap spent) : BudgetProg _).Ends _ _ at hends
              cases hcheck : checkAllowed fixed cap spent with
              | error exc =>
                  rw [hcheck] at hends
                  cases hends
              | ok ratio' =>
                  rw [hcheck] at hends
                  cases hends with
                  | ret =>
                      exact ⟨rfl, rfl⟩

/-- A `record_cost` that returns has recorded a cost that is not negative, if it is known. -/
theorem recordCost_ends {py : Python} {usd : Option ℚ} {log : LlmLog}
    (h : (ofBudget (recordCost py usd)).Ends log (.ok ())) :
    (∀ x ∈ log, x.1.OfBudget) ∧ 0 ≤ usd.getD 0 ∧
      ∀ spent rest, ∃ spent', recordedFrom spent (log ++ rest) = usd.getD 0 + recordedFrom spent' rest := by
  obtain ⟨accesses, rfl, hends⟩ := ofBudget_ends h
  refine ⟨fun x hx => ?_, ?_⟩
  · obtain ⟨y, -, rfl⟩ := List.mem_map.1 hx
    exact trivial
  · cases usd with
    | none =>
        cases hends with
        | ret =>
            exact ⟨le_rfl, fun spent rest => ⟨spent, (zero_add _).symm⟩⟩
    | some usd =>
        unfold recordCost at hends
        dsimp only at hends
        split at hends
        · cases hends
        · rename_i hnonneg
          cases hends with
          | @call _ _ month _ _ hends =>
              cases hends with
              | @call _ _ read _ _ hends =>
                  cases read with
                  | error exc =>
                      cases hends
                  | ok read =>
                      cases hends with
                      | call hends =>
                          cases hends with
                          | ret =>
                              refine ⟨not_lt.1 hnonneg, fun spent rest => ⟨read, ?_⟩⟩
                              change read + usd - read + recordedFrom read rest = usd + recordedFrom read rest
                              rw [add_sub_cancel_left]

/-- How the calls to a model end: it has answered once, or not at all. -/
structure Asked (model : String) (log : LlmLog) (got : Except LlmError ChatCompletion) : Prop where
  nonempty : log ≠ []
  own : ∀ x ∈ log, x.1.For model
  answered : ∀ response, got = .ok response → answerCosts log = [(extractUsage response).costUsd.getD 0]
  failed : ∀ exc, got = .error exc → answerCosts log = []

theorem attemptCall_ends {py : Python} {settings : LlmSettings} {messages : List ChatMessage} {model : String} {left : ℕ}
    {log : LlmLog} {out : Except String (Except LlmError ChatCompletion)}
    (h : (attemptCall py settings messages model left).Ends log out) : ∃ got, out = .ok got ∧ Asked model log got := by
  induction left generalizing log with
  | zero =>
      unfold attemptCall at h
      cases h with
      | @call _ _ answer rest _ hrest =>
          cases answer with
          | ok response =>
              cases hrest with
              | ret =>
                  exact ⟨_, rfl, by simp, by simp [LlmCall.For], by simp [answerCosts], by simp⟩
          | error exc =>
              dsimp only at hrest
              split at hrest
              all_goals
                cases hrest with
                | ret =>
                    exact ⟨_, rfl, by simp, by simp [LlmCall.For], by simp, by simp [answerCosts]⟩
  | succ left ih =>
      unfold attemptCall at h
      cases h with
      | @call _ _ answer rest _ hrest =>
          cases answer with
          | ok response =>
              cases hrest with
              | ret =>
                  exact ⟨_, rfl, by simp, by simp [LlmCall.For], by simp [answerCosts], by simp⟩
          | error exc =>
              dsimp only at hrest
              split at hrest
              · -- a pause, and the remaining attempts
                cases hrest with
                | call hrest =>
                    obtain ⟨got, hout, hasked⟩ := ih hrest
                    refine ⟨got, hout, by simp, ?_, hasked.answered, hasked.failed⟩
                    exact List.forall_mem_cons.2 ⟨rfl, List.forall_mem_cons.2 ⟨trivial, hasked.own⟩⟩
              · cases hrest with
                | ret =>
                    exact ⟨_, rfl, by simp, by simp [LlmCall.For], by simp, by simp [answerCosts]⟩

/-! ### The walk -/

/-- A walk along a chain that returns a result: its attempts, and what they cost. -/
structure Walk (fixed : ℕ → ℚ → String) (cap : ℚ) (chain : List String) (log : LlmLog) (result : CompletionResult) :
    Prop where
  attempts : ∃ attempts : List LlmAttempt, attempts.map LlmAttempt.model <+: chain ∧
    log = attempts.flatMap LlmAttempt.log ∧ ∀ a ∈ attempts, a.Ok fixed cap
  total : ∀ spent, recordedFrom spent log = (answerCosts log).sum
  last : ∃ earlier, answerCosts log = earlier ++ [result.costUsd.getD 0]
  nonneg : ∀ c ∈ answerCosts log, 0 ≤ c

/-- What one attempt adds to the costs of a walk. -/
structure LlmAttempt.Adds (a : LlmAttempt) (costs : List ℚ) : Prop where
  costs_eq : answerCosts a.log = costs
  nonneg : ∀ c ∈ costs, 0 ≤ c
  recorded : ∀ spent rest, ∃ spent', recordedFrom spent (a.log ++ rest) = costs.sum + recordedFrom spent' rest

section Walk

variable {fixed : ℕ → ℚ → String} {cap : ℚ} {chain : List String} {log : LlmLog} {result : CompletionResult}
  {a : LlmAttempt}

/-- The walk ends with this attempt. -/
theorem Walk.one (chain : List String) (hok : a.Ok fixed cap) (hadds : a.Adds [result.costUsd.getD 0]) :
    Walk fixed cap (a.model :: chain) a.log result where
  attempts := ⟨[a], by simp, by simp, by simpa using hok⟩
  total := by
    intro spent
    obtain ⟨spent', h⟩ := hadds.recorded spent []
    rw [hadds.costs_eq]
    simpa [recordedFrom] using h
  last := ⟨[], hadds.costs_eq⟩
  nonneg := by
    rw [hadds.costs_eq]
    exact hadds.nonneg

/-- The walk goes on after this attempt. -/
theorem Walk.cons {costs : List ℚ} (hok : a.Ok fixed cap) (hadds : a.Adds costs) (h : Walk fixed cap chain log result) :
    Walk fixed cap (a.model :: chain) (a.log ++ log) result where
  attempts := by
    obtain ⟨attempts, hleads, hlog, hall⟩ := h.attempts
    refine ⟨a :: attempts, ?_, ?_, List.forall_mem_cons.2 ⟨hok, hall⟩⟩
    · exact List.cons_prefix_cons.2 ⟨rfl, hleads⟩
    · rw [List.flatMap_cons, ← hlog]
  total := by
    intro spent
    obtain ⟨spent', hrecorded⟩ := hadds.recorded spent log
    rw [hrecorded, h.total, answerCosts_append, hadds.costs_eq, List.sum_append]
  last := by
    obtain ⟨earlier, hlast⟩ := h.last
    exact ⟨costs ++ earlier, by rw [answerCosts_append, hadds.costs_eq, hlast, List.append_assoc]⟩
  nonneg := by
    rw [answerCosts_append, hadds.costs_eq]
    exact List.forall_mem_append.2 ⟨hadds.nonneg, h.nonneg⟩

end Walk

theorem completeFrom_ends {py : Python} {fixed : ℕ → ℚ → String} {settings : LlmSettings} {messages : List ChatMessage}
    {chain fallbackFrom : List String} {log : LlmLog} {result : CompletionResult}
    (h : (completeFrom py fixed settings messages chain fallbackFrom).Ends log (.ok result)) :
    Walk fixed settings.monthlyBudgetUsd chain log result := by
  induction chain generalizing fallbackFrom log with
  | nil =>
      cases h
  | cons model rest ih =>
      unfold completeFrom at h
      obtain ⟨_, _, hout⟩ | ⟨check, ratio, log₁, rfl, hcheck, hafter⟩ := h.of_bind
      · cases hout
      obtain ⟨month, spent, rfl, hallowed⟩ := checkAllowed_ends hcheck
      obtain ⟨_, _, hout⟩ | ⟨calls, got, log₂, rfl, hcalls, hrest⟩ := hafter.of_bind
      · cases hout
      obtain ⟨got, hgot, hasked⟩ := attemptCall_ends hcalls
      obtain rfl := Except.ok.inj hgot
      cases got with
      | error exc =>
          dsimp only at hrest
          split at hrest
          · -- nothing was billed: the attempt makes no record
            have hok : LlmAttempt.Ok fixed settings.monthlyBudgetUsd ⟨model, month, spent, calls, []⟩ :=
              ⟨⟨_, hallowed⟩, hasked.nonempty, hasked.own, by simp⟩
            have hadds : LlmAttempt.Adds ⟨model, month, spent, calls, []⟩ [] := by
              refine ⟨?_, by simp, fun before rest => ⟨spent, ?_⟩⟩
              · simpa [LlmAttempt.log, answerCosts] using hasked.failed exc rfl
              · simpa [LlmAttempt.log, recordedFrom] using recordedFrom_calls hasked.own spent rest
            have hwalk := Walk.cons hok hadds (ih hrest)
            simpa [LlmAttempt.log] using hwalk
          · cases hrest
      | ok response =>
          obtain ⟨_, _, hout⟩ | ⟨record, _, log₃, rfl, hrecord, hlast⟩ := hrest.of_bind
          · cases hout
          obtain ⟨hbudget, hnonneg, hrecorded⟩ := recordCost_ends hrecord
          have hok : LlmAttempt.Ok fixed settings.monthlyBudgetUsd ⟨model, month, spent, calls, record⟩ :=
            ⟨⟨_, hallowed⟩, hasked.nonempty, hasked.own, hbudget⟩
          have hadds : LlmAttempt.Adds ⟨model, month, spent, calls, record⟩
              [(extractUsage response).costUsd.getD 0] := by
            refine ⟨?_, by simpa using hnonneg, fun before rest => ?_⟩
            · simp [LlmAttempt.log, answerCosts, answerCosts_append, hasked.answered response rfl,
                answerCosts_budget hbudget]
            · obtain ⟨spent', hspent'⟩ := hrecorded spent rest
              refine ⟨spent', ?_⟩
              simp [LlmAttempt.log, recordedFrom, recordedFrom_calls hasked.own, hspent']
          split at hlast
          · cases hlast
          · split at hlast
            · -- billed, but blank
              have hwalk := Walk.cons hok hadds (ih hlast)
              simpa [LlmAttempt.log] using hwalk
            · cases hlast with
              | ret =>
                  simpa [LlmAttempt.log] using Walk.one rest hok hadds

theorem sum_eq_zero_iff {costs : List ℚ} (h : ∀ c ∈ costs, 0 ≤ c) : costs.sum = 0 ↔ ∀ c ∈ costs, c = 0 := by
  induction costs with
  | nil =>
      simp
  | cons c costs ih =>
      obtain ⟨hc, hcosts⟩ := List.forall_mem_cons.1 h
      have hsum : 0 ≤ costs.sum := List.sum_nonneg hcosts
      rw [List.sum_cons, List.forall_mem_cons, ← ih hcosts]
      constructor
      · intro hzero
        exact ⟨by linarith, by linarith⟩
      · rintro ⟨rfl, hzero⟩
        rw [hzero, add_zero]

/-- **Cost agreement.**  When `complete` returns, its result carries the cost that was recorded in the run just when
the answers before the last one, all of them blank, were free. -/
theorem complete_cost_iff (py : Python) (fixed : ℕ → ℚ → String) (settings : LlmSettings) (messages : List ChatMessage)
    (model : Option String) {log : LlmLog} {result : CompletionResult}
    (h : (complete py fixed settings messages model).Ends log (.ok result)) :
    CostAgrees fixed settings.monthlyBudgetUsd (settings.chainFor model) log result ↔
      ∀ c ∈ (answerCosts log).dropLast, c = 0 := by
  have hwalk : Walk fixed settings.monthlyBudgetUsd (settings.chainFor model) log result := completeFrom_ends h
  obtain ⟨earlier, hlast⟩ := hwalk.last
  have hnonneg := hwalk.nonneg
  have htotal : recordedTotal log = earlier.sum + result.costUsd.getD 0 := by
    rw [recordedTotal, hwalk.total, hlast, List.sum_append, List.sum_singleton]
  rw [hlast, List.forall_mem_append] at hnonneg
  rw [hlast, List.dropLast_concat, ← sum_eq_zero_iff hnonneg.1, CostAgrees, htotal]
  constructor
  · rintro ⟨hsame, -⟩
    linarith
  · intro hzero
    exact ⟨by rw [hzero, zero_add], hwalk.attempts⟩

/-! ### A blank answer that was billed -/

/-- The files of the budget, and what each model answers. -/
structure LlmWorld where
  files : BudgetWorld
  answers : String → Except LlmError ChatCompletion

/-- Runs a call. -/
def LlmCall.handle : (c : LlmCall) → LlmWorld → c.Resp × LlmWorld
  | .budget c, w => ((c.handle w.files).1, { w with files := (c.handle w.files).2 })
  | .create _ _ model, w => (w.answers model, w)
  | .sleep _, w => ((), w)

/-- An answer that was billed a thousandth. -/
def billedAnswer (content : String) : ChatCompletion where
  promptTokens := some 10
  completionTokens := some 5
  totalTokens := some 15
  usageCost := some (1 / 1000)
  cost := none
  choices := [some content]

/-- A chain of two models. -/
def sampleLlmSettings : LlmSettings where
  openrouterModel := "a"
  openrouterReferer := "https://pm.test"
  openrouterTitle := "pm"
  modelChain := ["a", "b"]
  monthlyBudgetUsd := 50

/-- A provider whose first model answers this. -/
def sampleProvider (first : Except LlmError ChatCompletion) : LlmWorld where
  files := sampleBudget
  answers := fun model => if model = "a" then first else .ok (billedAnswer "ok")

/-- The client with that provider. -/
def sampleComplete : LlmProg CompletionResult :=
  complete samplePython (fun _ _ => "") sampleLlmSettings [⟨"user", "hi"⟩] none

/-- The run with that provider: its log, the costs of its answers, and its end. -/
def sampleCompletion (first : Except LlmError ChatCompletion) : LlmLog × List ℚ × Except String CompletionResult :=
  let log := sampleComplete.trace LlmCall.handle (sampleProvider first)
  (log, answerCosts log, (sampleComplete.run LlmCall.handle (sampleProvider first)).1)

/-- After a failure for want of credit, the answer of the second model is all that was billed. -/
theorem fallenBack_facts : (sampleCompletion (.error (.apiStatus 402 "credit"))).2.1 = [1 / 1000] ∧
    ((sampleCompletion (.error (.apiStatus 402 "credit"))).2.2.toOption.map
      fun result => (result.model, result.costUsd)) = some ("b", some (1 / 1000)) := by
  decide +kernel

/-- After a blank answer, two answers were billed. -/
theorem blankFirst_facts : (sampleCompletion (.ok (billedAnswer " "))).2.1 = [1 / 1000, 1 / 1000] ∧
    ((sampleCompletion (.ok (billedAnswer " "))).2.2.toOption.map
      fun result => (result.model, result.costUsd)) = some ("b", some (1 / 1000)) := by
  decide +kernel

theorem ends_of_toOption {first : Except LlmError ChatCompletion} {result : CompletionResult}
    (h : (sampleCompletion first).2.2.toOption = some result) :
    sampleComplete.Ends (sampleCompletion first).1 (.ok result) := by
  have hends := Prog.ends_trace LlmCall.handle sampleComplete (sampleProvider first)
  change (sampleComplete.run LlmCall.handle (sampleProvider first)).1.toOption = some result at h
  cases hrun : (sampleComplete.run LlmCall.handle (sampleProvider first)).1 with
  | error msg =>
      rw [hrun] at h
      cases h
  | ok result' =>
      rw [hrun] at h hends
      obtain rfl := Option.some.inj h
      exact hends

theorem complete_cost_iff_fallen_back : ∃ result,
    sampleComplete.Ends (sampleCompletion (.error (.apiStatus 402 "credit"))).1 (.ok result) ∧
      CostAgrees (fun _ _ => "") 50 ["a", "b"] (sampleCompletion (.error (.apiStatus 402 "credit"))).1 result := by
  obtain ⟨hcosts, hresult⟩ := fallenBack_facts
  obtain ⟨result, hsome, -⟩ := Option.map_eq_some_iff.1 hresult
  have hends := ends_of_toOption hsome
  refine ⟨result, hends, ?_⟩
  have hagrees := complete_cost_iff samplePython (fun _ _ => "") sampleLlmSettings [⟨"user", "hi"⟩] none hends
  refine hagrees.2 ?_
  change ∀ c ∈ (sampleCompletion (.error (.apiStatus 402 "credit"))).2.1.dropLast, c = 0
  rw [hcosts]
  simp

/-- The blank answer was recorded, and the result does not carry its cost. -/
theorem complete_drops_blank_cost : ¬ ∀ (log : LlmLog) (result : CompletionResult),
    sampleComplete.Ends log (.ok result) → CostAgrees (fun _ _ => "") 50 ["a", "b"] log result := by
  intro hall
  obtain ⟨hcosts, hresult⟩ := blankFirst_facts
  obtain ⟨result, hsome, hfields⟩ := Option.map_eq_some_iff.1 hresult
  have hends := ends_of_toOption hsome
  obtain ⟨hsame, -⟩ := hall _ result hends
  have hwalk : Walk (fun _ _ => "") 50 ["a", "b"] (sampleCompletion (.ok (billedAnswer " "))).1 result :=
    completeFrom_ends hends
  have hcost : result.costUsd = some (1 / 1000) := (Prod.mk.inj hfields).2
  rw [recordedTotal, hwalk.total, hcost] at hsame
  change _ = (sampleCompletion (.ok (billedAnswer " "))).2.1.sum at hsame
  rw [hcosts] at hsame
  norm_num at hsame

end ProjectManager
