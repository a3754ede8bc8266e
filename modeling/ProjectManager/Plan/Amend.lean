import ProjectManager.Store.Tasks

/-!
# Amendments of a running plan

`amend_with_retries` asks the language model for new pending steps and validates them together with
the steps that are already under way; `preview_adjust_team_task` turns the outcome into a draft.
Everything here is a function of one snapshot of the task, taken before the model is asked.
`previewAdjust_spec` says what a draft contains.
-/

namespace ProjectManager

open Text

/-- `MAX_AMEND_ATTEMPTS`. -/
def maxAmendAttempts : ℕ := 3

/-- A completion of the language model. -/
structure LlmResult where
  content : String
  costUsd : Option ℚ

/-- How an amendment can fail: refused by the plan checks, by a constructor, or by the model's client. -/
inductive AmendError where
  | decomposition (msg : String)
  | validation (errors : List String)
  | llm (msg : String)

/-- The dict of a validated step. -/
def TeamStepPlan.toDict (s : TeamStepPlan) : StepDict where
  stepId := s.stepId
  title := s.title
  assignedTo := s.assignedTo
  deps := s.deps
  acceptance := s.acceptance
  stepType := some s.stepType
  needsReview := s.needsReview

/-- A confirmed row that is no longer pending. -/
def TeamStep.isFrozen (s : TeamStep) : Bool :=
  decide (s.status ≠ .pending) && !s.systemInserted

/-- `_amend_frozen_prefix`: the confirmed steps a replan keeps, validated again. -/
def amendFrozenPrefix (rt : Runtime) (task : TeamTask) : Except (List String) (List TeamStepPlan) :=
  (task.steps.filter TeamStep.isFrozen).mapM fun s =>
    TeamStepPlan.validate rt
      { stepId := s.stepId, title := s.title, assignedTo := s.assignedTo, deps := s.deps }

/-- What one completion gives: the new pending steps and the whole plan. -/
def amendAttempt (rt : Runtime) (task : TeamTask) (frozen : List TeamStepPlan)
    (staff : List (String × String)) (content : String) :
    Except AmendError (DecomposedTask × DecomposedTask) :=
  match parseDecomposedTask rt content with
  | .error msg => .error (.decomposition msg)
  | .ok amendment =>
      match DecomposedTask.validate rt (frozen ++ amendment.steps) true "" with
      | .error errors => .error (.validation errors)
      | .ok combined =>
          match validateDecomposition rt combined (staff.map fun x => x.1) none with
          | .error msg => .error (.decomposition msg)
          | .ok _ =>
              if task.picId = "" then
                .ok (amendment, combined)
              else
                match validatePicTerminal amendment.steps task.picId with
                | .error msg => .error (.decomposition msg)
                | .ok () => .ok (amendment, combined)

/-- The bounded loop of `amend_with_retries`: `attempts` are left, `spent` has been paid. -/
def amendLoop (rt : Runtime) (task : TeamTask) (frozen : List TeamStepPlan)
    (staff : List (String × String)) (complete : ℕ → String → Except String LlmResult) :
    ℕ → String → ℚ → Except AmendError (DecomposedTask × DecomposedTask × ℚ)
  | 0, lastError, _ =>
      .error (.decomposition
        s!"không chỉnh được kế hoạch hợp lệ sau {maxAmendAttempts} lần thử: {lastError}")
  | attempts + 1, lastError, spent =>
      match complete attempts lastError with
      | .error msg => .error (.llm msg)
      | .ok result =>
          let spent := spent + result.costUsd.getD 0
          match amendAttempt rt task frozen staff result.content with
          | .ok (amendment, combined) => .ok (amendment, combined, spent)
          | .error (.decomposition msg) => amendLoop rt task frozen staff complete attempts msg spent
          | .error err => .error err

/-- `amend_with_retries`: the new steps, the whole plan and the cost. -/
def amendWithRetries (rt : Runtime) (task : TeamTask) (staff : List (String × String))
    (complete : ℕ → String → Except String LlmResult) :
    Except AmendError (DecomposedTask × DecomposedTask × ℚ) :=
  if staff = [] then
    .error (.decomposition "chưa có nhân sự nào để giao việc — hãy tạo agent trước")
  else
    match amendFrozenPrefix rt task with
    | .error errors => .error (.validation errors)
    | .ok frozen => amendLoop rt task frozen staff complete maxAmendAttempts "" 0

/-- What `preview_adjust_team_task` hands to `set_amendment_draft`. -/
structure AmendPreview where
  basePlanHash : String
  newPlanHash : String
  newPendingSteps : List StepDict
  oldPendingStepIds : List String
  costUsd : ℚ
deriving DecidableEq, Repr

/-- The ids of the pending steps. -/
def TeamTask.pendingIds (task : TeamTask) : List String :=
  (task.steps.filter fun s => decide (s.status = .pending)).map fun s => s.stepId

/-- `preview_adjust_team_task`, from the snapshot it has read to the draft it will store. -/
def previewAdjust (rt : Runtime) (task : TeamTask) (staff : List (String × String))
    (complete : ℕ → String → Except String LlmResult) : Except String AmendPreview :=
  if task.pendingIds = [] then
    .error s!"việc #{task.id} không còn bước nào đang chờ để chỉnh"
  else
    match amendWithRetries rt task staff complete with
    | .error (.decomposition msg) => .error msg
    | .error (.validation errors) => .error (rt.validationText errors)
    | .error (.llm msg) => .error msg
    | .ok (amendment, combined, cost) =>
        .ok
          { basePlanHash := Db.fullDagPlanHash rt task.steps
            newPlanHash := decompositionContentHash rt (combined.steps.map fun s => s.toStepFields)
            newPendingSteps := amendment.steps.map TeamStepPlan.toDict
            oldPendingStepIds := task.pendingIds
            costUsd := cost }

/-! ### What a draft contains -/

/-- The texts of a confirmed row are stripped, as its validated step had them. -/
def StepFields.Stripped (s : StepFields) : Prop :=
  strip s.stepId = s.stepId ∧ strip s.title = s.title ∧ strip s.assignedTo = s.assignedTo

theorem TeamStepPlan.stripped (s : TeamStepPlan) : s.toStepFields.Stripped :=
  ⟨s.stepId_stripped, s.title_stripped, s.assignedTo_stripped⟩

/-- Validating stripped rows again changes nothing of what the hash reads. -/
theorem mapM_validate_fields {rt : Runtime} {rows : List TeamStep} {plans : List TeamStepPlan}
    (hstripped : ∀ s ∈ rows, s.toStepFields.Stripped)
    (h : (rows.mapM fun s : TeamStep => TeamStepPlan.validate rt
      { stepId := s.stepId, title := s.title, assignedTo := s.assignedTo, deps := s.deps }) = .ok plans) :
    plans.map (fun p => p.toStepFields) = rows.map fun s => s.toStepFields := by
  induction rows generalizing plans with
  | nil =>
      obtain rfl : plans = [] := by
        simpa [pure, Except.pure] using h.symm
      rfl
  | cons s rows ih =>
      rw [List.mapM_cons] at h
      cases hs : TeamStepPlan.validate rt
          { stepId := s.stepId, title := s.title, assignedTo := s.assignedTo, deps := s.deps } with
      | error errors =>
          simp [hs, bind, Except.bind] at h
      | ok p =>
          cases hrest : rows.mapM fun s : TeamStep => TeamStepPlan.validate rt
              { stepId := s.stepId, title := s.title, assignedTo := s.assignedTo, deps := s.deps } with
          | error errors =>
              simp [hs, hrest, bind, Except.bind] at h
          | ok ps =>
              obtain rfl : p :: ps = plans := by
                simpa [hs, hrest, bind, Except.bind, pure, Except.pure] using h
              have hfields := TeamStepPlan.validate_fields hs
              obtain ⟨hid, htitle, hassignee⟩ := hstripped s (by simp)
              rw [List.map_cons, List.map_cons, ih (fun s hs => hstripped s (by simp [hs])) hrest, hfields,
                hid, htitle, hassignee]

theorem amendAttempt_ok {rt : Runtime} {task : TeamTask} {frozen : List TeamStepPlan}
    {staff : List (String × String)} {content : String} {amendment combined : DecomposedTask}
    (h : amendAttempt rt task frozen staff content = .ok (amendment, combined)) :
    combined.steps = frozen ++ amendment.steps ∧ acyclic combined.steps = true := by
  unfold amendAttempt at h
  split at h
  · cases h
  split at h
  · cases h
  rename_i hcombined
  split at h
  · cases h
  rename_i hvalid
  have hfacts := And.intro (DecomposedTask.validate_steps hcombined) (validateDecomposition_steps hvalid).2
  split at h
  · obtain ⟨rfl, rfl⟩ := Prod.mk.inj (Except.ok.inj h)
    exact hfacts
  split at h
  · cases h
  · obtain ⟨rfl, rfl⟩ := Prod.mk.inj (Except.ok.inj h)
    exact hfacts

theorem amendLoop_ok {rt : Runtime} {task : TeamTask} {frozen : List TeamStepPlan}
    {staff : List (String × String)} {complete : ℕ → String → Except String LlmResult} {attempts : ℕ}
    {lastError : String} {spent cost : ℚ} {amendment combined : DecomposedTask}
    (h : amendLoop rt task frozen staff complete attempts lastError spent = .ok (amendment, combined, cost)) :
    combined.steps = frozen ++ amendment.steps ∧ acyclic combined.steps = true := by
  induction attempts generalizing lastError spent with
  | zero =>
      cases h
  | succ attempts ih =>
      simp only [amendLoop] at h
      split at h
      · cases h
      split at h
      · rename_i hattempt
        simp only [Except.ok.injEq, Prod.mk.injEq] at h
        obtain ⟨rfl, rfl, -⟩ := h
        exact amendAttempt_ok hattempt
      · exact ih h
      · cases h

/-- What a previewed amendment contains: new steps that together with the kept ones make a valid plan,
that plan's hash, and the snapshot's hash and pending ids. -/
structure AmendPreview.From (rt : Runtime) (task : TeamTask) (p : AmendPreview) (amendment : DecomposedTask)
    (combined : DecomposedTask) : Prop where
  steps : combined.steps.map (fun s => s.toStepFields) =
    (task.steps.filter TeamStep.isFrozen).map (fun s => s.toStepFields) ++
      amendment.steps.map fun s => s.toStepFields
  acyclic : acyclic combined.steps = true
  newPending : p.newPendingSteps = amendment.steps.map TeamStepPlan.toDict
  newHash : p.newPlanHash = decompositionContentHash rt (combined.steps.map fun s => s.toStepFields)
  base : p.basePlanHash = Db.fullDagPlanHash rt task.steps
  old : p.oldPendingStepIds = task.pendingIds
  pending : task.pendingIds ≠ []

theorem previewAdjust_spec {rt : Runtime} {task : TeamTask} {staff : List (String × String)}
    {complete : ℕ → String → Except String LlmResult} {p : AmendPreview}
    (hstripped : ∀ s ∈ task.steps, s.systemInserted = false → s.toStepFields.Stripped)
    (h : previewAdjust rt task staff complete = .ok p) : ∃ amendment combined, p.From rt task amendment combined := by
  unfold previewAdjust at h
  split at h
  · cases h
  rename_i hpending
  split at h
  · cases h
  · cases h
  · cases h
  rename_i amendment combined cost hamend
  obtain rfl := Except.ok.inj h
  unfold amendWithRetries at hamend
  split at hamend
  · cases hamend
  split at hamend
  · cases hamend
  rename_i frozen hfrozen
  obtain ⟨hsteps, hacyclic⟩ := amendLoop_ok hamend
  have hfields := mapM_validate_fields (fun s hs => hstripped s (List.mem_of_mem_filter hs) (by
    have := (List.mem_filter.1 hs).2
    simp only [TeamStep.isFrozen, Bool.and_eq_true, Bool.not_eq_true'] at this
    exact this.2)) hfrozen
  exact ⟨amendment, combined,
    { steps := by rw [hsteps, List.map_append, hfields]
      acyclic := hacyclic
      newPending := rfl
      newHash := rfl
      base := rfl
      old := rfl
      pending := hpending }⟩

end ProjectManager
