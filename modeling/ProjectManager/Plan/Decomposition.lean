import ProjectManager.Lib.CanonicalJson
import ProjectManager.Lib.Text
import ProjectManager.Store.Schema

/-!
# Plans: schema, validation and content hash

The language model only proposes a plan; every hard constraint is checked here in code.
`TeamStepPlan` and `DecomposedTask` carry what their validators establish, so that a value of these
types is a validated one.  `decompositionContentHash` binds a confirmation to the shape of the plan:
`decompositionContentHash_injective` says that two plans with one hash have the same steps.
-/

namespace ProjectManager

open Text

/-- `MAX_STEPS`. -/
def maxSteps : ℕ := 7

/-! ### What the runtime provides -/

/-- A step of a proposal as it comes out of the JSON text, before the validators. -/
structure RawStep where
  stepId : String
  title : String
  assignedTo : String
  deps : List String := []
  acceptance : String := ""
  stepType : String := "work"
  needsReview : Bool := false
deriving DecidableEq, Repr

/-- A proposal as it comes out of the JSON text, before the validators. -/
structure RawTask where
  steps : List RawStep
  requiresApproval : Bool := true
  picId : String := ""
deriving DecidableEq, Repr

/-- What reading a completion as a proposal can give. -/
inductive Decoded where
  | notJson (exc : String)
  | notObject
  /-- a field is missing or has a wrong type -/
  | mistyped (errors : List String)
  | task (raw : RawTask)

/-- The library functions that the plan code rests on. -/
structure Runtime where
  /-- the hexadecimal digest of a text's UTF-8 bytes -/
  sha256 : String → String
  /-- `repr` of a `str` -/
  repr : String → String
  /-- `json.loads` and the typed reading of the fields -/
  decode : String → Decoded
  /-- the text of a validation error with these messages -/
  validationText : List String → String

/-- `repr` of a list of texts. -/
def Runtime.reprList (rt : Runtime) (l : List String) : String :=
  "[" ++ ", ".intercalate (l.map rt.repr) ++ "]"

/-! ### One step -/

/-- The text of a step type. -/
def StepType.text : StepType → String
  | .work => "work"
  | .review => "review"
  | .rework => "rework"

/-- A value of `_STEP_TYPES`. -/
def StepType.ofText : String → Option StepType
  | "work" => some .work
  | "review" => some .review
  | "rework" => some .rework
  | _ => none

/-- `TeamStepPlan`: one validated step of a proposal. -/
structure TeamStepPlan extends StepFields where
  acceptance : String
  stepType : StepType
  needsReview : Bool
  stepId_stripped : strip stepId = stepId
  title_stripped : strip title = title
  title_nonblank : title ≠ ""
  assignedTo_stripped : strip assignedTo = assignedTo
deriving DecidableEq

/-- The length bounds of a text field. -/
def lengthErrors (name : String) (lo hi : ℕ) (v : String) : List String :=
  if v.length < lo then
    [s!"{name}: String should have at least {lo} character"]
  else if hi < v.length then
    [s!"{name}: String should have at most {hi} characters"]
  else
    []

/-- `_valid_step_type`. -/
def validStepType (rt : Runtime) (v : String) : Except String StepType :=
  let stripped := if strip v = "" then "work" else strip v
  match StepType.ofText stripped with
  | some t => .ok t
  | none => .error s!"step_type: step_type must be one of ('work', 'review', 'rework'), got {rt.repr stripped}"

/-- The construction of a `TeamStepPlan`: bounds on the raw texts, then the validators. -/
def TeamStepPlan.validate (rt : Runtime) (raw : RawStep) : Except (List String) TeamStepPlan :=
  let errors := lengthErrors "step_id" 1 40 raw.stepId ++ lengthErrors "title" 1 300 raw.title ++
    lengthErrors "assigned_to" 1 40 raw.assignedTo ++ lengthErrors "acceptance" 0 2000 raw.acceptance
  match errors, validStepType rt raw.stepType with
  | [], .ok stepType =>
      if h : strip raw.title = "" then
        .error ["title: title must not be blank"]
      else
        .ok
          { stepId := strip raw.stepId
            title := strip raw.title
            assignedTo := strip raw.assignedTo
            deps := raw.deps
            acceptance := strip raw.acceptance
            stepType := stepType
            needsReview := raw.needsReview
            stepId_stripped := strip_strip _
            title_stripped := strip_strip _
            title_nonblank := h
            assignedTo_stripped := strip_strip _ }
  | errors, .ok _ => .error errors
  | errors, .error msg => .error (errors ++ [msg])

/-- A validated step keeps the texts of its proposal, stripped. -/
theorem TeamStepPlan.validate_fields {rt : Runtime} {raw : RawStep} {p : TeamStepPlan}
    (h : TeamStepPlan.validate rt raw = .ok p) :
    p.toStepFields = ⟨strip raw.stepId, strip raw.title, strip raw.assignedTo, raw.deps⟩ := by
  simp only [TeamStepPlan.validate] at h
  split at h
  · split at h
    · cases h
    · obtain rfl := Except.ok.inj h
      rfl
  · cases h
  · cases h

/-! ### The whole plan -/

/-- The first element that occurs again later. -/
def firstRepeated : List String → List String → Option String
  | _, [] => none
  | seen, x :: rest => if x ∈ seen then some x else firstRepeated (x :: seen) rest

theorem nodup_of_firstRepeated {l seen : List String} (h : firstRepeated seen l = none) :
    l.Nodup ∧ ∀ x ∈ l, x ∉ seen := by
  induction l generalizing seen with
  | nil =>
      simp
  | cons x rest ih =>
      simp only [firstRepeated] at h
      split at h
      · exact absurd h (by simp)
      · rename_i hx
        obtain ⟨hnodup, hnot⟩ := ih h
        have hfresh : x ∉ rest := fun hmem => hnot x hmem (by simp)
        refine ⟨List.nodup_cons.2 ⟨hfresh, hnodup⟩, ?_⟩
        intro y hy
        rcases List.mem_cons.1 hy with rfl | hy
        · exact hx
        · exact fun hseen => hnot y hy (by simp [hseen])

/-- `_deps_reference_known_steps` for one step. -/
def depsError (rt : Runtime) (ids : List String) (s : TeamStepPlan) : Option String :=
  let unknown := s.deps.filter fun d => d ∉ ids
  if unknown ≠ [] then
    some s!"step {rt.repr s.stepId} depends on unknown step(s) {rt.reprList unknown}"
  else if s.stepId ∈ s.deps then
    some s!"step {rt.repr s.stepId} cannot depend on itself"
  else
    none

/-- `_step_type_bounds` for one step. -/
def stepTypeError (rt : Runtime) (s : TeamStepPlan) : Option String :=
  if s.stepType ≠ .work then
    some (s!"step {rt.repr s.stepId}: step_type {rt.repr s.stepType.text} is reserved for " ++
      "ticker-inserted rows and cannot appear in a decompose proposal")
  else
    none

/-- `DecomposedTask`: a validated plan. -/
structure DecomposedTask where
  steps : List TeamStepPlan
  requiresApproval : Bool
  picId : String
  nonempty : steps ≠ []
  bounded : steps.length ≤ maxSteps
  unique : (steps.map fun s => s.stepId).Nodup
  known : ∀ s ∈ steps, ∀ d ∈ s.deps, d ∈ steps.map fun s => s.stepId
  irreflexive : ∀ s ∈ steps, s.stepId ∉ s.deps
  work : ∀ s ∈ steps, s.stepType = .work

/-- The first error of a check that goes through the steps. -/
def firstError (check : TeamStepPlan → Option String) (steps : List TeamStepPlan) : Option String :=
  steps.findSome? check

theorem of_firstError {check : TeamStepPlan → Option String} {steps : List TeamStepPlan}
    (h : firstError check steps = none) : ∀ s ∈ steps, check s = none := by
  simpa [firstError] using h

theorem of_depsError {rt : Runtime} {ids : List String} {s : TeamStepPlan} (h : depsError rt ids s = none) :
    (∀ d ∈ s.deps, d ∈ ids) ∧ s.stepId ∉ s.deps := by
  simp only [depsError] at h
  split at h
  · exact absurd h (by simp)
  · split at h
    · exact absurd h (by simp)
    · rename_i hunknown hself
      refine ⟨?_, hself⟩
      simpa [List.filter_eq_nil_iff] using hunknown

/-- The construction of a `DecomposedTask` from validated steps. -/
def DecomposedTask.validate (rt : Runtime) (steps : List TeamStepPlan) (requiresApproval : Bool)
    (picId : String) : Except (List String) DecomposedTask :=
  if hne : steps = [] then
    .error ["steps: Tuple should have at least 1 item after validation, not 0"]
  else if hbound : maxSteps < steps.length then
    .error [s!"steps: Tuple should have at most {maxSteps} items after validation, not {steps.length}"]
  else
    match hunique : firstRepeated [] (steps.map fun s => s.stepId) with
    | some id => .error [s!"steps: duplicate step_id {rt.repr id}"]
    | none =>
        match hdeps : firstError (depsError rt (steps.map fun s => s.stepId)) steps with
        | some msg => .error [msg]
        | none =>
            match htype : firstError (stepTypeError rt) steps with
            | some msg => .error [msg]
            | none =>
                .ok
                  { steps := steps
                    requiresApproval := requiresApproval
                    picId := strip picId
                    nonempty := hne
                    bounded := Nat.le_of_not_lt hbound
                    unique := (nodup_of_firstRepeated hunique).1
                    known := fun s hs => (of_depsError (of_firstError hdeps s hs)).1
                    irreflexive := fun s hs => (of_depsError (of_firstError hdeps s hs)).2
                    work := fun s hs => by
                      have hnone := of_firstError htype s hs
                      simp only [stepTypeError] at hnone
                      by_contra hne
                      simp [hne] at hnone }

/-- Validation takes the steps as they are. -/
theorem DecomposedTask.validate_steps {rt : Runtime} {steps : List TeamStepPlan} {approval : Bool}
    {picId : String} {task : DecomposedTask} (h : DecomposedTask.validate rt steps approval picId = .ok task) :
    task.steps = steps := by
  unfold DecomposedTask.validate at h
  split at h
  · cases h
  split at h
  · cases h
  split at h
  · cases h
  split at h
  · cases h
  split at h
  · cases h
  obtain rfl := Except.ok.inj h
  rfl

/-- `DecompositionError`s carry a message for the operator. -/
abbrev DecompositionError := String

/-- `parse_decomposed_task`. -/
def parseDecomposedTask (rt : Runtime) (rawJson : String) : Except DecompositionError DecomposedTask :=
  match rt.decode rawJson with
  | .notJson exc => .error s!"phân rã không phải JSON hợp lệ: {exc}"
  | .notObject => .error "phân rã phải là một object JSON"
  | .mistyped errors => .error s!"phân rã không hợp lệ: {rt.validationText errors}"
  | .task raw =>
      match raw.steps.mapM (TeamStepPlan.validate rt) with
      | .error errors => .error s!"phân rã không hợp lệ: {rt.validationText errors}"
      | .ok steps =>
          match DecomposedTask.validate rt steps raw.requiresApproval raw.picId with
          | .error errors => .error s!"phân rã không hợp lệ: {rt.validationText errors}"
          | .ok task => .ok task

/-! ### Acyclicity -/

/-- The dependents of a step, once for each time they name it. -/
def dependents (steps : List TeamStepPlan) (id : String) : List String :=
  steps.flatMap fun s => (s.deps.filter fun d => decide (d = id)).map fun _ => s.stepId

/-- The state of the loop of `_acyclic`: the stack, the remaining in-degrees and the count. -/
structure KahnState where
  stack : List String
  indeg : String → ℕ
  visited : ℕ

/-- One edge out of the node taken from the stack. -/
def relax (st : KahnState) (next : String) : KahnState :=
  let deg := st.indeg next - 1
  { st with
    indeg := fun id => if id = next then deg else st.indeg id
    stack := if deg = 0 then next :: st.stack else st.stack }

/-- The loop of `_acyclic`, for at most `fuel` nodes. -/
def kahnLoop (steps : List TeamStepPlan) : ℕ → KahnState → ℕ
  | 0, st => st.visited
  | fuel + 1, st =>
      match st.stack with
      | [] => st.visited
      | node :: rest =>
          kahnLoop steps fuel
            ((dependents steps node).foldl relax { st with stack := rest, visited := st.visited + 1 })

/-- `_acyclic`: Kahn's algorithm.  A node enters the stack when its in-degree reaches zero, so the
loop takes each node at most once. -/
def acyclic (steps : List TeamStepPlan) : Bool :=
  let indeg := fun id => ((steps.filter fun s => decide (s.stepId = id)).map fun s => s.deps.length).sum
  let stack := ((steps.map fun s => s.stepId).filter fun id => decide (indeg id = 0)).reverse
  kahnLoop steps steps.length ⟨stack, indeg, 0⟩ == steps.length

/-! ### Code-side validation -/

/-- `validate_pic_terminal`: one last step, and it belongs to the person in charge. -/
def validatePicTerminal (steps : List TeamStepPlan) (picId : String) : Except DecompositionError Unit :=
  let targets := steps.flatMap fun s => s.deps
  match steps.filter fun s => s.stepId ∉ targets with
  | [last] =>
      if last.assignedTo ≠ picId then
        .error (s!"bước chốt cuối [{last.stepId}] phải do PIC ({picId}) đảm nhận, " ++
          s!"đang giao cho {last.assignedTo}")
      else
        .ok ()
  | terminals =>
      .error ("kế hoạch phải có ĐÚNG MỘT bước chốt cuối (tổng hợp) — hiện có " ++
        s!"{terminals.length} bước không ai phụ thuộc: " ++
        ", ".intercalate (terminals.map fun s => s.stepId))

/-- The assignees outside the staff, sorted. -/
def unauthorized (steps : List TeamStepPlan) (staff : List String) : List String :=
  ((steps.map fun s => s.assignedTo).filter fun a => a ∉ staff).dedup.insertionSort (· ≤ ·)

/-- The person in charge: the one the CEO named, else the proposal's own. -/
def effectivePic (task : DecomposedTask) : Option String → String
  | none => task.picId
  | some id => strip id

/-- `validate_decomposition`. -/
def validateDecomposition (rt : Runtime) (task : DecomposedTask) (staff : List String)
    (picId : Option String) : Except DecompositionError DecomposedTask :=
  if ¬ (1 ≤ task.steps.length ∧ task.steps.length ≤ maxSteps) then
    .error s!"số bước phải từ 1 đến {maxSteps} (nhận được {task.steps.length})"
  else if !acyclic task.steps then
    .error "kế hoạch có vòng lặp phụ thuộc (dependency cycle)"
  else if unauthorized task.steps staff ≠ [] then
    .error ("các bước được giao cho agent không tồn tại/không hợp lệ: " ++
      ", ".intercalate (unauthorized task.steps staff))
  else
    if effectivePic task picId = "" then
      .ok { task with picId := effectivePic task picId }
    else if effectivePic task picId ∉ staff then
      .error s!"PIC {rt.repr (effectivePic task picId)} không có trong danh sách nhân sự có thể giao việc"
    else
      match validatePicTerminal task.steps (effectivePic task picId) with
      | .error msg => .error msg
      | .ok () => .ok { task with picId := effectivePic task picId }

theorem validateDecomposition_steps {rt : Runtime} {task task' : DecomposedTask} {staff : List String}
    {picId : Option String} (h : validateDecomposition rt task staff picId = .ok task') :
    task'.steps = task.steps ∧ acyclic task.steps = true := by
  simp only [validateDecomposition] at h
  split at h
  · cases h
  split at h
  · cases h
  rename_i hcycle
  have hacyclic : acyclic task.steps = true := by simpa using hcycle
  split at h
  · cases h
  split at h
  · obtain rfl := Except.ok.inj h
    exact ⟨rfl, hacyclic⟩
  split at h
  · cases h
  split at h
  · cases h
  · obtain rfl := Except.ok.inj h
    exact ⟨rfl, hacyclic⟩

/-! ### The content hash -/

/-- One step in the canonical JSON, its keys sorted. -/
def stepCode : CanonicalJson.Code (String × List String × String × String) :=
  open CanonicalJson in
  object ((field "assigned_to" text).comma ((field "deps" (list text (by decide))).comma
    ((field "step_id" text).comma (field "title" text))))

/-- The canonical JSON of a plan. -/
def planCode : CanonicalJson.Code (List (String × List String × String × String)) :=
  open CanonicalJson in object (field "steps" (list stepCode (by decide)))

/-- The four texts of a step in the order of the sorted keys. -/
def StepFields.sortedFields (s : StepFields) : String × List String × String × String :=
  (s.assignedTo, s.deps, s.stepId, s.title)

/-- The text that is hashed. -/
def canonicalPlan (steps : List StepFields) : String :=
  planCode.render (steps.map StepFields.sortedFields)

/-- `decomposition_content_hash`. -/
def decompositionContentHash (rt : Runtime) (steps : List StepFields) : String :=
  rt.sha256 (canonicalPlan steps)

example : canonicalPlan [⟨"s1", "Viết", "qa", ["s0"]⟩] =
    "\x7b\"steps\":[\x7b\"assigned_to\":\"qa\",\"deps\":[\"s0\"],\"step_id\":\"s1\"," ++
      "\"title\":\"Vi\\u1ebft\"\x7d]\x7d" := by
  decide +kernel

theorem sortedFields_injective : Function.Injective StepFields.sortedFields := by
  rintro ⟨id, title, assignee, deps⟩ ⟨id', title', assignee', deps'⟩ h
  simp only [StepFields.sortedFields, Prod.mk.injEq] at h
  obtain ⟨rfl, rfl, rfl, rfl⟩ := h
  rfl

/-- When the digest is collision-free, two plans with one hash have the same steps. -/
theorem decompositionContentHash_injective {rt : Runtime} (hsha : Function.Injective rt.sha256) :
    Function.Injective (decompositionContentHash rt) := by
  intro steps steps' h
  exact sortedFields_injective.list_map (planCode.render_injective (hsha h))

end ProjectManager
