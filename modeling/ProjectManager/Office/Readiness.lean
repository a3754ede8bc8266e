import ProjectManager.Office.Ticker
import ProjectManager.Plan.Gate

/-!
# Ready steps

A plan that the gate has accepted can be executed: whatever ready steps are completed, round after round, there are
others until all are done (`executable_of_acyclic`).  With the exactness of the gate this is `decomposition_gate`.
-/

namespace ProjectManager

open Precedence

variable {db db' : Db} {taskId : String} {t t' : TeamTask} {plan : List StepFields} {n : ℕ}

/-! ### The next step -/

/-- `next_pending_step`. -/
def Db.nextPendingStep (db : Db) (taskId : String) : Option TeamStep :=
  let steps := db.stepsForTask taskId
  let doneIds := (steps.filter fun s => decide (s.status = .done)).map fun s => s.stepId
  steps.find? fun s => decide (s.status = .pending) && s.deps.all fun dep => decide (dep ∈ doneIds)

/-- It is the first of the ready steps. -/
theorem nextPendingStep_eq_head (hget : db.get taskId = some t) :
    db.nextPendingStep taskId = (readyPendingSteps t).head? := by
  obtain ⟨-, -, hsteps⟩ := Db.get_eq_some.1 hget
  unfold readyPendingSteps
  rw [List.head?_filter, hsteps]
  rfl

theorem mem_readyPendingSteps {s : TeamStep} : s ∈ readyPendingSteps t ↔ s ∈ t.steps ∧ s.status = .pending ∧
    ∀ d ∈ s.deps, ∃ r ∈ t.steps, r.status = .done ∧ r.stepId = d := by
  simp only [readyPendingSteps, List.mem_filter, Bool.and_eq_true, List.all_eq_true, decide_eq_true_eq, List.mem_map,
    and_assoc]

/-! ### Completing steps -/

/-- The chosen steps become done, one statement for each. -/
def Db.completeSteps (db : Db) (taskId : String) (chosen : List TeamStep) (extras : String → Db.StatusExtras) : Db :=
  chosen.foldl (fun db s => (db.setStepStatus taskId s.stepId .done (extras s.stepId) none).2) db

/-- Rounds in which some ready steps are chosen and completed. -/
inductive Completes (taskId : String) : ℕ → Db → Db → Prop where
  | start (db : Db) : Completes taskId 0 db db
  | round {n : ℕ} {db db' : Db} {t : TeamTask} (h : Completes taskId n db db') (hget : db'.get taskId = some t)
      (chosen : List TeamStep) (hne : chosen ≠ []) (hready : ∀ s ∈ chosen, s ∈ readyPendingSteps t)
      (extras : String → Db.StatusExtras) : Completes taskId (n + 1) db (db'.completeSteps taskId chosen extras)

/-- Starting from rows that are all pending, no more rounds are possible than there are steps, and rounds are possible
until all are done; the next step is the first that is ready all the while. -/
def Executable (plan : List StepFields) : Prop :=
  ∀ (taskId : String) (db : Db) (t : TeamTask), db.get taskId = some t → t.steps.map (fun s => s.toStepFields) = plan →
    (∀ s ∈ t.steps, s.status = .pending) → ∀ (n : ℕ) (db' : Db), Completes taskId n db db' →
      n ≤ plan.length ∧ ∃ t', db'.get taskId = some t' ∧ db'.nextPendingStep taskId = (readyPendingSteps t').head? ∧
        (readyPendingSteps t' = [] → ∀ s ∈ t'.steps, s.status = .done)

/-- What readiness depends on. -/
def TeamTask.progress (t : TeamTask) : List (StepFields × StepStatus) :=
  t.steps.map fun s => (s.toStepFields, s.status)

/-- A statement that completes one step. -/
theorem get_setStepStatus (hget : db.get taskId = some t) (stepId : String) (x : Db.StatusExtras) : ∃ t',
    (db.setStepStatus taskId stepId .done x none).2.get taskId = some t' ∧
      t'.progress = t.progress.map fun s => (s.1, if s.1.stepId = stepId then .done else s.2) := by
  obtain ⟨hrow, hid, hsteps⟩ := Db.get_eq_some.1 hget
  have hrows : (db.setStepStatus taskId stepId .done x none).2.stepsForTask taskId =
      (db.stepsForTask taskId).map fun s =>
        if Db.isAttempt taskId stepId none s then Db.withStatus .done x s else s :=
    @Db.stepsForTask_updateSteps db _ (Db.withStatus .done x) (fun _ => rfl) taskId
  have hmem : ∃ row ∈ (db.setStepStatus taskId stepId .done x none).2.tasks.rows, row.id = taskId := by
    refine ⟨_, List.mem_map_of_mem hrow, ?_⟩
    split <;> exact hid
  obtain ⟨row, hmem, hrowId⟩ := hmem
  refine ⟨⟨row, _⟩, Db.get_eq_some.2 ⟨hmem, hrowId, hrows.symm⟩, ?_⟩
  unfold TeamTask.progress
  rw [hsteps, List.map_map, List.map_map]
  refine List.map_congr_left fun s hs => ?_
  have htask := (Db.mem_stepsForTask.1 hs).2
  by_cases hstep : s.stepId = stepId
  · simp [Db.isAttempt, Db.isStep, htask, hstep, Db.withStatus]
  · simp [Db.isAttempt, Db.isStep, hstep]

/-- The statements of one round. -/
theorem get_completeSteps (chosen : List TeamStep) (extras : String → Db.StatusExtras) (hget : db.get taskId = some t) :
    ∃ t', (db.completeSteps taskId chosen extras).get taskId = some t' ∧
      t'.progress = t.progress.map fun s => (s.1, if s.1.stepId ∈ chosen.map (fun c => c.stepId) then .done else s.2) := by
  induction chosen generalizing db t with
  | nil =>
      refine ⟨t, hget, ?_⟩
      simp
  | cons c chosen ih =>
      obtain ⟨t₁, hget₁, hprogress₁⟩ := get_setStepStatus hget c.stepId (extras c.stepId)
      obtain ⟨t₂, hget₂, hprogress₂⟩ := ih hget₁
      refine ⟨t₂, hget₂, ?_⟩
      rw [hprogress₂, hprogress₁, List.map_map]
      refine List.map_congr_left fun s _ => ?_
      by_cases hc : s.1.stepId = c.stepId <;> simp [hc]

/-! ### Progress -/

/-- The steps of the plan, each of them pending or done. -/
structure Underway (plan : List StepFields) (t : TeamTask) : Prop where
  fields : t.progress.map Prod.fst = plan
  status : ∀ s ∈ t.progress, s.2 = .pending ∨ s.2 = .done

/-- How many steps are pending. -/
def TeamTask.waiting (t : TeamTask) : ℕ :=
  t.progress.countP fun s => decide (s.2 = .pending)

theorem mem_progress {s : TeamStep} (hs : s ∈ t.steps) : (s.toStepFields, s.status) ∈ t.progress :=
  List.mem_map_of_mem hs

/-- A round leaves fewer steps pending. -/
theorem Underway.round (h : Underway plan t) {chosen : List TeamStep} (hne : chosen ≠ [])
    (hready : ∀ s ∈ chosen, s ∈ readyPendingSteps t) (hprogress : t'.progress =
      t.progress.map fun s => (s.1, if s.1.stepId ∈ chosen.map (fun c => c.stepId) then .done else s.2)) :
    Underway plan t' ∧ t'.waiting < t.waiting := by
  refine ⟨⟨?_, ?_⟩, ?_⟩
  · rw [← h.fields, hprogress, List.map_map]
    rfl
  · rw [hprogress, List.forall_mem_map]
    intro s hs
    split
    · exact .inr rfl
    · exact h.status s hs
  · obtain ⟨c, hc⟩ := List.exists_mem_of_ne_nil chosen hne
    obtain ⟨hmem, hpending, -⟩ := mem_readyPendingSteps.1 (hready c hc)
    -- the chosen steps are no longer counted
    have hleft : t'.waiting = ((t.progress.filter fun s => decide (s.2 = .pending)).filter fun s =>
        decide (s.1.stepId ∉ chosen.map fun c => c.stepId)).length := by
      unfold TeamTask.waiting
      rw [hprogress, List.countP_map, List.countP_eq_length_filter, List.filter_filter]
      refine congrArg List.length (List.filter_congr fun s _ => ?_)
      by_cases hs : s.1.stepId ∈ chosen.map fun c => c.stepId
      · simp only [Function.comp_apply, hs, if_true, reduceCtorEq, not_true_eq_false, decide_false, Bool.false_and]
      · simp only [Function.comp_apply, hs, if_false, not_false_eq_true, decide_true, Bool.true_and]
    unfold TeamTask.waiting at *
    rw [hleft, List.countP_eq_length_filter, List.length_filter_lt_length_iff_exists]
    refine ⟨_, List.mem_filter.2 ⟨mem_progress hmem, decide_eq_true hpending⟩, ?_⟩
    rw [decide_eq_true_iff, not_not]
    exact List.mem_map_of_mem hc

/-- When nothing is ready, nothing is pending. -/
theorem Underway.done_of_not_ready (h : Underway plan t) (hacyclic : Acyclic (Feeds plan))
    (hknown : ∀ s ∈ plan, ∀ d ∈ s.deps, ∃ r ∈ plan, r.stepId = d) (hready : readyPendingSteps t = []) :
    ∀ s ∈ t.steps, s.status = .done := by
  intro s hs
  by_contra hstatus
  have hpending : s.status = .pending := (h.status _ (mem_progress hs)).resolve_right hstatus
  -- the first of the pending steps
  have hne : (t.steps.filter fun s => decide (s.status = .pending)).map (fun s => s.stepId) ≠ [] :=
    List.ne_nil_of_mem (List.mem_map_of_mem (List.mem_filter.2 ⟨hs, decide_eq_true hpending⟩))
  obtain ⟨id, hid, hfirst⟩ := exists_first hacyclic hne
  obtain ⟨p, hp, rfl⟩ := List.mem_map.1 hid
  obtain ⟨hp, hppending⟩ := List.mem_filter.1 hp
  rw [decide_eq_true_iff] at hppending
  have hplan : ∀ r ∈ t.steps, r.toStepFields ∈ plan := by
    intro r hr
    rw [← h.fields]
    exact List.mem_map_of_mem (mem_progress hr)
  refine absurd (mem_readyPendingSteps.2 ⟨hp, hppending, fun d hd => ?_⟩) (hready ▸ List.not_mem_nil)
  obtain ⟨r, hr, rfl⟩ := hknown _ (hplan p hp) d hd
  rw [← h.fields] at hr
  obtain ⟨entry, hentry, rfl⟩ := List.mem_map.1 hr
  obtain ⟨row, hrow, rfl⟩ := List.mem_map.1 hentry
  refine ⟨row, hrow, ?_, rfl⟩
  obtain hrpending | hrdone := h.status _ hentry
  · refine absurd (feeds_iff.2 ⟨_, hplan p hp, rfl, hd⟩) (hfirst _ ?_)
    exact List.mem_map_of_mem (List.mem_filter.2 ⟨hrow, decide_eq_true hrpending⟩)
  · exact hrdone

/-- A run so far. -/
theorem Underway.completes (h : Underway plan t) (hget : db.get taskId = some t) (hrun : Completes taskId n db db') :
    ∃ t', db'.get taskId = some t' ∧ Underway plan t' ∧ n + t'.waiting ≤ t.waiting := by
  induction hrun with
  | start db =>
      exact ⟨t, hget, h, by omega⟩
  | @round n db db' t₁ hrun hget₁ chosen hne hready extras ih =>
      obtain ⟨t₂, hget₂, hunderway, hle⟩ := ih hget
      obtain rfl : t₂ = t₁ := Option.some.inj (hget₂.symm.trans hget₁)
      obtain ⟨t₃, hget₃, hprogress⟩ := get_completeSteps chosen extras hget₂
      obtain ⟨hunderway', hlt⟩ := hunderway.round hne hready hprogress
      exact ⟨t₃, hget₃, hunderway', by omega⟩

/-- Without a cycle a plan can be executed. -/
theorem executable_of_acyclic (hacyclic : Acyclic (Feeds plan))
    (hknown : ∀ s ∈ plan, ∀ d ∈ s.deps, ∃ r ∈ plan, r.stepId = d) : Executable plan := by
  intro taskId db t hget hplan hpending n db' hrun
  have hunderway : Underway plan t := by
    refine ⟨?_, ?_⟩
    · rw [← hplan, TeamTask.progress, List.map_map]
      rfl
    · rw [TeamTask.progress, List.forall_mem_map]
      exact fun s hs => .inl (hpending s hs)
  obtain ⟨t', hget', hunderway', hle⟩ := hunderway.completes hget hrun
  refine ⟨?_, t', hget', nextPendingStep_eq_head hget', hunderway'.done_of_not_ready hacyclic hknown⟩
  have hlen : t.waiting ≤ plan.length := by
    rw [← hplan, List.length_map]
    exact List.countP_le_length.trans_eq (List.length_map _)
  omega

/-- The rows that a plan has in the store are its steps, and all of them are pending. -/
theorem get_replaceSteps {dicts : List StepDict} (hget : db.get taskId = some t)
    (h : db.replaceSteps taskId dicts = some db') : ∃ t', db'.get taskId = some t' ∧
      t'.steps.map (fun s => s.toStepFields) = dicts.map StepDict.fields ∧ ∀ s ∈ t'.steps, s.status = .pending := by
  obtain ⟨hrow, hid, -⟩ := Db.get_eq_some.1 hget
  obtain ⟨table, htable, rfl⟩ := Option.map_eq_some_iff.1 h
  obtain ⟨hrows, -⟩ := Table.Auto.insertAll?_eq_some htable
  have hsteps : ({ db with steps := table } : Db).stepsForTask taskId =
      Table.Auto.numbered (confirmedRow taskId) db.steps.last dicts := by
    unfold Db.stepsForTask
    have hnew : ∀ (d : StepDict) (n : ℕ), decide ((confirmedRow taskId d n).taskId = taskId) = true := by
      simp
    rw [hrows, List.filter_append, Table.Auto.filter_numbered hnew]
    simp [Table.Auto.deleteWhere, List.filter_filter]
  refine ⟨⟨t.toTaskRow, Table.Auto.numbered (confirmedRow taskId) db.steps.last dicts⟩,
    Db.get_eq_some.2 ⟨hrow, hid, hsteps.symm⟩, ?_, ?_⟩
  · exact Table.Auto.map_numbered (confirmedRow taskId) (fun s => s.toStepFields) _ (fun _ _ => rfl) _ _
  · intro s hs
    obtain ⟨d, -, n, -, -, rfl⟩ := Table.Auto.mem_numbered hs
    rfl

/-! ### The gate and the execution -/

/-- The gate lets exactly the acceptable proposals through; in what it lets through every step leads to the last one of
the person in charge, and it can be executed. -/
theorem decomposition_gate (rt : Runtime) (raw : RawTask) (staff : List String) (picId : Option String) :
    ((∃ task, Accepts rt raw staff picId task) ↔ Acceptable raw staff picId) ∧
    ∀ task, Accepts rt raw staff picId task →
      (task.picId ≠ "" → ∃ last, LastStep (stepFields task.steps) task.picId last ∧
        ∀ s ∈ stepFields task.steps, Relation.ReflTransGen (Feeds (stepFields task.steps)) s.stepId last.stepId) ∧
      Executable (stepFields task.steps) := by
  refine ⟨⟨fun ⟨task, h⟩ => h.acceptable, fun h => h.accepts rt⟩, fun task h => ?_⟩
  have hacceptable := h.acceptable
  obtain ⟨hplan, hpic⟩ := h.plan
  rw [hplan, hpic]
  refine ⟨fun hcharge => ?_, ?_⟩
  · obtain ⟨-, last, hlast⟩ := hacceptable.inCharge hcharge
    exact ⟨last, hlast, fun s hs => hlast.reached hacceptable.acyclic hs⟩
  · apply executable_of_acyclic hacceptable.acyclic
    exact fun s hs d hd => (hacceptable.known s hs d hd).2

/-- A proposal of two steps, the second of which names the first twice. -/
def sampleProposal : RawTask where
  steps :=
    [{ stepId := "s2", title := "Report", assignedTo := "qa", deps := ["s1", "s1"] },
     { stepId := " s1 ", title := "Draft", assignedTo := "dev" }]
  picId := "qa"

/-- The sample proposal is accepted, and its last step is the report. -/
theorem decomposition_gate_sample : ∃ task, Accepts Ledger.sampleRuntime sampleProposal ["dev", "qa"] none task ∧
    (∃ last, LastStep (stepFields task.steps) "qa" last ∧
      Relation.ReflTransGen (Feeds (stepFields task.steps)) "s1" last.stepId) ∧
    Executable (stepFields task.steps) := by
  have hok : ((DecomposedTask.modelValidate Ledger.sampleRuntime sampleProposal).toOption.any fun proposed =>
      (validateDecomposition Ledger.sampleRuntime proposed ["dev", "qa"] none).isOk) = true := by
    decide +kernel
  obtain ⟨task, haccepts⟩ : ∃ task, Accepts Ledger.sampleRuntime sampleProposal ["dev", "qa"] none task := by
    cases hproposed : DecomposedTask.modelValidate Ledger.sampleRuntime sampleProposal with
    | error errors =>
        simp [hproposed, Except.toOption] at hok
    | ok proposed =>
        cases hgate : validateDecomposition Ledger.sampleRuntime proposed ["dev", "qa"] none with
        | error msg =>
            simp [hproposed, hgate, Except.toOption, Except.isOk, Except.toBool] at hok
        | ok task =>
            exact ⟨task, proposed, hproposed, hgate⟩
  obtain ⟨hreach, hexecutable⟩ := (decomposition_gate Ledger.sampleRuntime sampleProposal ["dev", "qa"] none).2 task haccepts
  obtain ⟨hplan, hpic⟩ := haccepts.plan
  have hqa : task.picId = "qa" := by
    rw [hpic]
    decide +kernel
  obtain ⟨last, hlast, hreach⟩ := hreach (by simp [hqa])
  refine ⟨task, haccepts, ⟨last, hqa ▸ hlast, hreach ⟨"s1", "Draft", "dev", []⟩ ?_⟩, hexecutable⟩
  rw [hplan]
  decide +kernel

end ProjectManager
