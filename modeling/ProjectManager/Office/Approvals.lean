import ProjectManager.Actions.Gateway
import ProjectManager.Office.Final
import ProjectManager.Office.Snapshots

/-!
# Steps that wait for an approval

A worker whose external write was queued pauses its step, but it does not record under which id the write
was queued.  So no row ever names an approval, and a tick never gets to `_approval_status`: whatever the
approval stores say, a tick that finds the step paused neither starts it again nor fails it
(`paused_resumes_iff`).
-/

namespace ProjectManager

open Process

/-! ### The approval stores -/

/-- The rows of an agent's `approvals.db`. -/
abbrev ApprovalTable :=
  Table.Auto PendingApproval ℕ (fun r => r.id) (fun r => r.id)

/-- A status as the ticker reads it. -/
def ApprovalStatus.decision : ApprovalStatus → Decision
  | .pending => .pending
  | .approved => .approved
  | .rejected => .rejected

/-- `_approval_status`: the stores in the order of the registry, the first one that knows the id. -/
def approvalStatus (registry : List String) (stores : String → ApprovalTable) (approvalId : ℕ) : Option Decision :=
  registry.findSome? fun agent => ((stores agent).find? approvalId).map fun row => row.status.decision

/-- The tick has started the step. -/
def Starts (log : OfficeLog) (task : TeamTask) (step : TeamStep) : Prop :=
  ∃ s pid, log.Has (.spawnStep s) pid ∧ s.taskId = task.id ∧ s.stepId = step.stepId

/-- The tick has failed the step. -/
def Fails (log : OfficeLog) (task : TeamTask) (step : TeamStep) : Prop :=
  ∃ x attemptId written, log.Has (.store (.setStepStatus task.id step.stepId .failed x attemptId)) written

/-- What a tick should do with a step that is paused on an approval of this status. -/
def Resumes (log : OfficeLog) (task : TeamTask) (step : TeamStep) : ApprovalStatus → Prop
  | .pending => ¬ Starts log task step ∧ ¬ Fails log task step
  | .approved => Starts log task step ∧ ¬ Fails log task step
  | .rejected => Fails log task step ∧ ¬ Starts log task step

/-- A tick neither starts nor fails a step that it has found paused. -/
theorem SnapLink.left_paused {log : OfficeLog} {task : TeamTask} {step : TeamStep} (h : SnapLink log)
    (hsnap : Snap log task) (hstep : step ∈ task.steps) (hpaused : step.status = .awaitingApproval) :
    ¬ Starts log task step ∧ ¬ Fails log task step := by
  have hspared := h.paused task hsnap step hstep hpaused
  constructor
  · rintro ⟨s, pid, hspawn, htask, hid⟩
    have hfalse := hspared _ hspawn
    simp [OfficeCall.acts, htask, hid] at hfalse
  · rintro ⟨x, attemptId, written, hfail⟩
    have hfalse := hspared _ hfail
    simp [OfficeCall.acts] at hfalse

/-- In every run and at every point of a tick: a tick does with a step that it finds paused what it should
exactly as long as the approval is undecided, when it should leave the step alone. -/
theorem paused_resumes_iff {cfg : OfficeConfig} {staffOk : List (String × String) → Prop} {pool : OfficePool}
    (hsha : Function.Injective cfg.rt.sha256)
    (hreach : (officeSystem cfg staffOk anyCall).Reach (officeInit staffOk) pool)
    {q : Proc OfficeParty OfficeCall OfficeCall.Resp} (hq : q ∈ pool.procs) (hparty : q.party = .ticker)
    {task : TeamTask} (hsnap : Snap q.log task) {step : TeamStep} (hstep : step ∈ task.steps)
    (hpaused : step.status = .awaitingApproval) (status : ApprovalStatus) :
    Resumes q.log task step status ↔ status = .pending := by
  obtain ⟨hstarts, hfails⟩ := ((snapOk hsha hreach).2 q hq hparty).left_paused hsnap hstep hpaused
  constructor
  · intro hresumes
    cases status with
    | pending =>
        rfl
    | approved =>
        exact absurd hresumes.1 hstarts
    | rejected =>
        exact absurd hresumes.1 hfails
  · rintro rfl
    exact ⟨hstarts, hfails⟩

/-! ### An approval that is given -/

/-- The store of an agent with one queued write. -/
def queuedTable (status : ApprovalStatus) : ApprovalTable where
  rows := [⟨1, [], "", status, ""⟩]
  last := 1
  sorted := List.pairwise_singleton _ _
  le_last := by simp
  nodup := by simp

/-- The write of `dev` was queued, and nobody else's. -/
def sampleStores (status : ApprovalStatus) : String → ApprovalTable
  | "dev" => queuedTable status
  | _ => .empty

example : approvalStatus ["qa", "dev"] (sampleStores .approved) 1 = some .approved := by decide

/-- Every external write is queued. -/
def gatedEnv (status : ApprovalStatus) : (q : Query) → q.Resp
  | .externalWrite .. => .ok false
  | .approvalStatus id => approvalStatus ["qa", "dev"] (sampleStores status) id
  | q => sampleEnv "pass" q

/-- The step graph of every agent has an external write. -/
def gatedConfig : OfficeConfig :=
  { sampleConfig with external := fun _ => true }

/-- A tick starts the worker, and the worker pauses its step. -/
def queuedPool : OfficePool :=
  sampleRun gatedConfig anyStaff [.start, .call 0 100, .leave 0, .call 0 100, .leave 0]
    ⟨.holding (gatedEnv .pending) (.confirmed gatedConfig.rt Ledger.samplePlan), []⟩

/-- The write is approved, and the next tick runs to its end. -/
def pausedPool : OfficePool :=
  sampleRun gatedConfig anyStaff [.start, .call 0 100]
    ⟨{ queuedPool.world with env := gatedEnv .approved }, queuedPool.procs⟩

theorem pausedPool_reach : (officeSystem gatedConfig anyStaff anyCall).Reach (officeInit anyStaff) pausedPool := by
  have hqueued : (officeSystem gatedConfig anyStaff anyCall).Reach (officeInit anyStaff) queuedPool :=
    reach_sampleRun _ (reach_confirmed Ledger.samplePlan trivial)
  exact reach_sampleRun _ (hqueued.step (.ext (.env (gatedEnv .approved) trivial)))

/-- The last tick is over, and it has found the step of `dev` paused. -/
theorem pausedPool_tick : ∃ q ∈ pausedPool.procs, q.party = .ticker ∧ q.next = none ∧
    ∃ task ∈ snapshots q.log, ∃ step ∈ task.steps, step.status = .awaitingApproval ∧ step.assignedTo = "dev" := by
  decide +kernel

/-- The write was approved, and the tick has not started the step. -/
theorem paused_resumes_iff_approved : ∃ q ∈ pausedPool.procs, q.party = .ticker ∧ q.next = none ∧
    ∃ task step, Snap q.log task ∧ step ∈ task.steps ∧ step.status = .awaitingApproval ∧
      (Resumes q.log task step .approved ↔ ApprovalStatus.approved = .pending) := by
  obtain ⟨q, hq, hparty, hended, task, htask, step, hstep, hpaused, -⟩ := pausedPool_tick
  have hsnap := mem_snapshots.1 htask
  exact ⟨q, hq, hparty, hended, task, step, hsnap, hstep, hpaused,
    paused_resumes_iff Function.injective_id pausedPool_reach hq hparty hsnap hstep hpaused .approved⟩

/-- The write of the step was approved, and the tick has left the step alone. -/
theorem approved_step_stays_paused :
    ¬ ∀ pool registry (stores : String → ApprovalTable),
      (officeSystem gatedConfig anyStaff anyCall).Reach (officeInit anyStaff) pool →
      (∀ id, pool.world.env (.approvalStatus id) = approvalStatus registry stores id) →
      ∀ q ∈ pool.procs, q.party = .ticker → q.next = none → ∀ task, Snap q.log task → ∀ step ∈ task.steps,
        step.status = .awaitingApproval → ∀ i row, (stores step.assignedTo).find? i = some row →
          Resumes q.log task step row.status := by
  intro hclaim
  obtain ⟨q, hq, hparty, hended, task, htask, step, hstep, hpaused, hdev⟩ := pausedPool_tick
  have hanswers : ∀ id, pausedPool.world.env (.approvalStatus id) = approvalStatus ["qa", "dev"]
      (sampleStores .approved) id := by
    intro id
    rw [pausedPool, sampleRun, env_execAll]
    rfl
  have hsnap := mem_snapshots.1 htask
  have hresumes := hclaim pausedPool ["qa", "dev"] (sampleStores .approved) pausedPool_reach hanswers q hq hparty
    hended task hsnap step hstep hpaused 1 ⟨1, [], "", .approved, ""⟩ (by rw [hdev]; rfl)
  exact (((snapOk Function.injective_id pausedPool_reach).2 q hq hparty).left_paused hsnap hstep hpaused).1 hresumes.1

end ProjectManager
