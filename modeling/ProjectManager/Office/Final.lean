import ProjectManager.Office.Schedule

/-!
# Finished steps

The workers never write a finished row, but the ticker decides on a snapshot: when a worker finishes
between the snapshot and the ticker's write, the row leaves `done` again (`race_reopens`).  In every run
where this does not happen a finished row stays finished (`finished_stays`).
-/

namespace ProjectManager

open Process

/-! ### The snapshot of the ticker -/

/-- The snapshots that a log shows. -/
def snapshots (log : OfficeLog) : List TeamTask :=
  log.flatMap fun
    | ⟨.store .listDispatchable, tasks⟩ => tasks
    | _ => []

theorem mem_snapshots {log : OfficeLog} {task : TeamTask} : task ∈ snapshots log ↔ Snap log task := by
  unfold snapshots Snap
  rw [List.mem_flatMap]
  constructor
  · rintro ⟨x, hx, htask⟩
    split at htask
    · rename_i tasks
      exact ⟨tasks, hx, htask⟩
    · cases htask
  · rintro ⟨tasks, hread, htask⟩
    exact ⟨_, hread, htask⟩

/-- The snapshot is still right about the rows that the ticker is about to write: a row that is done by
now is done in the snapshot. -/
def SnapshotCurrent (pool : OfficePool) (p : OfficeParty) (e : OfficeCall) : Prop :=
  p = .ticker → ∀ row ∈ pool.world.ledger.db.steps.rows, e.writes row = true → row.status = .done →
    ∀ q ∈ pool.procs, q.party = .ticker → ∀ task ∈ snapshots q.log, task.id = row.taskId →
      ∀ step ∈ task.steps, step.stepId = row.stepId → step.status = .done

instance (pool : OfficePool) (p : OfficeParty) (e : OfficeCall) : Decidable (SnapshotCurrent pool p e) :=
  inferInstanceAs (Decidable (p = .ticker → ∀ row ∈ pool.world.ledger.db.steps.rows, e.writes row = true →
    row.status = .done → ∀ q ∈ pool.procs, q.party = .ticker → ∀ task ∈ snapshots q.log, task.id = row.taskId →
      ∀ step ∈ task.steps, step.stepId = row.stepId → step.status = .done))

section Final

variable {cfg : OfficeConfig} {staffOk : List (String × String) → Prop} {pool pool' : OfficePool}
  {allows : OfficePool → OfficeParty → OfficeCall → Prop}

/-- A started row stays as it is in every step that does not write it. -/
theorem row_spared (hsha : Function.Injective cfg.rt.sha256) (hok : (officeSpec cfg hsha staffOk allows).PoolOk pool)
    (hstep : (officeSystem cfg staffOk allows).Step pool pool') {row : TeamStep}
    (hrow : row ∈ pool.world.ledger.db.steps.rows) (hstarted : row.status ≠ .pending)
    (hspared : ∀ q ∈ pool.procs, ∀ e, q.next = some e → allows pool q.party e → e.writes row = false) :
    ∃ row' ∈ pool'.world.ledger.db.steps.rows,
      row'.toStepIdent = row.toStepIdent ∧ row'.status = row.status ∧ row'.attemptId = row.attemptId := by
  cases hstep with
  | @run w before after p e k log hallowed =>
      have hmem : (⟨p, .call e k, log⟩ : Proc OfficeParty OfficeCall OfficeCall.Resp) ∈
          before ++ ⟨p, .call e k, log⟩ :: after := by simp
      exact Office.Inv.rowSpared hok.inv (pre_next hsha hok hmem rfl) hrow hstarted (hspared _ hmem e rfl hallowed)
  | start _ =>
      exact ⟨row, hrow, rfl, rfl, rfl⟩
  | leave =>
      exact ⟨row, hrow, rfl, rfl, rfl⟩
  | ext hchange =>
      cases hchange with
      | env env hstaff =>
          exact ⟨row, hrow, rfl, rfl, rfl⟩
      | time now =>
          exact ⟨row, hrow, rfl, rfl, rfl⟩
      | client o hclient hpre =>
          refine Office.Inv.rowSpared hok.inv (e := .store o) ?_ hrow hstarted (OfficeCall.spares_of_client hclient)
          rintro o' ho
          cases ho
          exact hpre

/-- A started row is never replaced: it stays what it is, and started. -/
theorem started_run (hsha : Function.Injective cfg.rt.sha256)
    (hreach : (officeSystem cfg staffOk allows).Reach (officeInit staffOk) pool)
    (hrun : (officeSystem cfg staffOk allows).Reach (fun q => q = pool) pool') {row : TeamStep}
    (hrow : row ∈ pool.world.ledger.db.steps.rows) (hstarted : row.status ≠ .pending) :
    ∃ row' ∈ pool'.world.ledger.db.steps.rows, row'.toStepIdent = row.toStepIdent ∧ row'.status ≠ .pending := by
  induction hrun with
  | init heq =>
      rw [heq]
      exact ⟨row, hrow, rfl, hstarted⟩
  | @step pool₁ pool₂ hpool hstep ih =>
      obtain ⟨row₁, hrow₁, hident₁, hstarted₁⟩ := ih
      have hok := officeOk hsha (hreach.trans hpool)
      rcases ledger_step hsha hok hstep with hsame | hmoved
      · rw [hsame]
        exact ⟨row₁, hrow₁, hident₁, hstarted₁⟩
      generalize pool₂.world.ledger = l' at hmoved
      cases hmoved with
      | time now =>
          exact ⟨row₁, hrow₁, hident₁, hstarted₁⟩
      | op o hpre =>
          have hinv : pool₁.world.Inv cfg staffOk := hok.inv
          obtain ⟨row₂, hrow₂, hident₂, hstarted₂⟩ := hinv.ledger.startedKept hpre hrow₁ hstarted₁
          exact ⟨row₂, hrow₂, hident₂.trans hident₁, hstarted₂⟩

/-- A ticker whose snapshot is current does not write a finished row. -/
theorem SnapshotCurrent.spares {e : OfficeCall} (h : SnapshotCurrent pool .ticker e)
    {q : Proc OfficeParty OfficeCall OfficeCall.Resp} (hq : q ∈ pool.procs) (hparty : q.party = .ticker) {k : ℕ}
    (hobeys : TickObeys k staffOk q.log e) {row : TeamStep} (hrow : row ∈ pool.world.ledger.db.steps.rows)
    (hdone : row.status = .done) : e.writes row = false := by
  by_contra hwrites
  have hwrites : e.writes row = true := by simpa using hwrites
  obtain ⟨task, step, hpicked, htask, hid⟩ := hobeys.picked_of_writes hwrites
  obtain ⟨hsnap, hstep, hnot⟩ := hpicked.chosen
  exact hnot (h rfl row hrow hwrites hdone q hq hparty task (mem_snapshots.2 hsnap) htask step hstep hid)

/-- One step of a run whose snapshots are current keeps a finished row finished. -/
theorem finished_step (hsha : Function.Injective cfg.rt.sha256)
    (hcurrent : ∀ pool p e, allows pool p e → SnapshotCurrent pool p e)
    (hok : (officeSpec cfg hsha staffOk allows).PoolOk pool)
    (hstep : (officeSystem cfg staffOk allows).Step pool pool') {row : TeamStep}
    (hrow : row ∈ pool.world.ledger.db.steps.rows) (hdone : row.status = .done) :
    ∃ row' ∈ pool'.world.ledger.db.steps.rows,
      row'.toStepIdent = row.toStepIdent ∧ row'.status = .done ∧ row'.attemptId = row.attemptId := by
  have hkept := row_spared hsha hok hstep hrow (by rw [hdone]; decide) fun q hq e hnext hallowed => ?_
  · obtain ⟨row', hrow', hident, hstatus, hattempt⟩ := hkept
    exact ⟨row', hrow', hident, hstatus.trans hdone, hattempt⟩
  obtain ⟨-, hlink, hobeys⟩ := hok.at_next hq hnext
  obtain ⟨party, prog, log⟩ := q
  cases party with
  | worker s =>
      exact WorkerLink.spares hlink hobeys hrow hdone
  | ticker =>
      exact (hcurrent pool .ticker e hallowed).spares hq rfl hobeys hrow hdone

/-- A finished row stays finished through every run whose snapshots are current. -/
theorem finished_run (hsha : Function.Injective cfg.rt.sha256)
    (hcurrent : ∀ pool p e, allows pool p e → SnapshotCurrent pool p e)
    (hreach : (officeSystem cfg staffOk allows).Reach (officeInit staffOk) pool)
    (hrun : (officeSystem cfg staffOk allows).Reach (fun q => q = pool) pool') {row : TeamStep}
    (hrow : row ∈ pool.world.ledger.db.steps.rows) (hdone : row.status = .done) :
    ∃ row' ∈ pool'.world.ledger.db.steps.rows,
      row'.toStepIdent = row.toStepIdent ∧ row'.status = .done ∧ row'.attemptId = row.attemptId := by
  induction hrun with
  | init heq =>
      rw [heq]
      exact ⟨row, hrow, rfl, hdone, rfl⟩
  | step hpool hstep ih =>
      obtain ⟨row₁, hrow₁, hident₁, hdone₁, hattempt₁⟩ := ih
      obtain ⟨row₂, hrow₂, hident₂, hdone₂, hattempt₂⟩ :=
        finished_step hsha hcurrent (officeOk hsha (hreach.trans hpool)) hstep hrow₁ hdone₁
      exact ⟨row₂, hrow₂, hident₂.trans hident₁, hdone₂, hattempt₂.trans hattempt₁⟩

/-- Finished is final, in every run in which no worker finishes a step between a tick's snapshot and the
tick's own write to that step. -/
theorem finished_stays (hsha : Function.Injective cfg.rt.sha256)
    (hreach : (officeSystem cfg staffOk SnapshotCurrent).Reach (officeInit staffOk) pool)
    (hrun : (officeSystem cfg staffOk SnapshotCurrent).Reach (fun q => q = pool) pool') {row : TeamStep}
    (hrow : row ∈ pool.world.ledger.db.steps.rows) (hdone : row.status = .done) :
    ∃ row' ∈ pool'.world.ledger.db.steps.rows,
      row'.toStepIdent = row.toStepIdent ∧ row'.status = .done ∧ row'.attemptId = row.attemptId :=
  finished_run hsha (fun _ _ _ h => h) hreach hrun hrow hdone

end Final

/-! ### The race -/

/-- A schedule whose snapshots are current. -/
def currentRun (acts : List OfficeAct) : OfficePool :=
  execAll sampleConfig anyStaff SnapshotCurrent (fun pool p e => decide (SnapshotCurrent pool p e)) acts oneStepPool

theorem reach_currentRun (acts : List OfficeAct) :
    (officeSystem sampleConfig anyStaff SnapshotCurrent).Reach (officeInit anyStaff) (currentRun acts) :=
  reach_exec (fun _ _ _ h => of_decide_eq_true h) acts (reach_confirmed Ledger.samplePlan trivial)

/-- In a run without the race the finished step stays finished through the tick that delivers the task. -/
theorem finished_stays_delivered :
    ∃ row ∈ (currentRun [.start, .call 0 100, .leave 0, .call 0 100]).world.ledger.db.steps.rows,
      row.status = .done ∧
        ∃ row' ∈ (currentRun [.start, .call 0 100, .leave 0, .call 0 100, .start, .call 1 100]).world.ledger.db.steps.rows,
          row'.toStepIdent = row.toStepIdent ∧ row'.status = .done ∧ row'.attemptId = row.attemptId := by
  obtain ⟨row, hrow, hdone⟩ : ∃ row ∈ (currentRun [.start, .call 0 100, .leave 0, .call 0 100]).world.ledger.db.steps.rows,
      row.status = .done := by decide +kernel
  refine ⟨row, hrow, hdone, finished_stays Function.injective_id (reach_currentRun _) ?_ hrow hdone⟩
  exact reach_exec (fun _ _ _ h => of_decide_eq_true h) [.start, .call 1 100] (.init rfl)

/-- The second tick has read its snapshot when the worker finishes and leaves. -/
def raceFinished : OfficePool :=
  sampleRun sampleConfig anyStaff [.start, .call 0 100, .leave 0, .start, .call 1 1, .call 0 100, .leave 0] oneStepPool

/-- The tick goes on: the process is dead, the snapshot shows no outcome, and the step is claimed again. -/
def raceReopened : OfficePool :=
  sampleRun sampleConfig anyStaff [.call 0 100] raceFinished

/-- Without the condition a finished step can be claimed again. -/
theorem race_reopens :
    ¬ ∀ pool pool', (officeSystem sampleConfig anyStaff anyCall).Reach (officeInit anyStaff) pool →
      (officeSystem sampleConfig anyStaff anyCall).Reach (fun q => q = pool) pool' →
      ∀ row ∈ pool.world.ledger.db.steps.rows, row.status = .done →
        ∃ row' ∈ pool'.world.ledger.db.steps.rows, row'.toStepIdent = row.toStepIdent ∧ row'.status = .done := by
  intro hclaim
  have hreach : (officeSystem sampleConfig anyStaff anyCall).Reach (officeInit anyStaff) raceFinished :=
    reach_sampleRun _ (reach_confirmed Ledger.samplePlan trivial)
  have hrun : (officeSystem sampleConfig anyStaff anyCall).Reach (fun q => q = raceFinished) raceReopened :=
    reach_sampleRun _ (.init rfl)
  obtain ⟨row, hrow, hdone⟩ : ∃ row ∈ raceFinished.world.ledger.db.steps.rows, row.status = .done := by
    decide +kernel
  obtain ⟨row', hrow', -, hdone'⟩ := hclaim _ _ hreach hrun row hrow hdone
  have hnone : ∀ row ∈ raceReopened.world.ledger.db.steps.rows, row.status ≠ .done := by decide +kernel
  exact hnone row' hrow' hdone'

end ProjectManager
