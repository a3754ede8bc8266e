import ProjectManager.Office.Final
import ProjectManager.Office.Slots
import ProjectManager.Office.Steady

/-!
# What a tick spawns

A tick claims a step by its id, long after it has read the snapshot.  An amendment that is confirmed in
between may delete the row or put another one under its id; then `reserve_step` raises, or the spawned
process works on another step than the row says (`amendment_breaks_tick`).  In every run in which the rows
that the ticker claims are still those of its snapshot, a tick does not raise and each spawn concerns the
row that was claimed for it (`spawn_of_claimed_row`).
-/

namespace ProjectManager

open Process

/-! ### Steps in their order -/

/-- The step is done. -/
def Ledger.StepDone (l : Ledger) (taskId stepId : String) : Prop :=
  ∃ row ∈ l.db.steps.rows, row.taskId = taskId ∧ row.stepId = stepId ∧ row.status = .done

/-- All that the row waits for is done. -/
def Ledger.DepsDone (l : Ledger) (row : TeamStep) : Prop :=
  ∀ dep ∈ row.deps, l.StepDone row.taskId dep

/-- A row that was ever claimed has all that it waits for. -/
structure Ledger.InOrder (l : Ledger) : Prop where
  waited : ∀ row ∈ l.db.steps.rows, row.attemptId ≠ none → l.DepsDone row
  leased : ∀ row ∈ l.db.steps.rows, row.status = .running → row.attemptId ≠ none

/-- What the ticker's snapshot still says of the store. -/
structure OrderLink (log : OfficeLog) (l : Ledger) : Prop where
  done : ∀ task, Snap log task → ∀ step ∈ task.steps, step.status = .done → l.StepDone task.id step.stepId
  claimed : ∀ task, Snap log task → ∀ step ∈ task.steps, step.status = .running →
    ∃ row ∈ l.db.steps.rows, row.taskId = task.id ∧ row.stepId = step.stepId ∧ row.attemptId ≠ none

/-! ### Snapshots that hold -/

/-- The row waits, runs, or waits for an approval. -/
def StepStatus.claimable : StepStatus → Bool
  | .pending => true
  | .running => true
  | .awaitingApproval => true
  | _ => false

/-- The key of the step that a call claims. -/
def OfficeCall.claimedKey : OfficeCall → Option (String × String)
  | .store (.reserveStep taskId stepId) => some (taskId, stepId)
  | _ => none

/-- The key of the step that a call mints. -/
def OfficeCall.mintedKey : OfficeCall → Option (String × String)
  | .store (.insertStep taskId d) => some (taskId, d.stepId)
  | _ => none

/-- Wherever the snapshot shows the id of the row, it shows the same step. -/
def ShownAs (pool : OfficePool) (row : TeamStep) : Prop :=
  ∀ q ∈ pool.procs, q.party = .ticker → ∀ task ∈ snapshots q.log, task.id = row.taskId →
    ∀ step ∈ task.steps, step.stepId = row.stepId → step.toStepFields = row.toStepFields

instance (pool : OfficePool) (row : TeamStep) : Decidable (ShownAs pool row) :=
  inferInstanceAs (Decidable (∀ q ∈ pool.procs, q.party = .ticker → ∀ task ∈ snapshots q.log, task.id = row.taskId →
    ∀ step ∈ task.steps, step.stepId = row.stepId → step.toStepFields = row.toStepFields))

/-- The snapshot still holds for what the ticker is about to write: no finished row is overwritten, the row to
claim is there, unfinished and the step of the snapshot, and the id to mint is free. -/
def SnapshotHolds (pool : OfficePool) (p : OfficeParty) (e : OfficeCall) : Prop :=
  SnapshotCurrent pool p e ∧ (p = .ticker →
    (∀ key ∈ e.claimedKey, ∃ row ∈ pool.world.ledger.db.steps.rows,
      row.key = key ∧ row.status.claimable = true ∧ ShownAs pool row) ∧
    ∀ key ∈ e.mintedKey, ∀ row ∈ pool.world.ledger.db.steps.rows, row.key ≠ key)

instance (pool : OfficePool) (p : OfficeParty) (e : OfficeCall) : Decidable (SnapshotHolds pool p e) :=
  inferInstanceAs (Decidable (SnapshotCurrent pool p e ∧ (p = .ticker →
    (∀ key ∈ e.claimedKey, ∃ row ∈ pool.world.ledger.db.steps.rows,
      row.key = key ∧ row.status.claimable = true ∧ ShownAs pool row) ∧
    ∀ key ∈ e.mintedKey, ∀ row ∈ pool.world.ledger.db.steps.rows, row.key ≠ key)))

section Spawns

variable {cfg : OfficeConfig} {staffOk : List (String × String) → Prop} {log : OfficeLog} {e : OfficeCall} {l : Ledger}
  {w : Office} {pool : OfficePool} {task : TeamTask} {step : TeamStep}

/-! ### The order is kept -/

/-- A finished step stays finished when no finished row is written. -/
theorem Ledger.StepDone.handle (hinv : w.Inv cfg staffOk) (hpre : ∀ o, e = .store o → o.Pre cfg.rt w.ledger)
    (hspared : ∀ row ∈ w.ledger.db.steps.rows, row.status = .done → e.writes row = false) {taskId stepId : String}
    (h : w.ledger.StepDone taskId stepId) : (e.handle cfg.rt w).2.ledger.StepDone taskId stepId := by
  obtain ⟨row, hrow, htask, hid, hdone⟩ := h
  obtain ⟨row', hrow', hident, hstatus, -⟩ :=
    hinv.rowSpared hpre hrow (by rw [hdone]; decide) (hspared row hrow hdone)
  refine ⟨row', hrow', ?_, ?_, hstatus.trans hdone⟩
  · rw [congrArg StepIdent.taskId hident, htask]
  · rw [congrArg (fun i : StepIdent => i.stepId) hident, hid]

/-- A row that was ever claimed is still there, and was claimed. -/
theorem Ledger.Inv.claimedKept {rt : Runtime} (h : l.Inv rt) {o : StoreOp} (hpre : o.Pre rt l) {row : TeamStep}
    (hrow : row ∈ l.db.steps.rows) (hclaimed : row.attemptId ≠ none) : ∃ row' ∈ (o.run rt l).2.db.steps.rows,
      row'.toStepIdent = row.toStepIdent ∧ row'.attemptId ≠ none := by
  have hstarted : row.status ≠ .pending := fun hpending => hclaimed (h.tables.unstarted row hrow hpending)
  obtain ⟨row', hrow', hident, hmoves⟩ := h.rowKept hpre hrow hstarted
  refine ⟨row', hrow', hident, ?_⟩
  rcases hmoves with ⟨-, hattempt⟩ | ⟨_, _, -, -, -, -, hattempt⟩ | ⟨_, _, _, _, _, -, -, -, hattempt⟩
  · rwa [hattempt]
  · simp [hattempt]
  · rwa [hattempt]

/-- Rows stay in order when only rows with all that they wait for are claimed. -/
theorem Ledger.InOrder.op (h : w.ledger.InOrder) (hinv : w.Inv cfg staffOk) {o : StoreOp} (hpre : o.Pre cfg.rt w.ledger)
    (hspared : ∀ row ∈ w.ledger.db.steps.rows, row.status = .done → (OfficeCall.store o).writes row = false)
    (hclaim : ∀ taskId stepId, o = .reserveStep taskId stepId → ∀ row ∈ w.ledger.db.steps.rows, row.taskId = taskId →
      row.stepId = stepId → w.ledger.DepsDone row)
    (hidle : ∀ taskId stepId status x attemptId, o = .setStepStatus taskId stepId status x attemptId →
      status ≠ .running) : (o.run cfg.rt w.ledger).2.InOrder := by
  have hpre' : ∀ o', OfficeCall.store o = .store o' → o'.Pre cfg.rt w.ledger := by
    rintro o' ho
    cases ho
    exact hpre
  have hkept : ∀ row row' : TeamStep, row'.toStepIdent = row.toStepIdent → w.ledger.DepsDone row →
      (o.run cfg.rt w.ledger).2.DepsDone row' := by
    intro row row' hident hdeps dep hdep
    rw [congrArg StepIdent.taskId hident]
    rw [congrArg (fun i : StepIdent => i.deps) hident] at hdep
    exact (hdeps dep hdep).handle hinv hpre' hspared
  constructor
  · intro row' hrow' hclaimed
    rcases hinv.ledger.rowOrigin hpre hrow' with ⟨row, hrow, hident, hmoves⟩ | ⟨-, hnone⟩
    · refine hkept row row' hident ?_
      rcases hmoves with ⟨-, hattempt⟩ | ⟨taskId, stepId, ho, htask, hid, -⟩ | ⟨_, _, _, _, _, -, -, -, hattempt⟩
      · exact h.waited row hrow (hattempt ▸ hclaimed)
      · exact hclaim taskId stepId ho row hrow htask hid
      · exact h.waited row hrow (hattempt ▸ hclaimed)
    · exact absurd hnone hclaimed
  · intro row' hrow' hrunning
    rcases hinv.ledger.rowOrigin hpre hrow' with ⟨row, hrow, -, hmoves⟩ | ⟨hpending, -⟩
    · rcases hmoves with ⟨hstatus, hattempt⟩ | ⟨_, _, -, -, -, -, hattempt⟩ | ⟨t, i, status, x, a, ho, -, hwritten, -⟩
      · rw [hattempt]
        exact h.leased row hrow (hstatus ▸ hrunning)
      · simp [hattempt]
      · exact absurd (hwritten ▸ hrunning) (hidle t i status x a ho)
    · rw [hrunning] at hpending
      cases hpending

/-- What the snapshot says stays true when no finished row is written. -/
theorem OrderLink.handle (h : OrderLink log w.ledger) (hinv : w.Inv cfg staffOk)
    (hpre : ∀ o, e = .store o → o.Pre cfg.rt w.ledger)
    (hspared : ∀ row ∈ w.ledger.db.steps.rows, row.status = .done → e.writes row = false) :
    OrderLink log (e.handle cfg.rt w).2.ledger := by
  constructor
  · exact fun task hsnap step hstep hdone => (h.done task hsnap step hstep hdone).handle hinv hpre hspared
  · intro task hsnap step hstep hrunning
    obtain ⟨row, hrow, htask, hid, hclaimed⟩ := h.claimed task hsnap step hstep hrunning
    by_cases hstore : ∃ o, e = .store o
    · obtain ⟨o, rfl⟩ := hstore
      obtain ⟨row', hrow', hident, hclaimed'⟩ := hinv.ledger.claimedKept (hpre o rfl) hrow hclaimed
      refine ⟨row', hrow', ?_, ?_, hclaimed'⟩
      · rw [congrArg StepIdent.taskId hident, htask]
      · rw [congrArg (fun i : StepIdent => i.stepId) hident, hid]
    · push Not at hstore
      rw [ledger_handle hstore]
      exact ⟨row, hrow, htask, hid, hclaimed⟩

/-- What a snapshot says when it is taken. -/
theorem OrderLink.listed (h : l.InOrder) (htask : task ∈ l.db.listDispatchable) :
    (∀ step ∈ task.steps, step.status = .done → l.StepDone task.id step.stepId) ∧
      ∀ step ∈ task.steps, step.status = .running → ∃ row ∈ l.db.steps.rows,
        row.taskId = task.id ∧ row.stepId = step.stepId ∧ row.attemptId ≠ none := by
  obtain ⟨-, -, hsteps⟩ := Db.get_eq_some.1 (Db.mem_listDispatchable.1 htask).1
  rw [hsteps]
  constructor
  · intro step hstep hdone
    obtain ⟨hrow, hid⟩ := Db.mem_stepsForTask.1 hstep
    exact ⟨step, hrow, hid, rfl, hdone⟩
  · intro step hstep hrunning
    obtain ⟨hrow, hid⟩ := Db.mem_stepsForTask.1 hstep
    exact ⟨step, hrow, hid, rfl, h.leased step hrow hrunning⟩

/-! ### The row that is claimed -/

/-- The row that the ticker is about to claim is the step that it has picked. -/
theorem SnapshotHolds.row (h : SnapshotHolds pool .ticker (.store (.reserveStep task.id step.stepId)))
    {q : Proc OfficeParty OfficeCall OfficeCall.Resp} (hq : q ∈ pool.procs) (hparty : q.party = .ticker)
    (hsnap : Snap q.log task) (hstep : step ∈ task.steps) : ∃ row ∈ pool.world.ledger.db.steps.rows,
      row.taskId = task.id ∧ row.stepId = step.stepId ∧ row.status.claimable = true ∧
        row.toStepFields = step.toStepFields := by
  obtain ⟨row, hrow, hkey, hclaimable, hshown⟩ := (h.2 rfl).1 (task.id, step.stepId) rfl
  have htask : row.taskId = task.id := congrArg Prod.fst hkey
  have hid : row.stepId = step.stepId := congrArg Prod.snd hkey
  exact ⟨row, hrow, htask, hid, hclaimable,
    (hshown q hq hparty task (mem_snapshots.2 hsnap) htask.symm step hstep hid.symm).symm⟩

/-- The row that the ticker claims has all that it waits for. -/
theorem Claim.depsDone {k : ℕ} (h : Claim k log task step) (hsnaps : SnapLink log) (hinorder : l.InOrder)
    (hlink : OrderLink log l) {row : TeamStep} (hrow : row ∈ l.db.steps.rows) (htask : row.taskId = task.id)
    (hid : row.stepId = step.stepId) (hfields : row.toStepFields = step.toStepFields) : l.DepsDone row := by
  obtain ⟨hsnap, hstep, -⟩ := h.picked.chosen
  by_cases hpending : step.status = .pending
  · intro dep hdep
    rw [htask]
    rw [congrArg StepFields.deps hfields] at hdep
    have hready := h.picked.ready hpending
    simp only [readyPendingSteps, List.mem_filter, Bool.and_eq_true, List.all_eq_true, decide_eq_true_eq] at hready
    obtain ⟨d, hd, rfl⟩ := List.mem_map.1 (hready.2.2 dep hdep)
    obtain ⟨hd, hdone⟩ := List.mem_filter.1 hd
    exact hlink.done task hsnap d hd (of_decide_eq_true hdone)
  · rcases h.resumed hpending with hrunning | ⟨-, id, hgated, -⟩
    · obtain ⟨row', hrow', htask', hid', hclaimed⟩ := hlink.claimed task hsnap step hstep hrunning
      obtain rfl := Db.step_unique hrow hrow' (htask.trans htask'.symm) (hid.trans hid'.symm)
      exact hinorder.waited row hrow hclaimed
    · rw [hsnaps.ungated task hsnap step hstep] at hgated
      cases hgated

/-! ### In every run -/

variable (cfg staffOk)

/-- Rows in order, and what the snapshot says of them. -/
def orderWatch (K : OfficePool → Prop)
    (hK : ∀ pool, K pool → ∀ q ∈ pool.procs, q.party = .ticker → SnapLink q.log) :
    Watch cfg staffOk SnapshotHolds K where
  Inv := Ledger.InOrder
  Link := OrderLink
  own := by
    intro pool log e turn hinorder hlink
    obtain ⟨q, hq, hparty, rfl, -⟩ := turn.present
    have hspared : ∀ row ∈ pool.world.ledger.db.steps.rows, row.status = .done → e.writes row = false :=
      fun row hrow hdone => turn.allowed.1.spares hq hparty turn.obeys hrow hdone
    constructor
    · by_cases hstore : ∃ o, e = .store o
      · obtain ⟨o, rfl⟩ := hstore
        refine hinorder.op turn.inv (turn.pre o rfl) hspared ?_ ?_
        · rintro taskId stepId rfl row hrow htask hid
          obtain ⟨task, step, hclaim, rfl, rfl⟩ := turn.obeys
          obtain ⟨hsnap, hstep, -⟩ := hclaim.picked.chosen
          obtain ⟨row', hrow', htask', hid', -, hfields⟩ := turn.allowed.row hq hparty hsnap hstep
          obtain rfl := Db.step_unique hrow hrow' (htask.trans htask'.symm) (hid.trans hid'.symm)
          exact hclaim.depsDone (hK pool turn.known q hq hparty) hinorder hlink hrow htask hid hfields
        · rintro taskId stepId status x attemptId rfl
          obtain ⟨rfl | rfl, -⟩ := turn.obeys <;> decide
      · push Not at hstore
        rw [ledger_handle hstore]
        exact hinorder
    · have hkept := hlink.handle turn.inv turn.pre hspared
      by_cases hlist : e = .store .listDispatchable
      · subst hlist
        have hsnaps : ∀ task, Snap (q.log ++ [⟨.store .listDispatchable, pool.world.ledger.db.listDispatchable⟩]) task →
            task ∈ pool.world.ledger.db.listDispatchable := by
          intro task hsnap
          rcases hsnap.of_append with ⟨_, hread, -⟩ | ⟨tasks, htask, -, htasks⟩
          · have hnil : q.log = [] := turn.obeys
            rw [hnil] at hread
            cases hread
          · rw [eq_of_heq htasks]
            exact htask
        exact ⟨fun task hsnap => (OrderLink.listed hinorder (hsnaps task hsnap)).1,
          fun task hsnap => (OrderLink.listed hinorder (hsnaps task hsnap)).2⟩
      · have hsnaps : ∀ task, Snap (q.log ++ [⟨e, (e.handle cfg.rt pool.world).1⟩]) task → Snap q.log task := by
          intro task hsnap
          rcases hsnap.of_append with hsnap | ⟨_, -, heq, -⟩
          · exact hsnap
          · exact absurd heq hlist
        exact ⟨fun task hsnap => hkept.done task (hsnaps task hsnap),
          fun task hsnap => hkept.claimed task (hsnaps task hsnap)⟩
  others := by
    intro w o hinv helse hpre hinorder
    have hspared : ∀ row ∈ w.ledger.db.steps.rows, row.status = .done → (OfficeCall.store o).writes row = false := by
      intro row hrow hdone
      cases helse with
      | worker hlink hobeys =>
          exact hlink.spares hobeys hrow hdone
      | client hclient =>
          exact OfficeCall.spares_of_client hclient
    refine ⟨hinorder.op hinv hpre hspared ?_ fun _ _ _ _ _ ho => helse.idle ho, fun log _ hlink => ?_⟩
    · exact fun taskId stepId ho => absurd ho (helse.claims_none taskId stepId)
    · refine hlink.handle (e := .store o) hinv ?_ hspared
      rintro o' ho
      cases ho
      exact hpre
  time := fun _ hinorder => ⟨⟨hinorder.waited, hinorder.leased⟩, fun _ hlink => ⟨hlink.done, hlink.claimed⟩⟩
  start := by
    intro l _
    have hnone : ∀ task, ¬ Snap [] task := by
      rintro task ⟨tasks, hread, -⟩
      cases hread
    exact ⟨fun task hsnap => absurd hsnap (hnone task), fun task hsnap => absurd hsnap (hnone task)⟩
  empty := by
    intro now
    constructor <;> intro row hrow <;> cases hrow

variable {cfg staffOk}

/-- In every run in which the snapshots hold, only rows that have all they wait for are ever claimed. -/
theorem orderOk (hsha : Function.Injective cfg.rt.sha256)
    (h : (officeSystem cfg staffOk SnapshotHolds).Reach (officeInit staffOk) pool) :
    pool.world.ledger.InOrder ∧ ∀ q ∈ pool.procs, q.party = .ticker → OrderLink q.log pool.world.ledger :=
  Watch.ok_of_reach (V := orderWatch cfg staffOk
    (fun pool => (officeSpec cfg hsha staffOk SnapshotHolds).PoolOk pool ∧
      ∀ q ∈ pool.procs, q.party = .ticker → SnapLink q.log) fun _ h => h.2)
    hsha (fun _ h => h.1) (fun _ h => ⟨officeOk hsha h, (snapOk hsha h).2⟩) h

/-- What is answered to a ticker whose snapshot holds raises nothing. -/
theorem SnapshotHolds.accepting (h : SnapshotHolds pool .ticker e) :
    Accepting e (e.handle cfg.rt pool.world).1 := by
  cases e with
  | store o =>
      cases o with
      | reserveStep taskId stepId =>
          obtain ⟨row, hrow, hkey, -⟩ := (h.2 rfl).1 (taskId, stepId) rfl
          have hget : pool.world.ledger.db.getStep taskId stepId = some row :=
            Db.getStep_eq_some.2 ⟨hrow, congrArg Prod.fst hkey, congrArg Prod.snd hkey⟩
          refine ⟨pool.world.ledger.nextAttempt, ?_⟩
          simp only [OfficeCall.handle, StoreOp.run, hget]
      | insertStep taskId d =>
          have hfree := (h.2 rfl).2 (taskId, d.stepId) rfl
          show (StoreOp.checked pool.world.ledger (pool.world.ledger.db.insertStep taskId d)).1 = .ok ()
          cases hinsert : pool.world.ledger.db.insertStep taskId d with
          | ok db =>
              rfl
          | error msg =>
              obtain ⟨row, hrow, htask, hid⟩ := Db.insertStep_taken.1 ⟨msg, hinsert⟩
              exact absurd (Prod.ext htask hid) (hfree row hrow)
      | _ =>
          exact trivial
  | _ =>
      exact trivial

/-- The answers on which a process does not raise; the workers may. -/
def AcceptingOf : OfficeParty → (e : OfficeCall) → e.Resp → Prop
  | .ticker => Accepting
  | .worker _ => fun _ _ => True

/-- A tick does not raise in a run in which the snapshots hold. -/
theorem tick_raises_nothing (h : (officeSystem cfg staffOk SnapshotHolds).Reach (officeInit staffOk) pool)
    {q : Proc OfficeParty OfficeCall OfficeCall.Resp} (hq : q ∈ pool.procs) (hparty : q.party = .ticker) :
    q.prog.raised = none := by
  have hfollows := System.Reach.follows (A := AcceptingOf) (P := fun _ _ _ => True) (Q := fun _ _ _ => True)
    (X := fun p _ _ => p ≠ .ticker) ?_ ?_ ?_ ?_ h q hq
  · rw [hparty] at hfollows
    exact Prog.raised_eq_none (hfollows.mono (fun _ _ h => h) fun _ _ hne => hne rfl)
  · rintro _ ⟨now, env, -, rfl⟩
    rfl
  · rintro pool p prog ⟨rfl, rfl, -⟩
    exact ((steady_tickerProg cfg).follows []).mono (fun _ _ h => h) fun _ _ h => absurd h id
  · intro e p prog hfork
    cases e with
    | spawnStep s =>
        cases hfork
        exact (Prog.Follows.free _ _).mono (fun _ _ h => h) fun _ _ _ => nofun
    | _ =>
        cases hfork
  · intro pool _ q _ e _ hallowed
    obtain ⟨party, prog, log⟩ := q
    cases party with
    | ticker =>
        exact SnapshotHolds.accepting hallowed
    | worker s =>
        exact trivial

/-! ### The spawn -/

/-- What a spawn of the step rests on: at the moment of the claim the row was the step that is spawned, could
be claimed and had all that it waits for, and its assignee was on the roster. -/
structure Rests (l : Ledger) (log : OfficeLog) (s : Spawn) (step : TeamStep) : Prop where
  row : ∃ row ∈ l.db.steps.rows, row.taskId = s.taskId ∧ row.stepId = s.stepId ∧ row.assignedTo = s.agent ∧
    row.title = step.title ∧ row.status.claimable = true ∧ l.DepsDone row
  roster : ∃ staff : List (String × String), log.Has (.ask .assignableStaff) staff ∧ s.agent ∈ staff.map Prod.fst

/-- The spawn is grounded: in the step of the run in which the ticker claimed its step, it rested on the step
that the snapshot shows under that id. -/
def Grounded (cfg : OfficeConfig) (staffOk : List (String × String) → Prop)
    (allows : OfficePool → OfficeParty → OfficeCall → Prop) (pool : OfficePool) (log : OfficeLog) (s : Spawn) : Prop :=
  ∃ task step before pool₀ pool₁, Snap log task ∧ step ∈ task.steps ∧ s.taskId = task.id ∧ s.stepId = step.stepId ∧
    System.Moment (officeSystem cfg staffOk allows) (officeInit staffOk) pool .ticker before
      (.store (.reserveStep s.taskId s.stepId)) (.ok s.attemptId) pool₀ pool₁ ∧
    Rests pool₀.world.ledger before s step

/-- In every run in which the snapshots hold: a tick does not raise, and each of its spawns is grounded. -/
theorem spawn_of_claimed_row (hsha : Function.Injective cfg.rt.sha256)
    (hreach : (officeSystem cfg staffOk SnapshotHolds).Reach (officeInit staffOk) pool)
    {q : Proc OfficeParty OfficeCall OfficeCall.Resp} (hq : q ∈ pool.procs) (hparty : q.party = .ticker) :
    q.prog.raised = none ∧
      ∀ s, q.next = some (.spawnStep s) → Grounded cfg staffOk SnapshotHolds pool q.log s := by
  refine ⟨tick_raises_nothing hreach hq hparty, fun s hnext => ?_⟩
  obtain ⟨-, -, hobeys⟩ := (officeOk hsha hreach).at_next hq hnext
  rw [hparty] at hobeys
  obtain ⟨task, step, hlaunch⟩ := hobeys
  obtain ⟨hsnap, hstep, -⟩ := hlaunch.chosen
  obtain ⟨before, hlog⟩ := hlaunch.leased
  have hinit : ∀ pool, officeInit staffOk pool → pool.procs = [] := by
    rintro _ ⟨now, env, -, rfl⟩
    rfl
  obtain ⟨pool₀, pool₁, hmoment⟩ := hreach.asked hinit hq hlog
  rw [hparty] at hmoment
  obtain ⟨⟨q₀, hq₀, hparty₀, hlog₀, hnext₀⟩, hallowed⟩ := hmoment.takes.next
  -- at that moment the ticker was about to claim the step
  obtain ⟨-, -, hobeys₀⟩ := (officeOk hsha hmoment.reach).at_next hq₀ hnext₀
  rw [hparty₀, hlog₀] at hobeys₀
  obtain ⟨task', step', hclaim, htask', hid'⟩ := id hobeys₀
  obtain ⟨hsnap', hstep', -⟩ := hclaim.picked.chosen
  have hbefore : before <+: q.log := by
    rw [hlog]
    exact List.prefix_append _ _
  obtain ⟨rfl, rfl⟩ := ((snapOk hsha hreach).2 q hq hparty).same (hsnap'.mono hbefore) hsnap hstep' hstep htask' hid'
  have hsnaps₀ := (snapOk hsha hmoment.reach).2 q₀ hq₀ hparty₀
  obtain ⟨hinorder, hlinks⟩ := orderOk hsha hmoment.reach
  have hlink₀ := hlinks q₀ hq₀ hparty₀
  rw [hlog₀] at hsnaps₀ hlink₀
  obtain ⟨row, hrow, hrowTask, hrowId, hclaimable, hfields⟩ :=
    SnapshotHolds.row hallowed hq₀ hparty₀ (hlog₀.symm ▸ hsnap') hstep'
  refine ⟨task, step, before, pool₀, pool₁, hsnap, hstep, hlaunch.taskId, hlaunch.stepId, ?_, ⟨⟨row, hrow, ?_, ?_, ?_, ?_,
    hclaimable, hclaim.depsDone hsnaps₀ hinorder hlink₀ hrow hrowTask hrowId hfields⟩, ?_⟩⟩
  · rw [hlaunch.taskId, hlaunch.stepId]
    exact hmoment
  · rw [hrowTask, hlaunch.taskId]
  · rw [hrowId, hlaunch.stepId]
  · rw [congrArg StepFields.assignedTo hfields, hlaunch.agent]
  · rw [congrArg StepFields.title hfields]
  · rw [hlaunch.agent]
    exact hclaim.roster

/-- The row that was claimed is still there at the end of the run. -/
theorem claimed_row_stays (hsha : Function.Injective cfg.rt.sha256)
    {allows : OfficePool → OfficeParty → OfficeCall → Prop} {before : OfficeLog} {taskId stepId : String} {a : AttemptId}
    {pool₀ pool₁ : OfficePool} (hmoment : System.Moment (officeSystem cfg staffOk allows) (officeInit staffOk) pool .ticker
      before (.store (.reserveStep taskId stepId)) (.ok a) pool₀ pool₁) {row : TeamStep}
    (hrow : row ∈ pool₀.world.ledger.db.steps.rows) (htask : row.taskId = taskId) (hid : row.stepId = stepId) :
    ∃ row' ∈ pool.world.ledger.db.steps.rows, row'.toStepIdent = row.toStepIdent := by
  have hhandled : (OfficeCall.store (.reserveStep taskId stepId)).handle cfg.rt pool₀.world = (.ok a, pool₁.world) :=
    hmoment.takes.handled
  have hget : pool₀.world.ledger.db.getStep taskId stepId = some row := Db.getStep_eq_some.2 ⟨hrow, htask, hid⟩
  have hclaimed : Db.reserved pool₀.world.ledger.nextAttempt pool₀.world.ledger.clock defaultLeaseTtl row ∈
      pool₁.world.ledger.db.steps.rows := by
    have hworld : ((OfficeCall.store (.reserveStep taskId stepId)).handle cfg.rt pool₀.world).2 = pool₁.world :=
      congrArg Prod.snd hhandled
    rw [← hworld]
    simp only [OfficeCall.handle, StoreOp.run, hget]
    exact List.mem_map.2 ⟨row, hrow, by simp [Db.isStep, htask, hid]⟩
  obtain ⟨row', hrow', hident, -⟩ := started_run hsha (hmoment.reach.step hmoment.takes.step) hmoment.run hclaimed
    (by simp [Db.reserved])
  exact ⟨row', hrow', hident⟩

end Spawns

/-! ### A tick and an amendment -/

/-- A task of two steps that wait for nothing, before its first tick. -/
def parallelPool : OfficePool :=
  ⟨.holding (sampleEnv "pass") (.confirmed sampleConfig.rt parallelPlan), []⟩

/-- A tick without an amendment, about to spawn the first step. -/
def spawningPool : OfficePool :=
  execAll sampleConfig anyStaff SnapshotHolds (fun pool p e => decide (SnapshotHolds pool p e)) [.start, .call 0 5]
    parallelPool

/-- The spawn of the first step is grounded. -/
theorem spawn_of_claimed_row_first : ∃ q ∈ spawningPool.procs, q.party = .ticker ∧
    q.next = some (.spawnStep ⟨"t", "s1", "dev", 1⟩) ∧ q.prog.raised = none ∧
      Grounded sampleConfig anyStaff SnapshotHolds spawningPool q.log ⟨"t", "s1", "dev", 1⟩ := by
  have hreach : (officeSystem sampleConfig anyStaff SnapshotHolds).Reach (officeInit anyStaff) spawningPool :=
    reach_exec (fun _ _ _ h => of_decide_eq_true h) _ (reach_confirmed parallelPlan trivial)
  obtain ⟨q, hq, hparty, hnext⟩ : ∃ q ∈ spawningPool.procs, q.party = .ticker ∧
      q.next = some (.spawnStep ⟨"t", "s1", "dev", 1⟩) := by decide +kernel
  have hgrounded := spawn_of_claimed_row Function.injective_id hreach hq hparty
  exact ⟨q, hq, hparty, hnext, hgrounded.1, hgrounded.2 _ hnext⟩

/-- A tick issues `n` calls, then a user replaces the pending steps by one report, then the tick goes on. -/
def amendedAfter (n : ℕ) : OfficePool :=
  sampleRun sampleConfig anyStaff [.call 0 1]
    (afterOp sampleConfig.rt (.confirmAmendment "t" 1)
      (afterDraft sampleConfig.rt [("dev", "Dev"), ("qa", "QA")] (fun _ _ => .ok ⟨"[report]", none⟩)
        (sampleRun sampleConfig anyStaff [.start, .call 0 n] parallelPool)))

theorem amendedAfter_reach (n : ℕ) :
    (officeSystem sampleConfig anyStaff anyCall).Reach (officeInit anyStaff) (amendedAfter n) :=
  reach_sampleRun _ (reach_afterOp (.confirmAmendment "t" 1) rfl trivial
    (reach_afterDraft _ _ (reach_sampleRun _ (reach_confirmed parallelPlan trivial))))

/-- The row that the tick has just claimed is gone: it raises. -/
theorem amendedAfter_raises : ∃ q ∈ (amendedAfter 4).procs, q.party = .ticker ∧ q.prog.raised ≠ none := by
  decide +kernel

/-- Under the id of the second step the tick has claimed the report: it spawns the outline. -/
theorem amendedAfter_spawns : ∃ q ∈ (amendedAfter 10).procs, q.party = .ticker ∧
    q.next = some (.spawnStep ⟨"t", "s2", "qa", 2⟩) ∧
      (∀ task ∈ snapshots q.log, ∀ step ∈ task.steps, step.stepId = "s2" → step.title = "Outline") ∧
        ∀ row ∈ (amendedAfter 10).world.ledger.db.steps.rows, row.title ≠ "Outline" := by
  decide +kernel

/-- When an amendment is confirmed between the snapshot and the claim, the tick may raise, and it may spawn
another step than the one it has claimed. -/
theorem amendment_breaks_tick :
    (¬ ∀ pool, (officeSystem sampleConfig anyStaff anyCall).Reach (officeInit anyStaff) pool →
      ∀ q ∈ pool.procs, q.party = .ticker → q.prog.raised = none) ∧
    ¬ ∀ pool, (officeSystem sampleConfig anyStaff anyCall).Reach (officeInit anyStaff) pool →
      ∀ q ∈ pool.procs, q.party = .ticker → ∀ s, q.next = some (.spawnStep s) →
        Grounded sampleConfig anyStaff anyCall pool q.log s := by
  constructor
  · intro hclaim
    obtain ⟨q, hq, hparty, hraised⟩ := amendedAfter_raises
    exact hraised (hclaim _ (amendedAfter_reach 4) q hq hparty)
  · intro hclaim
    obtain ⟨q, hq, hparty, hnext, houtline, hnone⟩ := amendedAfter_spawns
    obtain ⟨task, step, before, pool₀, pool₁, hsnap, hstep, -, hid, hmoment, hrests⟩ :=
      hclaim _ (amendedAfter_reach 10) q hq hparty _ hnext
    obtain ⟨row, hrow, htask, hrowId, -, htitle, -⟩ := hrests.row
    obtain ⟨row', hrow', hident⟩ := claimed_row_stays Function.injective_id hmoment hrow htask hrowId
    refine hnone row' hrow' ?_
    rw [congrArg (fun i : StepIdent => i.title) hident, htitle]
    exact houtline task (mem_snapshots.2 hsnap) step hstep hid.symm

end ProjectManager
