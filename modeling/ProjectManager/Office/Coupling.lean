import ProjectManager.Office.TickerContract
import ProjectManager.Office.WorkerContract
import ProjectManager.Store.Effects

/-!
# What the logs of the processes say of the store

`Office.Inv` holds of the office at all times: the invariant of the store, leases that are given once,
and result files that were written by a worker of their own step.  `WorkerLink` and `TickerLink` say
what a process may conclude from its log while the others go on.  `officeSpec` puts them together with
the two contracts, and `officeOk` is the result for every run.
-/

namespace ProjectManager

open Process

/-! ### The invariant -/

/-- A result in the file of a step was written by a worker of that step, and the step is no review. -/
def Office.Handed (w : Office) (taskId : String) (n : ℕ) (a : Artifact) : Prop :=
  ∃ i ∈ w.ledger.ever, ∃ s ∈ w.spawned, i.taskId = taskId ∧ i.seq = n ∧ i.stepType ≠ .review ∧
    s.taskId = taskId ∧ s.stepId = i.stepId ∧ a.version = some s.attemptId

/-- What holds of the office at all times. -/
structure Office.Inv (cfg : OfficeConfig) (staffOk : List (String × String) → Prop) (w : Office) : Prop where
  staff : staffOk (w.env .assignableStaff)
  ledger : w.ledger.Inv cfg.rt
  /-- the leases of the workers were drawn from the counter -/
  drawn : ∀ s ∈ w.spawned, s.attemptId < w.ledger.nextAttempt
  /-- a rework waits for one step -/
  reworks : ∀ i ∈ w.ledger.ever, i.stepType = .rework → ∃ dep, i.deps = [dep]
  handed : ∀ taskId n a, w.files (stepArtifactPath taskId n) = some a → a.resultText ≠ none → w.Handed taskId n a

/-! ### The links -/

/-- The task was handed out when it had been opened. -/
def Office.Known (w : Office) (taskId : String) : Prop :=
  ∃ task ∈ w.ledger.seen, task.id = taskId ∧ task.status.everOpened = true

/-- What a worker may conclude from its log. -/
structure WorkerLink (s : Spawn) (log : OfficeLog) (w : Office) : Prop where
  spawned : s ∈ w.spawned
  task : w.Known s.taskId
  /-- a row that it has read was stored under the id it asked for -/
  rows : ∀ taskId stepId step, log.Has (.store (.getStep taskId stepId)) (some step) →
    step.toStepIdent ∈ w.ledger.ever ∧ step.taskId = taskId ∧ step.stepId = stepId
  /-- a result that it has read was written by a worker of the step -/
  reads : ∀ taskId n a, log.Has (.readArtifact (stepArtifactPath taskId n)) (some a) → a.resultText ≠ none →
    w.Handed taskId n a
  /-- before it records an outcome, nothing is done under its lease -/
  unsettled : Unsettled log → ∀ row ∈ w.ledger.db.steps.rows, row.attemptId = some s.attemptId →
    row.status ≠ .done

/-- What the ticker may conclude from its log. -/
structure TickerLink (log : OfficeLog) (w : Office) : Prop where
  listed : ∀ task, Snap log task → task.Listed
  known : ∀ task, Snap log task → w.Known task.id
  /-- a lease that it has just drawn belongs to nobody and nothing is done under it -/
  leased : ∀ before taskId stepId a, log = before ++ [⟨.store (.reserveStep taskId stepId), .ok a⟩] →
    a < w.ledger.nextAttempt ∧ (∀ s ∈ w.spawned, s.attemptId ≠ a) ∧
      ∀ row ∈ w.ledger.db.steps.rows, row.attemptId = some a → row.status ≠ .done
  /-- a finished snapshot is still true while the ticker only looks -/
  settled : Calm log → ∀ task, Snap log task → task.allDone = true →
    (w.ledger.db.stepsForTask task.id).map (fun s => s.toStepIdent) = task.steps.map (fun s => s.toStepIdent) ∧
      ∀ row ∈ w.ledger.db.stepsForTask task.id, row.status = .done

/-- What the log of a process says of the office. -/
def OfficeLink : OfficeParty → OfficeLog → Office → Prop
  | .ticker => TickerLink
  | .worker s => WorkerLink s

/-- What a process keeps to. -/
def OfficeObeys (cfg : OfficeConfig) (staffOk : List (String × String) → Prop) :
    OfficeParty → OfficeLog → OfficeCall → Prop
  | .ticker => TickObeys cfg.concurrency staffOk
  | .worker s => WorkerObeys s

/-- Two processes of one office: one ticker, and workers with leases of their own. -/
def OfficeApart : OfficeParty → OfficeParty → Prop
  | .ticker, .ticker => False
  | .worker s, .worker s' => s.attemptId ≠ s'.attemptId
  | _, _ => True

/-! ### What only grows -/

/-- Workers, rows of the record, snapshots and leases only grow. -/
structure Office.Grows (w w' : Office) : Prop where
  spawned : ∀ s ∈ w.spawned, s ∈ w'.spawned
  ledger : w.ledger.Extends w'.ledger

section Coupling

variable {cfg : OfficeConfig} {staffOk : List (String × String) → Prop} {w w' : Office} {log : OfficeLog}
  {e : OfficeCall} {p : OfficeParty} {s : Spawn}

theorem Office.grows_handle (e : OfficeCall) (w : Office) : w.Grows (e.handle cfg.rt w).2 := by
  cases e with
  | store o =>
      exact ⟨fun _ h => h, StoreOp.extends_run cfg.rt o w.ledger⟩
  | spawnStep s =>
      exact ⟨fun _ h => List.mem_append_left _ h, .refl _⟩
  | _ =>
      exact ⟨fun _ h => h, .refl _⟩

theorem Office.Handed.grows {taskId : String} {n : ℕ} {a : Artifact} (h : w.Handed taskId n a) (hg : w.Grows w') :
    w'.Handed taskId n a := by
  obtain ⟨i, hi, s, hs, hrest⟩ := h
  exact ⟨i, hg.ledger.ever i hi, s, hg.spawned s hs, hrest⟩

theorem Office.Known.grows {taskId : String} (h : w.Known taskId) (hg : w.Grows w') : w'.Known taskId := by
  obtain ⟨task, hseen, hrest⟩ := h
  exact ⟨task, hg.ledger.seen task hseen, hrest⟩

theorem Office.Known.opened {taskId : String} (h : w.Known taskId) (hinv : w.Inv cfg staffOk) :
    w.ledger.Opened taskId := by
  obtain ⟨task, hseen, rfl, hopened⟩ := h
  exact hinv.ledger.history.seenOpened task hseen hopened

/-- A call that is no operation of the store leaves the store alone. -/
theorem ledger_handle (h : ∀ o, e ≠ .store o) : (e.handle cfg.rt w).2.ledger = w.ledger := by
  cases e with
  | store o =>
      exact absurd rfl (h o)
  | _ =>
      rfl

/-! ### The callers keep to the preconditions -/

theorem TickerLink.pre (hinv : w.Inv cfg staffOk) (h : TickerLink log w) {o : StoreOp} (hobeys : TickObeys cfg.concurrency staffOk log (.store o)) :
    o.Pre cfg.rt w.ledger := by
  cases o with
  | insertStep taskId d =>
      obtain ⟨-, task, step, hsnap, rfl, -, hmints⟩ := hobeys
      refine ⟨(h.known task hsnap).opened hinv, ?_⟩
      rcases hmints.cases.2.kind with hd | hd
      · exact .inl hd
      · exact .inr hd.1
  | reserveStep taskId stepId =>
      obtain ⟨task, step, hclaim, rfl, -⟩ := hobeys
      exact (h.known task hclaim.picked.chosen.1).opened hinv
  | setStepStatus taskId stepId status x attemptId =>
      obtain ⟨hstatus, task, step, hpicked, rfl, -⟩ := hobeys
      refine ⟨(h.known task hpicked.chosen.1).opened hinv, ?_⟩
      rcases hstatus with rfl | rfl <;> decide
  | setTaskStatus taskId status =>
      obtain ⟨task, hsnap, rfl, hstatus⟩ := hobeys
      refine ⟨(h.known task hsnap).opened hinv, ?_⟩
      rcases hstatus with rfl | ⟨rfl, -⟩ <;> rfl
  | setDraftPlan taskId steps planHash =>
      cases hobeys
  | setAmendmentDraft taskId base new newPending oldPending =>
      cases hobeys
  | _ =>
      exact trivial

theorem Settles.started {status : StepStatus} {x : Db.StatusExtras} (h : Settles s log status x) : status ≠ .pending := by
  rcases h.outcome with rfl | rfl | rfl <;> decide

theorem WorkerLink.pre (hinv : w.Inv cfg staffOk) (h : WorkerLink s log w) {o : StoreOp} (hobeys : WorkerObeys s log (.store o)) :
    o.Pre cfg.rt w.ledger := by
  cases o with
  | setStepStatus taskId stepId status x attemptId =>
      obtain ⟨rfl, -, -, hsettles⟩ := hobeys
      exact ⟨h.task.opened hinv, hsettles.started⟩
  | setDraftPlan taskId steps planHash =>
      cases hobeys
  | setTaskStatus taskId status =>
      cases hobeys
  | reserveStep taskId stepId =>
      cases hobeys
  | insertStep taskId d =>
      cases hobeys
  | setAmendmentDraft taskId base new newPending oldPending =>
      cases hobeys
  | _ =>
      exact trivial

theorem OfficeLink.pre (hinv : w.Inv cfg staffOk) (h : OfficeLink p log w) {o : StoreOp}
    (hobeys : OfficeObeys cfg staffOk p log (.store o)) : o.Pre cfg.rt w.ledger := by
  cases p with
  | ticker =>
      exact TickerLink.pre hinv h hobeys
  | worker s =>
      exact WorkerLink.pre hinv h hobeys

/-! ### The invariant is kept -/

theorem Office.Inv.store (h : w.Inv cfg staffOk) (hsha : Function.Injective cfg.rt.sha256) {o : StoreOp}
    (hpre : o.Pre cfg.rt w.ledger)
    (hmint : ∀ taskId d, o = .insertStep taskId d →
      d.stepType = some .review ∨ d.stepType = some .rework ∧ ∃ dep, d.deps = [dep]) :
    ((OfficeCall.store o).handle cfg.rt w).2.Inv cfg staffOk where
  staff := h.staff
  ledger := h.ledger.op hsha hpre
  drawn := fun s hs => (h.drawn s hs).trans_le (StoreOp.extends_run cfg.rt o w.ledger).leases
  reworks := by
    intro i hi hrework
    rcases h.ledger.everAfter hpre hi with hi | hsystem | ⟨taskId, d, n, rfl, rfl⟩
    · exact h.reworks i hi hrework
    · have hwork := ((h.ledger.op hsha hpre).history.everConfirmed i hi hsystem).2
      rw [hrework] at hwork
      cases hwork
    · rcases hmint taskId d rfl with hreview | ⟨-, hdeps⟩
      · simp [hreview] at hrework
      · exact hdeps
  handed := fun taskId n a hfile hresult =>
    (h.handed taskId n a hfile hresult).grows (Office.grows_handle (.store o) w)

theorem Office.Inv.spawn (h : w.Inv cfg staffOk) (hs : s.attemptId < w.ledger.nextAttempt) :
    ((OfficeCall.spawnStep s).handle cfg.rt w).2.Inv cfg staffOk where
  staff := h.staff
  ledger := h.ledger
  drawn := by
    intro s' hs'
    rcases List.mem_append.1 hs' with hs' | hs'
    · exact h.drawn s' hs'
    · rw [List.mem_singleton.1 hs']
      exact hs
  reworks := h.reworks
  handed := fun taskId n a hfile hresult =>
    (h.handed taskId n a hfile hresult).grows (Office.grows_handle (.spawnStep s) w)

theorem Office.Inv.write (h : w.Inv cfg staffOk) (hlink : WorkerLink s log w) {path : ArtifactPath} {a : Artifact}
    (hwrites : Writes s log path a) : ((OfficeCall.writeArtifact path a).handle cfg.rt w).2.Inv cfg staffOk where
  staff := h.staff
  ledger := h.ledger
  drawn := h.drawn
  reworks := h.reworks
  handed := by
    intro taskId n a' hfile hresult
    by_cases hpath : stepArtifactPath taskId n = path
    · have ha : a = a' := by simpa [OfficeCall.handle, hpath] using hfile
      subst ha hpath
      rcases hwrites with ⟨m, round, hreview⟩ | ⟨m, -, hnone⟩ | ⟨step, hread, htype, hown, hversion⟩
      · exact absurd hreview (stepArtifactPath_ne_review _ _ _ _ _)
      · exact absurd hnone hresult
      · obtain ⟨htask, hseq⟩ := stepArtifactPath_inj hown
        obtain ⟨hever, hrow, hid⟩ := hlink.rows _ _ _ hread
        exact ⟨step.toStepIdent, hever, s, hlink.spawned, hrow.trans htask.symm, hseq.symm, htype, htask.symm,
          hid.symm, hversion⟩
    · refine h.handed taskId n a' ?_ hresult
      simpa [OfficeCall.handle, Function.update_of_ne hpath] using hfile

/-- A call of the ticker keeps the invariant. -/
theorem TickerLink.inv (hinv : w.Inv cfg staffOk) (hsha : Function.Injective cfg.rt.sha256) (h : TickerLink log w)
    (hobeys : TickObeys cfg.concurrency staffOk log e) : (e.handle cfg.rt w).2.Inv cfg staffOk := by
  cases e with
  | store o =>
      refine hinv.store hsha (h.pre hinv hobeys) ?_
      rintro taskId d rfl
      obtain ⟨-, task, step, -, -, -, hmints⟩ := hobeys
      exact hmints.cases.2.kind
  | spawnStep s =>
      obtain ⟨task, step, hlaunch⟩ := hobeys
      obtain ⟨before, hlog⟩ := hlaunch.leased
      exact hinv.spawn (h.leased before _ _ _ hlog).1
  | writeArtifact path a =>
      cases hobeys
  | _ =>
      exact { hinv with }

/-- A call of a worker keeps the invariant. -/
theorem WorkerLink.inv (hinv : w.Inv cfg staffOk) (hsha : Function.Injective cfg.rt.sha256) (h : WorkerLink s log w)
    (hobeys : WorkerObeys s log e) : (e.handle cfg.rt w).2.Inv cfg staffOk := by
  cases e with
  | store o =>
      refine hinv.store hsha (h.pre hinv hobeys) ?_
      rintro taskId d rfl
      cases hobeys
  | writeArtifact path a =>
      exact hinv.write h hobeys.1
  | spawnStep s =>
      cases hobeys
  | _ =>
      exact { hinv with }

theorem OfficeLink.inv (hinv : w.Inv cfg staffOk) (hsha : Function.Injective cfg.rt.sha256) (h : OfficeLink p log w)
    (hobeys : OfficeObeys cfg staffOk p log e) : (e.handle cfg.rt w).2.Inv cfg staffOk := by
  cases p with
  | ticker =>
      exact TickerLink.inv hinv hsha h hobeys
  | worker s =>
      exact WorkerLink.inv hinv hsha h hobeys

/-! ### Rows that a call writes -/

/-- The call writes the status or the lease of the row. -/
def OfficeCall.writes : OfficeCall → TeamStep → Bool
  | .store (.reserveStep taskId stepId), row => Db.isStep taskId stepId row
  | .store (.setStepStatus taskId stepId _ _ attemptId), row => Db.isAttempt taskId stepId attemptId row
  | _, _ => false

theorem StoreOp.Moves.spared {o : StoreOp} {l : Ledger} {row row' : TeamStep} (h : o.Moves l row row')
    (hspared : (OfficeCall.store o).writes row = false) :
    row'.toStepIdent = row.toStepIdent ∧ row'.status = row.status ∧ row'.attemptId = row.attemptId := by
  refine ⟨h.1, ?_⟩
  rcases h.2 with hsame | ⟨taskId, stepId, rfl, htask, hstep, -⟩ | ⟨taskId, stepId, status, x, a, rfl, hattempt, -⟩
  · exact hsame
  · simp [OfficeCall.writes, Db.isStep, htask, hstep] at hspared
  · rw [OfficeCall.writes, hattempt] at hspared
    cases hspared

theorem OfficeCall.spares_of_calm {row : TeamStep} (h : e.calm = true) : e.writes row = false := by
  unfold OfficeCall.writes
  split
  · cases h
  · cases h
  · rfl

theorem OfficeCall.spares_of_client {o : StoreOp} {row : TeamStep} (h : o.client = true) :
    (OfficeCall.store o).writes row = false := by
  cases o with
  | reserveStep =>
      cases h
  | setStepStatus =>
      cases h
  | _ =>
      rfl

/-- A worker does not write a finished row. -/
theorem WorkerLink.spares (h : WorkerLink s log w) (hobeys : WorkerObeys s log e) {row : TeamStep}
    (hrow : row ∈ w.ledger.db.steps.rows) (hdone : row.status = .done) : e.writes row = false := by
  unfold OfficeCall.writes
  split
  · cases hobeys
  · obtain ⟨rfl, rfl, rfl, hsettles⟩ := hobeys
    by_contra hwrites
    simp only [Db.isAttempt, Bool.not_eq_false, Bool.and_eq_true] at hwrites
    exact h.unsettled hsettles.unsettled row hrow (by simpa using hwrites.2) hdone
  · rfl

/-- What the ticker writes, it has picked from its snapshot. -/
theorem TickObeys.picked_of_writes {k : ℕ} (h : TickObeys k staffOk log e) {row : TeamStep}
    (hwrites : e.writes row = true) :
    ∃ task step, Picked log task step ∧ task.id = row.taskId ∧ step.stepId = row.stepId := by
  unfold OfficeCall.writes at hwrites
  split at hwrites
  · obtain ⟨task, step, hclaim, rfl, rfl⟩ := h
    simp only [Db.isStep, Bool.and_eq_true, decide_eq_true_eq] at hwrites
    exact ⟨task, step, hclaim.picked, hwrites.1.symm, hwrites.2.symm⟩
  · obtain ⟨-, task, step, hpicked, rfl, rfl, -⟩ := h
    simp only [Db.isAttempt, Db.isStep, Bool.and_eq_true, decide_eq_true_eq] at hwrites
    exact ⟨task, step, hpicked, hwrites.1.1.symm, hwrites.1.2.symm⟩
  · cases hwrites

/-- A worker writes only a row that was claimed for it. -/
theorem WorkerObeys.leased_of_writes (h : WorkerObeys s log e) {row : TeamStep} (hwrites : e.writes row = true) :
    row.taskId = s.taskId ∧ row.stepId = s.stepId ∧ row.attemptId = some s.attemptId := by
  unfold OfficeCall.writes at hwrites
  split at hwrites
  · cases h
  · obtain ⟨rfl, rfl, rfl, -, -⟩ := h
    simp only [Db.isAttempt, Db.isStep, Bool.and_eq_true, decide_eq_true_eq] at hwrites
    exact ⟨hwrites.1.1, hwrites.1.2, by simpa using hwrites.2⟩
  · cases hwrites

/-- A row that a call does not write is still there, with its status and its lease. -/
theorem Office.Inv.rowSpared (h : w.Inv cfg staffOk) (hpre : ∀ o, e = .store o → o.Pre cfg.rt w.ledger)
    {row : TeamStep} (hrow : row ∈ w.ledger.db.steps.rows) (hstarted : row.status ≠ .pending)
    (hspared : e.writes row = false) : ∃ row' ∈ (e.handle cfg.rt w).2.ledger.db.steps.rows,
      row'.toStepIdent = row.toStepIdent ∧ row'.status = row.status ∧ row'.attemptId = row.attemptId := by
  by_cases hstore : ∃ o, e = .store o
  · obtain ⟨o, rfl⟩ := hstore
    obtain ⟨row', hrow', hmoves⟩ := h.ledger.rowKept (hpre o rfl) hrow hstarted
    exact ⟨row', hrow', hmoves.spared hspared⟩
  · push Not at hstore
    rw [ledger_handle hstore]
    exact ⟨row, hrow, rfl, rfl, rfl⟩

/-- The rows of a finished task after a call that writes none of them and mints none. -/
theorem Office.Inv.taskSpared (h : w.Inv cfg staffOk) (hpre : ∀ o, e = .store o → o.Pre cfg.rt w.ledger)
    {taskId : String} (hopened : w.ledger.Opened taskId)
    (hdone : ∀ row ∈ w.ledger.db.stepsForTask taskId, row.status = .done)
    (hmint : ∀ d, e ≠ .store (.insertStep taskId d))
    (hspared : ∀ row ∈ w.ledger.db.stepsForTask taskId, e.writes row = false) :
    ((e.handle cfg.rt w).2.ledger.db.stepsForTask taskId).map (fun s => s.toStepIdent) =
        (w.ledger.db.stepsForTask taskId).map (fun s => s.toStepIdent) ∧
      ∀ row ∈ (e.handle cfg.rt w).2.ledger.db.stepsForTask taskId, row.status = .done := by
  by_cases hstore : ∃ o, e = .store o
  · obtain ⟨o, rfl⟩ := hstore
    obtain ⟨g, hrows, hmoves⟩ := h.ledger.rowsSettled (hpre o rfl) hopened
      (fun row hrow hpending => by
        rw [hdone row hrow] at hpending
        cases hpending)
      fun d hd => hmint d (by rw [hd])
    have hafter : ((OfficeCall.store o).handle cfg.rt w).2.ledger.db.stepsForTask taskId =
        (w.ledger.db.stepsForTask taskId).map g := hrows
    rw [hafter, List.map_map]
    refine ⟨List.map_congr_left fun row _ => (hmoves row).1, fun row' hrow' => ?_⟩
    obtain ⟨row, hrow, rfl⟩ := List.mem_map.1 hrow'
    rw [((hmoves row).spared (hspared row hrow)).2.1, hdone row hrow]
  · push Not at hstore
    rw [ledger_handle hstore]
    exact ⟨rfl, hdone⟩

/-- A row that is done under a lease was so before, or the call has just recorded it. -/
theorem Office.Inv.doneOrigin (h : w.Inv cfg staffOk) (hpre : ∀ o, e = .store o → o.Pre cfg.rt w.ledger)
    {row' : TeamStep} (hrow' : row' ∈ (e.handle cfg.rt w).2.ledger.db.steps.rows) (hdone : row'.status = .done)
    {a : AttemptId} (ha : row'.attemptId = some a) :
    (∃ row ∈ w.ledger.db.steps.rows, row.attemptId = some a ∧ row.status = .done) ∨
      ∃ taskId stepId x attemptId, e = .store (.setStepStatus taskId stepId .done x attemptId) ∧
        (attemptId = none ∨ attemptId = some a) := by
  by_cases hstore : ∃ o, e = .store o
  · obtain ⟨o, rfl⟩ := hstore
    rcases h.ledger.rowOrigin (hpre o rfl) hrow' with ⟨row, hrow, -, hmoves⟩ | ⟨hpending, -⟩
    · rcases hmoves with ⟨hstatus, hattempt⟩ | ⟨_, _, -, -, -, hrunning, -⟩ |
        ⟨taskId, stepId, status, x, attemptId, rfl, hwrites, rfl, hattempt⟩
      · exact .inl ⟨row, hrow, hattempt ▸ ha, hstatus ▸ hdone⟩
      · rw [hdone] at hrunning
        cases hrunning
      · refine .inr ⟨taskId, stepId, x, attemptId, by rw [hdone], ?_⟩
        cases attemptId with
        | none =>
            exact .inl rfl
        | some b =>
            simp only [Db.isAttempt, Bool.and_eq_true] at hwrites
            have hb : row.attemptId = some b := by simpa using hwrites.2
            exact .inr (by rw [← hb, ← hattempt, ha])
    · rw [hdone] at hpending
      cases hpending
  · push Not at hstore
    rw [ledger_handle hstore] at hrow'
    exact .inl ⟨row', hrow', ha, hdone⟩

/-- Only the worker that holds the lease makes a row done under it. -/
theorem OfficeLink.doneOrigin (hinv : w.Inv cfg staffOk) (h : OfficeLink p log w) (hobeys : OfficeObeys cfg staffOk p log e)
    {row' : TeamStep} (hrow' : row' ∈ (e.handle cfg.rt w).2.ledger.db.steps.rows) (hdone : row'.status = .done)
    {a : AttemptId} (ha : row'.attemptId = some a) :
    (∃ row ∈ w.ledger.db.steps.rows, row.attemptId = some a ∧ row.status = .done) ∨
      ∃ s, p = .worker s ∧ s.attemptId = a ∧
        ∃ taskId stepId status x attemptId, e = .store (.setStepStatus taskId stepId status x attemptId) := by
  have hpre : ∀ o, e = .store o → o.Pre cfg.rt w.ledger := by
    rintro o rfl
    exact OfficeLink.pre hinv h hobeys
  rcases hinv.doneOrigin hpre hrow' hdone ha with hold | ⟨taskId, stepId, x, attemptId, rfl, hattempt⟩
  · exact .inl hold
  cases p with
  | ticker =>
      obtain ⟨hstatus | hstatus, -⟩ := hobeys <;> cases hstatus
  | worker s =>
      obtain ⟨-, -, rfl, -, -⟩ := hobeys
      refine .inr ⟨s, rfl, ?_, taskId, stepId, _, x, _, rfl⟩
      simpa using hattempt

/-! ### The links are kept -/

/-- A step of another process, or a change from outside, keeps the link of a worker. -/
theorem WorkerLink.kept (h : WorkerLink s log w) (hg : w.Grows w')
    (hdone : ∀ row' ∈ w'.ledger.db.steps.rows, row'.status = .done → row'.attemptId = some s.attemptId →
      ∃ row ∈ w.ledger.db.steps.rows, row.attemptId = some s.attemptId ∧ row.status = .done) :
    WorkerLink s log w' where
  spawned := hg.spawned s h.spawned
  task := h.task.grows hg
  rows := by
    intro taskId stepId step hread
    obtain ⟨hever, hrest⟩ := h.rows taskId stepId step hread
    exact ⟨hg.ledger.ever _ hever, hrest⟩
  reads := fun taskId n a hread hresult => (h.reads taskId n a hread hresult).grows hg
  unsettled := by
    intro hunsettled row' hrow' ha hstatus
    obtain ⟨row, hrow, ha', hstatus'⟩ := hdone row' hrow' hstatus ha
    exact h.unsettled hunsettled row hrow ha' hstatus'

/-- The worker's own call keeps its link. -/
theorem WorkerLink.asked (hinv : w.Inv cfg staffOk) (h : WorkerLink s log w) (hobeys : WorkerObeys s log e) :
    WorkerLink s (log ++ [⟨e, (e.handle cfg.rt w).1⟩]) (e.handle cfg.rt w).2 where
  spawned := (Office.grows_handle e w).spawned s h.spawned
  task := h.task.grows (Office.grows_handle e w)
  rows := by
    intro taskId stepId step hread
    rcases hread.of_append with hread | ⟨rfl, hstep⟩
    · obtain ⟨hever, hrest⟩ := h.rows taskId stepId step hread
      exact ⟨(Office.grows_handle e w).ledger.ever _ hever, hrest⟩
    · obtain ⟨hrow, htask, hid⟩ := Db.getStep_eq_some.1 hstep
      exact ⟨hinv.ledger.history.everRows step hrow, htask, hid⟩
  reads := by
    intro taskId n a hread hresult
    rcases hread.of_append with hread | ⟨rfl, hfile⟩
    · exact (h.reads taskId n a hread hresult).grows (Office.grows_handle e w)
    · exact (hinv.handed taskId n a hfile hresult).grows (Office.grows_handle _ w)
  unsettled := by
    intro hunsettled row' hrow' ha hdone
    have hbefore : Unsettled log := fun taskId stepId status x attemptId r hr =>
      hunsettled taskId stepId status x attemptId r (hr.mono (List.prefix_append _ _))
    rcases OfficeLink.doneOrigin (p := .worker s) hinv h hobeys hrow' hdone ha with
      ⟨row, hrow, ha', hdone'⟩ | ⟨_, -, -, taskId, stepId, status, x, attemptId, rfl⟩
    · exact h.unsettled hbefore row hrow ha' hdone'
    · exact hunsettled taskId stepId status x attemptId _ (Log.has_last _ _ _)

theorem Snap.of_append {r : e.Resp} {task : TeamTask} (h : Snap (log ++ [⟨e, r⟩]) task) :
    Snap log task ∨ ∃ tasks : List TeamTask, task ∈ tasks ∧ e = .store .listDispatchable ∧ HEq r tasks := by
  obtain ⟨tasks, hread, htask⟩ := h
  rcases hread.of_append with hread | ⟨rfl, rfl⟩
  · exact .inl ⟨tasks, hread, htask⟩
  · exact .inr ⟨_, htask, rfl, HEq.rfl⟩

/-- A step of a worker, or a change from outside, keeps the link of the ticker. -/
theorem TickerLink.kept (h : TickerLink log w) (hg : w.Grows w') (hspawned : w'.spawned = w.spawned)
    (hdone : ∀ row' ∈ w'.ledger.db.steps.rows, row'.status = .done → ∀ a, row'.attemptId = some a →
      (∀ s ∈ w.spawned, s.attemptId ≠ a) →
        ∃ row ∈ w.ledger.db.steps.rows, row.attemptId = some a ∧ row.status = .done)
    (hsettled : ∀ taskId, w.Known taskId → (∀ row ∈ w.ledger.db.stepsForTask taskId, row.status = .done) →
      (w'.ledger.db.stepsForTask taskId).map (fun s => s.toStepIdent) =
          (w.ledger.db.stepsForTask taskId).map (fun s => s.toStepIdent) ∧
        ∀ row ∈ w'.ledger.db.stepsForTask taskId, row.status = .done) :
    TickerLink log w' where
  listed := h.listed
  known := fun task hsnap => (h.known task hsnap).grows hg
  leased := by
    intro before taskId stepId a hlog
    obtain ⟨hlt, hfree, hrows⟩ := h.leased before taskId stepId a hlog
    rw [hspawned]
    refine ⟨hlt.trans_le hg.ledger.leases, hfree, fun row' hrow' ha hstatus => ?_⟩
    obtain ⟨row, hrow, ha', hstatus'⟩ := hdone row' hrow' hstatus a ha hfree
    exact hrows row hrow ha' hstatus'
  settled := by
    intro hcalm task hsnap hall
    obtain ⟨hidents, hrows⟩ := h.settled hcalm task hsnap hall
    obtain ⟨hidents', hrows'⟩ := hsettled task.id (h.known task hsnap) hrows
    exact ⟨hidents'.trans hidents, hrows'⟩

theorem plausible_handle (hinv : w.Inv cfg staffOk) (e : OfficeCall) : Plausible staffOk e (e.handle cfg.rt w).1 := by
  unfold Plausible
  split
  · exact hinv.staff
  · intro task htask
    obtain ⟨hget, hdispatchable⟩ := Db.mem_listDispatchable.1 htask
    obtain ⟨-, -, hsteps⟩ := Db.get_eq_some.1 hget
    refine ⟨?_, hdispatchable⟩
    rw [hsteps]
    refine List.Nodup.map_on ?_ ?_
    · intro r hr r' hr' hid
      obtain ⟨hmem, htask⟩ := Db.mem_stepsForTask.1 hr
      obtain ⟨hmem', htask'⟩ := Db.mem_stepsForTask.1 hr'
      exact Db.step_unique hmem hmem' (htask.trans htask'.symm) hid
    · exact (List.Nodup.of_map _ w.ledger.db.steps.nodup).filter _
  · exact trivial

/-- The answer of `reserve_step` is the next lease. -/
theorem reserveStep_ok {taskId stepId : String} {a : AttemptId}
    (h : ((OfficeCall.store (.reserveStep taskId stepId)).handle cfg.rt w).1 = .ok a) :
    a = w.ledger.nextAttempt ∧
      ((OfficeCall.store (.reserveStep taskId stepId)).handle cfg.rt w).2.ledger.nextAttempt = a + 1 := by
  simp only [OfficeCall.handle, StoreOp.run] at h ⊢
  split at h
  · cases h
  · obtain rfl := Except.ok.inj h
    exact ⟨rfl, rfl⟩

/-- The ticker's own call keeps its link. -/
theorem TickerLink.asked (hinv : w.Inv cfg staffOk) (h : TickerLink log w) (hobeys : TickObeys cfg.concurrency staffOk log e) :
    TickerLink (log ++ [⟨e, (e.handle cfg.rt w).1⟩]) (e.handle cfg.rt w).2 where
  listed := by
    intro task hsnap
    rcases hsnap.of_append with hsnap | ⟨tasks, htask, rfl, htasks⟩
    · exact h.listed task hsnap
    · obtain rfl := eq_of_heq htasks
      exact plausible_handle hinv (.store .listDispatchable) task htask
  known := by
    intro task hsnap
    rcases hsnap.of_append with hsnap | ⟨tasks, htask, rfl, htasks⟩
    · exact (h.known task hsnap).grows (Office.grows_handle e w)
    · obtain rfl := eq_of_heq htasks
      exact ⟨task, List.mem_append_right _ htask, rfl,
        TaskStatus.everOpened_of_dispatchable (Db.mem_listDispatchable.1 htask).2⟩
  leased := by
    intro before taskId stepId a hlog
    obtain ⟨-, hlast⟩ := List.append_inj' hlog rfl
    simp only [List.cons.injEq, and_true, Sigma.mk.injEq] at hlast
    obtain ⟨rfl, hanswer⟩ := hlast
    obtain ⟨rfl, hnext⟩ := reserveStep_ok (eq_of_heq hanswer)
    refine ⟨hnext ▸ Nat.lt_succ_self _, fun s hs hsame => ?_, fun row' hrow' ha hdone => ?_⟩
    · exact absurd hsame (hinv.drawn s hs).ne
    · have hticker : OfficeObeys cfg staffOk .ticker log (.store (.reserveStep taskId stepId)) := hobeys
      have hlink : OfficeLink .ticker log w := h
      rcases OfficeLink.doneOrigin hinv hlink hticker hrow' hdone ha with ⟨row, hrow, ha', -⟩ | ⟨s, hs, -⟩
      · exact absurd rfl (hinv.ledger.tables.issued row hrow _ ha').ne
      · cases hs
  settled := by
    intro hcalm task hsnap hall
    have hcalm' : Calm log := fun x hx => hcalm x (List.mem_append_left _ hx)
    have he : e.calm = true := hcalm ⟨e, (e.handle cfg.rt w).1⟩ (by simp)
    rcases hsnap.of_append with hsnap | ⟨tasks, htask, rfl, htasks⟩
    · obtain ⟨hidents, hrows⟩ := h.settled hcalm' task hsnap hall
      have hpre : ∀ o, e = .store o → o.Pre cfg.rt w.ledger := by
        rintro o rfl
        exact h.pre hinv hobeys
      obtain ⟨hidents', hrows'⟩ := hinv.taskSpared hpre ((h.known task hsnap).opened hinv) hrows
        (by
          rintro d rfl
          cases he)
        fun row _ => OfficeCall.spares_of_calm he
      exact ⟨hidents'.trans hidents, hrows'⟩
    · obtain rfl := eq_of_heq htasks
      obtain ⟨-, -, hsteps⟩ := Db.get_eq_some.1 (Db.mem_listDispatchable.1 htask).1
      have hafter : ((OfficeCall.store .listDispatchable).handle cfg.rt w).2.ledger.db.stepsForTask task.id =
          task.steps := hsteps.symm
      simp only [TeamTask.allDone, Bool.and_eq_true, List.all_eq_true, decide_eq_true_eq] at hall
      rw [hafter]
      exact ⟨rfl, hall.2⟩

/-! ### The specification -/

theorem OfficeLink.others {q : OfficeParty} {log' : OfficeLog} (hinv : w.Inv cfg staffOk) (h : OfficeLink p log w)
    (hobeys : OfficeObeys cfg staffOk p log e) (hapart : OfficeApart p q) (hq : OfficeLink q log' w) :
    OfficeLink q log' (e.handle cfg.rt w).2 := by
  have hg : w.Grows (e.handle cfg.rt w).2 := Office.grows_handle e w
  cases q with
  | worker s' =>
      refine WorkerLink.kept hq hg fun row' hrow' hdone ha => ?_
      rcases OfficeLink.doneOrigin hinv h hobeys hrow' hdone ha with hold | ⟨s, rfl, hsame, -⟩
      · exact hold
      · exact absurd hsame hapart
  | ticker =>
      cases p with
      | ticker =>
          exact absurd hapart id
      | worker s =>
          have hlink : WorkerLink s log w := h
          have hwork : WorkerObeys s log e := hobeys
          refine TickerLink.kept hq hg ?_ ?_ ?_
          · cases e with
            | spawnStep s' =>
                cases hwork
            | _ =>
                rfl
          · intro row' hrow' hdone a ha hfree
            rcases OfficeLink.doneOrigin hinv h hobeys hrow' hdone ha with hold | ⟨s', hs', hsame, -⟩
            · exact hold
            · cases hs'
              exact absurd hsame (hfree s hlink.spawned)
          · intro taskId hknown hrows
            refine hinv.taskSpared ?_ (hknown.opened hinv) hrows ?_ ?_
            · rintro o rfl
              exact hlink.pre hinv hwork
            · rintro d rfl
              cases hwork
            · intro row hrow
              exact hlink.spares hwork (Db.mem_stepsForTask.1 hrow).1 (hrows row hrow)

/-- A change from outside that is not in the store. -/
theorem OfficeLink.undisturbed {q : OfficeParty} (h : OfficeLink q log w) (hledger : w'.ledger.db = w.ledger.db)
    (hseen : w'.ledger.seen = w.ledger.seen) (hever : w'.ledger.ever = w.ledger.ever)
    (hnext : w'.ledger.nextAttempt = w.ledger.nextAttempt) (hspawned : w'.spawned = w.spawned) :
    OfficeLink q log w' := by
  have hg : w.Grows w' := by
    refine ⟨fun s hs => hspawned ▸ hs, ⟨fun t ht => hseen ▸ ht, fun i hi => hever ▸ hi, hnext.ge⟩⟩
  cases q with
  | worker s =>
      refine WorkerLink.kept h hg fun row' hrow' hdone ha => ⟨row', ?_, ha, hdone⟩
      rwa [hledger] at hrow'
  | ticker =>
      refine TickerLink.kept h hg hspawned (fun row' hrow' hdone a ha _ => ⟨row', ?_, ha, hdone⟩) ?_
      · rwa [hledger] at hrow'
      · intro taskId _ hrows
        rw [hledger]
        exact ⟨rfl, hrows⟩

theorem Office.Changes.kept (hsha : Function.Injective cfg.rt.sha256) (hinv : w.Inv cfg staffOk)
    (h : Office.Changes cfg staffOk w w') :
    w'.Inv cfg staffOk ∧ ∀ q log, OfficeLink q log w → OfficeLink q log w' := by
  cases h with
  | env env hstaff =>
      refine ⟨{ hinv with staff := hstaff }, fun q log hq => hq.undisturbed rfl rfl rfl rfl rfl⟩
  | time now =>
      refine ⟨{ hinv with ledger := hinv.ledger.time now }, fun q log hq => hq.undisturbed rfl rfl rfl rfl rfl⟩
  | client o hclient hpre =>
      have hpre' : ∀ o', OfficeCall.store o = .store o' → o'.Pre cfg.rt w.ledger := by
        rintro o' ho
        cases ho
        exact hpre
      have hg : w.Grows ((OfficeCall.store o).handle cfg.rt w).2 := Office.grows_handle _ w
      have hdone : ∀ row' ∈ (o.run cfg.rt w.ledger).2.db.steps.rows, row'.status = .done →
          ∀ a, row'.attemptId = some a →
            ∃ row ∈ w.ledger.db.steps.rows, row.attemptId = some a ∧ row.status = .done := by
        intro row' hrow' hstatus a ha
        rcases hinv.doneOrigin hpre' hrow' hstatus ha with hold | ⟨taskId, stepId, x, attemptId, ho, -⟩
        · exact hold
        · cases ho
          cases hclient
      refine ⟨hinv.store hsha hpre ?_, fun q log hq => ?_⟩
      · rintro taskId d rfl
        cases hclient
      cases q with
      | worker s =>
          exact WorkerLink.kept hq hg fun row' hrow' hstatus ha => hdone row' hrow' hstatus _ ha
      | ticker =>
          refine TickerLink.kept hq hg rfl (fun row' hrow' hstatus a ha _ => hdone row' hrow' hstatus a ha) ?_
          intro taskId hknown hrows
          refine hinv.taskSpared hpre' (hknown.opened hinv) hrows ?_ fun row _ => OfficeCall.spares_of_client hclient
          rintro d hd
          cases hd
          cases hclient

/-- The link of a worker that has just been spawned. -/
theorem TickerLink.forks (cfg : OfficeConfig) (h : TickerLink log w)
    (hobeys : TickObeys cfg.concurrency staffOk log (.spawnStep s)) :
    WorkerLink s [] ((OfficeCall.spawnStep s).handle cfg.rt w).2 ∧
      ∀ q log', OfficeLink q log' w → OfficeApart (.worker s) q := by
  obtain ⟨task, step, hlaunch⟩ := hobeys
  obtain ⟨before, hlog⟩ := hlaunch.leased
  obtain ⟨-, hfree, hrows⟩ := h.leased before _ _ _ hlog
  have hg : w.Grows ((OfficeCall.spawnStep s).handle cfg.rt w).2 := Office.grows_handle _ w
  refine ⟨?_, fun q log' hq => ?_⟩
  · exact
      { spawned := List.mem_append_right _ (List.mem_singleton.2 rfl)
        task := by
          rw [hlaunch.taskId]
          exact (h.known task hlaunch.chosen.1).grows hg
        rows := fun _ _ _ hread => absurd hread List.not_mem_nil
        reads := fun _ _ _ hread => absurd hread List.not_mem_nil
        unsettled := fun _ => hrows }
  · cases q with
    | ticker =>
        exact trivial
    | worker s' =>
        exact fun hsame => hfree s' (WorkerLink.spawned hq) hsame.symm

/-- The office keeps its invariant and its links. -/
def officeSpec (cfg : OfficeConfig) (hsha : Function.Injective cfg.rt.sha256)
    (staffOk : List (String × String) → Prop) (allows : OfficePool → OfficeParty → OfficeCall → Prop) :
    Spec (officeSystem cfg staffOk allows) where
  Inv := Office.Inv cfg staffOk
  Link := OfficeLink
  Obeys := OfficeObeys cfg staffOk
  Plausible := Plausible staffOk
  Apart := OfficeApart
  apart_symm := by
    intro p q h
    cases p <;> cases q <;> first | exact h | exact Ne.symm h
  own := by
    intro p log w e hinv hlink hobeys
    refine ⟨plausible_handle hinv e, hlink.inv hinv hsha hobeys, ?_⟩
    cases p with
    | ticker =>
        exact TickerLink.asked hinv hlink hobeys
    | worker s =>
        exact WorkerLink.asked hinv hlink hobeys
  others := fun hinv hlink hobeys hapart hq => OfficeLink.others hinv hlink hobeys hapart hq
  outside := fun hinv hchange => Office.Changes.kept hsha hinv hchange
  starting := by
    rintro pool p prog - ⟨rfl, rfl, hfree⟩
    refine ⟨?_, fun q hq => ?_, tickerProg_follows cfg⟩
    · constructor
      · rintro task ⟨tasks, hread, -⟩
        cases hread
      · rintro task ⟨tasks, hread, -⟩
        cases hread
      · intro before taskId stepId a hlog
        simp at hlog
      · rintro - task ⟨tasks, hread, -⟩
        cases hread
    · cases hparty : q.party with
      | ticker =>
          exact hfree q hq hparty
      | worker s =>
          exact trivial
  forking := by
    intro p p' log w e prog hinv hlink hobeys hforks
    cases e with
    | spawnStep s =>
        cases hforks
        cases p with
        | ticker =>
            have hforked := TickerLink.forks cfg hlink hobeys
            exact ⟨hforked.1, hforked.2, stepWorker_follows cfg s⟩
        | worker s' =>
            cases hobeys
    | _ =>
        cases hforks

/-- In every run of the office the invariant holds and the logs are linked to the store. -/
theorem officeOk (hsha : Function.Injective cfg.rt.sha256) {allows : OfficePool → OfficeParty → OfficeCall → Prop}
    {pool : OfficePool} (h : (officeSystem cfg staffOk allows).Reach (officeInit staffOk) pool) :
    (officeSpec cfg hsha staffOk allows).PoolOk pool := by
  refine Spec.ok_of_reach ?_ h
  rintro - ⟨now, env, hstaff, rfl⟩
  refine ⟨?_, List.Pairwise.nil, by simp⟩
  exact
    { staff := hstaff
      ledger := .empty now
      drawn := by simp [Office.opening]
      reworks := by simp [Office.opening, Ledger.empty]
      handed := by simp [Office.opening] }

/-- The operation that a process issues next meets its precondition. -/
theorem pre_next (hsha : Function.Injective cfg.rt.sha256) {allows : OfficePool → OfficeParty → OfficeCall → Prop}
    {pool : OfficePool} (hok : (officeSpec cfg hsha staffOk allows).PoolOk pool)
    {q : Proc OfficeParty OfficeCall OfficeCall.Resp} (hq : q ∈ pool.procs) (hnext : q.next = some e) :
    ∀ o, e = .store o → o.Pre cfg.rt pool.world.ledger := by
  rintro o rfl
  obtain ⟨hinv, hlink, hobeys⟩ := hok.at_next hq hnext
  exact OfficeLink.pre hinv hlink hobeys

/-- A step of the office is a step of the store, or it leaves the store alone. -/
theorem ledger_step (hsha : Function.Injective cfg.rt.sha256) {allows : OfficePool → OfficeParty → OfficeCall → Prop}
    {pool pool' : OfficePool} (hok : (officeSpec cfg hsha staffOk allows).PoolOk pool)
    (hstep : (officeSystem cfg staffOk allows).Step pool pool') :
    pool'.world.ledger = pool.world.ledger ∨ Ledger.Step cfg.rt pool.world.ledger pool'.world.ledger := by
  cases hstep with
  | @run w before after p e k log hallowed =>
      by_cases hstore : ∃ o, e = .store o
      · obtain ⟨o, rfl⟩ := hstore
        exact .inr (.op o (pre_next hsha hok (q := ⟨p, .call (.store o) k, log⟩) (by simp) rfl o rfl))
      · push Not at hstore
        exact .inl (ledger_handle hstore)
  | start _ =>
      exact .inl rfl
  | leave =>
      exact .inl rfl
  | ext hchange =>
      cases hchange with
      | env env hstaff =>
          exact .inl rfl
      | time now =>
          exact .inr (.time now)
      | client o hclient hpre =>
          exact .inr (.op o hpre)

end Coupling

end ProjectManager
