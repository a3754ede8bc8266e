import ProjectManager.Lib.Chronicle
import ProjectManager.Office.RetryContract
import ProjectManager.Office.RetryTracker
import ProjectManager.Office.Spawns

/-!
# How often a step is started

A step is started when it is ready, and once more when its worker is taken for dead.  What carries the bound is an
invariant of each step (`Bounded`): a step that was started twice has its retry on the counter, or does not run, since
the counter is cleared only when the step has failed.  Between its snapshot and its calls a tick relies on what its log
says of the counters (`RetryLink`).
-/

namespace ProjectManager

open Process

/-! ### The invariant -/

/-- How many workers were started for a step. -/
def Office.spawnsOf (w : Office) (taskId stepId : String) : ℕ :=
  w.spawned.countP fun s => decide (s.taskId = taskId) && decide (s.stepId = stepId)

/-- No task that was handed out has a slash in its id. -/
def Office.Slashless (w : Office) : Prop :=
  ∀ taskId, w.Known taskId → '/' ∉ taskId.toList

/-- The step runs. -/
def Ledger.Runs (l : Ledger) (taskId stepId : String) : Prop :=
  stepId ∈ runningIds (l.db.stepsForTask taskId)

/-- The row of the step is there, and was claimed. -/
def Ledger.Claimed (l : Ledger) (taskId stepId : String) : Prop :=
  ∃ row ∈ l.db.steps.rows, row.taskId = taskId ∧ row.stepId = stepId ∧ row.attemptId ≠ none

/-- How the starts of a step are bounded. -/
structure Office.Bounded (w : Office) (taskId stepId : String) : Prop where
  few : w.spawnsOf taskId stepId ≤ 2
  known : 0 < w.spawnsOf taskId stepId → w.Known taskId
  claimed : 0 < w.spawnsOf taskId stepId → w.ledger.Claimed taskId stepId
  /-- a step that runs after two starts has its retry on the counter -/
  counted : 2 ≤ w.spawnsOf taskId stepId → w.ledger.Runs taskId stepId → 0 < w.retries (trackerKey taskId stepId)

/-- What the ticker's log says of the counters. -/
structure RetryLink (log : OfficeLog) (w : Office) : Prop where
  /-- a step that waits was never started -/
  waiting : ∀ task, Snap log task → ∀ step ∈ task.steps, step.status = .pending →
    Unspawned log task.id step.stepId → w.spawnsOf task.id step.stepId = 0
  running : ∀ task, Snap log task → ∀ step ∈ task.steps, step.status = .running → Uncleared log →
    2 ≤ w.spawnsOf task.id step.stepId → 0 < w.retries (retryKey task step)
  /-- the counter is as it was read -/
  read : Calm log → ∀ key retries, log.Has (.getRetries key) retries → w.retries key = retries
  /-- a retry that has been counted is the first one -/
  granted : ∀ task, Snap log task → ∀ step ∈ task.steps, ∀ count,
    log.Has (.setRetries (retryKey task step) (count + 1)) () → Unspawned log task.id step.stepId →
      w.spawnsOf task.id step.stepId ≤ 1 ∧ 0 < w.retries (retryKey task step)
  /-- a step that has just been claimed is there -/
  claimed : ∀ before taskId stepId a, log = before ++ [⟨.store (.reserveStep taskId stepId), .ok a⟩] →
    w.ledger.Claimed taskId stepId
  /-- a running step of the snapshot has its lease still -/
  held : Calm log → ∀ task, Snap log task → ∀ step ∈ task.steps, step.status = .running →
    ∃ row ∈ w.ledger.db.steps.rows, row.taskId = task.id ∧ row.stepId = step.stepId ∧ row.status ≠ .pending ∧
      row.attemptId = step.attemptId
  /-- a running step that has just been failed runs no longer -/
  failed : ∀ before written task step, Calm before → Snap before task → step ∈ task.steps → step.status = .running →
    log = before ++ [⟨.store (.markFailed task.id step.stepId step.attemptId), written⟩] →
      ¬ w.ledger.Runs task.id step.stepId

section Retries

variable {cfg : OfficeConfig} {staffOk : List (String × String) → Prop} {log : OfficeLog} {e : OfficeCall} {l : Ledger}
  {w w' : Office} {task : TeamTask} {step : TeamStep} {taskId stepId : String}

/-! ### What the calls do to the counts -/

theorem spawnsOf_handle (rt : Runtime) (e : OfficeCall) (w : Office) (taskId stepId : String) :
    (e.handle rt w).2.spawnsOf taskId stepId = w.spawnsOf taskId stepId + if e.spawns taskId stepId then 1 else 0 := by
  cases e with
  | spawnStep s =>
      simp only [OfficeCall.handle, Office.spawnsOf, List.countP_append, List.countP_singleton, OfficeCall.spawns]
      rfl
  | _ =>
      rfl

theorem spawnsOf_spared (rt : Runtime) (h : e.spawns taskId stepId = false) :
    (e.handle rt w).2.spawnsOf taskId stepId = w.spawnsOf taskId stepId := by
  rw [spawnsOf_handle, h]
  rfl

theorem retries_handle (rt : Runtime) (h : ∀ key count, e ≠ .setRetries key count) : (e.handle rt w).2.retries = w.retries := by
  cases e with
  | setRetries key count =>
      exact absurd rfl (h key count)
  | _ =>
      rfl

theorem Office.Slashless.before (h : w'.Slashless) (hg : w.Grows w') : w.Slashless :=
  fun taskId hknown => h taskId (hknown.grows hg)

/-! ### What the operations do to the rows -/

/-- A row that was claimed stays claimed. -/
theorem Ledger.Claimed.op {rt : Runtime} (h : l.Claimed taskId stepId) (hinv : l.Inv rt) {o : StoreOp} (hpre : o.Pre rt l) :
    (o.run rt l).2.Claimed taskId stepId := by
  obtain ⟨row, hrow, rfl, rfl, hclaimed⟩ := h
  obtain ⟨row', hrow', hident, hclaimed'⟩ := hinv.claimedKept hpre hrow hclaimed
  exact ⟨row', hrow', congrArg StepIdent.taskId hident, congrArg (fun i : StepIdent => i.stepId) hident, hclaimed'⟩

theorem Ledger.Claimed.handle (h : w.ledger.Claimed taskId stepId) (hinv : w.Inv cfg staffOk)
    (hpre : ∀ o, e = .store o → o.Pre cfg.rt w.ledger) : (e.handle cfg.rt w).2.ledger.Claimed taskId stepId := by
  by_cases hstore : ∃ o, e = .store o
  · obtain ⟨o, rfl⟩ := hstore
    exact h.op hinv.ledger (hpre o rfl)
  · push Not at hstore
    rwa [ledger_handle hstore]

/-- A started row keeps its lease unless it is claimed. -/
theorem Ledger.Inv.leaseKept {rt : Runtime} (hinv : l.Inv rt) {o : StoreOp} (hpre : o.Pre rt l)
    (hunclaimed : ∀ t i, o ≠ .reserveStep t i) {row : TeamStep} (hrow : row ∈ l.db.steps.rows) (hstarted : row.status ≠ .pending) :
    ∃ row' ∈ (o.run rt l).2.db.steps.rows, row'.toStepIdent = row.toStepIdent ∧ row'.status ≠ .pending ∧
      row'.attemptId = row.attemptId := by
  obtain ⟨row', hrow', hident, hmoves⟩ := hinv.rowKept hpre hrow hstarted
  refine ⟨row', hrow', hident, ?_⟩
  obtain ⟨hstatus, hattempt⟩ | ⟨t, i, rfl, -⟩ | ⟨_, _, status, _, _, rfl, -, hwritten, hattempt⟩ := hmoves
  · exact ⟨hstatus ▸ hstarted, hattempt⟩
  · exact absurd rfl (hunclaimed t i)
  · exact ⟨hwritten ▸ hpre.2, hattempt⟩

theorem claimed_reserved {a : AttemptId} (h : ((OfficeCall.store (.reserveStep taskId stepId)).handle cfg.rt w).1 = .ok a) :
    ((OfficeCall.store (.reserveStep taskId stepId)).handle cfg.rt w).2.ledger.Claimed taskId stepId := by
  simp only [OfficeCall.handle, StoreOp.run] at h ⊢
  split at h
  · cases h
  · rename_i row hget
    obtain ⟨hrow, htask, hid⟩ := Db.getStep_eq_some.1 hget
    refine ⟨Db.reserved w.ledger.nextAttempt w.ledger.clock defaultLeaseTtl row, ?_, htask, hid, by simp [Db.reserved]⟩
    exact List.mem_map.2 ⟨row, hrow, by simp [Db.isStep, htask, hid]⟩

/-- A step whose lease matches has failed after `mark_failed`. -/
theorem not_runs_failed {attemptId : Option AttemptId} {row : TeamStep} (hrow : row ∈ w.ledger.db.steps.rows)
    (htask : row.taskId = taskId) (hid : row.stepId = stepId) (hattempt : row.attemptId = attemptId) :
    ¬ ((OfficeCall.store (.markFailed taskId stepId attemptId)).handle cfg.rt w).2.ledger.Runs taskId stepId := by
  intro hruns
  obtain ⟨row', hrow', hrunning, hid'⟩ := mem_runningIds.1 hruns
  obtain ⟨hmem', htask'⟩ := Db.mem_stepsForTask.1 hrow'
  have hmatch : Db.isAttempt taskId stepId attemptId row = true := by
    subst hattempt
    cases hrowAttempt : row.attemptId <;> simp [Db.isAttempt, Db.isStep, htask, hid, hrowAttempt]
  obtain ⟨old, hold, hupdated⟩ := List.mem_map.1 hmem'
  by_cases hhit : Db.isAttempt taskId stepId attemptId old = true
  · rw [if_pos hhit] at hupdated
    rw [← hupdated] at hrunning
    cases hrunning
  · rw [if_neg hhit] at hupdated
    subst hupdated
    rw [Db.step_unique hold hrow (htask'.trans htask.symm) (hid'.trans hid.symm)] at hhit
    exact hhit hmatch

/-! ### What the log says -/

theorem Snap.earlier {r : e.Resp} (hlist : e ≠ .store .listDispatchable) (h : Snap (log ++ [⟨e, r⟩]) task) : Snap log task := by
  obtain h | ⟨_, -, rfl, -⟩ := h.of_append
  · exact h
  · exact absurd rfl hlist

theorem Calm.earlier {x : Σ e : OfficeCall, e.Resp} (h : Calm (log ++ [x])) : Calm log ∧ x.1.calm = true :=
  ⟨fun y hy => h y (List.mem_append_left _ hy), h x (by simp)⟩

theorem Unspawned.earlier {x : Σ e : OfficeCall, e.Resp} (h : Unspawned (log ++ [x]) taskId stepId) :
    Unspawned log taskId stepId ∧ x.1.spawns taskId stepId = false :=
  ⟨fun y hy => h y (List.mem_append_left _ hy), h x (by simp)⟩

theorem Uncleared.earlier {x : Σ e : OfficeCall, e.Resp} (h : Uncleared (log ++ [x])) : Uncleared log :=
  fun key hset => h key (List.mem_append_left _ hset)

/-- A counter is set once in a tick. -/
theorem Recount.fresh {count : ℕ} (h : Recount log task step count) (key : String) (n : ℕ) : ¬ log.Has (.setRetries key n) () := by
  cases h with
  | retry hcalm =>
      exact hcalm.uncounted key n
  | clear hcalm hlog =>
      intro hset
      rw [hlog] at hset
      obtain hset | ⟨heq, -⟩ := hset.of_append
      · exact hcalm.uncounted key n hset
      · cases heq

/-- A retry is counted only when the step was started at most once. -/
theorem RetryLink.few (h : RetryLink log w) (hsnap : Snap log task) (hstep : step ∈ task.steps) (hrunning : step.status = .running)
    {count : ℕ} (hrecount : Recount log task step (count + 1)) : w.spawnsOf task.id step.stepId ≤ 1 := by
  cases hrecount with
  | retry hcalm hread hfew =>
      have hzero : w.retries (retryKey task step) = count := h.read hcalm _ _ hread
      have hcounted := h.running task hsnap step hstep hrunning (hcalm.uncounted · 0)
      change count < 1 at hfew
      omega

/-- A step is started only when it was never, or was once and its retry is on the counter. -/
theorem RetryLink.room (h : RetryLink log w) (hsnaps : SnapLink log) {s : Spawn} (hobeys : RetryObeys log (.spawnStep s)) :
    w.spawnsOf s.taskId s.stepId = 0 ∨
      w.spawnsOf s.taskId s.stepId ≤ 1 ∧ 0 < w.retries (trackerKey s.taskId s.stepId) := by
  obtain ⟨hunspawned, task, step, hsnap, hstep, htask, hid, hdue⟩ := hobeys
  rw [htask, hid] at hunspawned ⊢
  cases hdue with
  | waits hpending =>
      exact .inl (h.waiting task hsnap step hstep hpending hunspawned)
  | retried hrunning hcounted =>
      exact .inr (h.granted task hsnap step hstep _ hcounted hunspawned)
  | approved hawaiting hgiven =>
      rw [hsnaps.ungated task hsnap step hstep] at hgiven
      cases hgiven

/-! ### The invariant is kept -/

theorem Office.Bounded.kept (h : w.Bounded taskId stepId) (hspawns : w'.spawnsOf taskId stepId = w.spawnsOf taskId stepId)
    (hretries : w'.retries = w.retries) (hg : w.Grows w')
    (hclaimed : w.ledger.Claimed taskId stepId → w'.ledger.Claimed taskId stepId)
    (hruns : w'.ledger.Runs taskId stepId → w.ledger.Runs taskId stepId) : w'.Bounded taskId stepId where
  few := hspawns ▸ h.few
  known := fun hsome => (h.known (hspawns ▸ hsome)).grows hg
  claimed := fun hsome => hclaimed (h.claimed (hspawns ▸ hsome))
  counted := fun htwice hrunning => hretries ▸ h.counted (hspawns ▸ htwice) (hruns hrunning)

/-- A start of the step. -/
theorem Office.Bounded.spawn (h : w.Bounded taskId stepId) (hlink : RetryLink log w) (hticker : TickerLink log w)
    (hsnaps : SnapLink log) {k : ℕ} {s : Spawn} (htick : TickObeys k staffOk log (.spawnStep s))
    (hobeys : RetryObeys log (.spawnStep s)) (htask : s.taskId = taskId) (hid : s.stepId = stepId) :
    ((OfficeCall.spawnStep s).handle cfg.rt w).2.Bounded taskId stepId := by
  subst htask hid
  have hone : ((OfficeCall.spawnStep s).handle cfg.rt w).2.spawnsOf s.taskId s.stepId = w.spawnsOf s.taskId s.stepId + 1 := by
    rw [spawnsOf_handle, if_pos (by simp [OfficeCall.spawns])]
  have hroom := hlink.room hsnaps hobeys
  obtain ⟨task, step, hlaunch⟩ := htick
  constructor
  · omega
  · intro _
    rw [hlaunch.taskId]
    exact (hticker.known task hlaunch.chosen.1).grows (Office.grows_handle _ w)
  · intro _
    obtain ⟨before, hlog⟩ := hlaunch.leased
    rw [hlaunch.taskId, hlaunch.stepId]
    exact hlink.claimed before _ _ _ hlog
  · intro htwice _
    change 0 < w.retries _
    omega

/-- A new count. -/
theorem Office.Bounded.recount (h : w.Bounded taskId stepId) (hlink : RetryLink log w) (hticker : TickerLink log w)
    (hslash : w.Slashless) {key : String} {count : ℕ} (hobeys : RetryObeys log (.setRetries key count)) :
    ((OfficeCall.setRetries key count).handle cfg.rt w).2.Bounded taskId stepId where
  few := h.few
  known := fun hsome => (h.known hsome).grows (Office.grows_handle (.setRetries key count) w)
  claimed := h.claimed
  counted := by
    intro htwice hruns
    change 2 ≤ w.spawnsOf taskId stepId at htwice
    change w.ledger.Runs taskId stepId at hruns
    change 0 < Function.update w.retries key count (trackerKey taskId stepId)
    obtain ⟨task, step, hsnap, hstep, hrunning, rfl, hrecount⟩ := hobeys
    rw [Function.update_apply]
    split
    · rename_i hkey
      obtain ⟨rfl, rfl⟩ := trackerKey_inj (hslash _ (h.known (by omega))) (hslash _ (hticker.known task hsnap)) hkey
      cases hrecount with
      | retry hcalm hread hfew =>
          exact Nat.succ_pos _
      | @clear before written hcalm hlog =>
          have hsnap' : Snap before task := by
            rw [hlog] at hsnap
            exact Snap.earlier (by rintro ⟨⟩) hsnap
          exact absurd hruns (hlink.failed before written task step hcalm hsnap' hstep hrunning hlog)
    · exact h.counted htwice hruns

/-- What the ticker claims was never started, or has its retry on the counter. -/
theorem RetryLink.claim (h : RetryLink log w) (hsnaps : SnapLink log) {k : ℕ}
    (htick : TickObeys k staffOk log (.store (.reserveStep taskId stepId)))
    (hobeys : RetryObeys log (.store (.reserveStep taskId stepId))) (htwice : 2 ≤ w.spawnsOf taskId stepId) :
    0 < w.retries (trackerKey taskId stepId) := by
  obtain ⟨huncleared, hunspawned⟩ := hobeys
  obtain ⟨task, step, hclaim, rfl, rfl⟩ := htick
  have hsnap := hclaim.picked.chosen.1
  have hstep := hclaim.picked.chosen.2.1
  by_cases hpending : step.status = .pending
  · have hnone := h.waiting task hsnap step hstep hpending hunspawned
    omega
  · obtain hrunning | ⟨-, id, hgated, -⟩ := hclaim.resumed hpending
    · exact h.running task hsnap step hstep hrunning huncleared htwice
    · rw [hsnaps.ungated task hsnap step hstep] at hgated
      cases hgated

/-- A call of the ticker. -/
theorem Office.Bounded.asked (h : w.Bounded taskId stepId) (hlink : RetryLink log w) (hinv : w.Inv cfg staffOk)
    (hticker : TickerLink log w) (hsnaps : SnapLink log) (hslash : w.Slashless)
    (htick : TickObeys cfg.concurrency staffOk log e) (hobeys : RetryObeys log e) :
    (e.handle cfg.rt w).2.Bounded taskId stepId := by
  have hpre : ∀ o, e = .store o → o.Pre cfg.rt w.ledger := by
    rintro o rfl
    exact hticker.pre hinv htick
  by_cases hspawns : e.spawns taskId stepId = true
  · unfold OfficeCall.spawns at hspawns
    split at hspawns
    · simp only [Bool.and_eq_true, decide_eq_true_eq] at hspawns
      exact h.spawn hlink hticker hsnaps htick hobeys hspawns.1 hspawns.2
    · cases hspawns
  by_cases hset : ∃ key count, e = .setRetries key count
  · obtain ⟨key, count, rfl⟩ := hset
    exact h.recount hlink hticker hslash hobeys
  push Not at hset
  have hsame := spawnsOf_spared cfg.rt (w := w) (Bool.not_eq_true _ ▸ hspawns)
  have hretries := retries_handle cfg.rt (w := w) hset
  constructor
  · exact hsame ▸ h.few
  · exact fun hsome => (h.known (hsame ▸ hsome)).grows (Office.grows_handle e w)
  · exact fun hsome => (h.claimed (hsame ▸ hsome)).handle hinv hpre
  · intro htwice hruns
    rw [hsame] at htwice
    rw [hretries]
    obtain hran | rfl := htick.running hinv hpre hruns
    · exact h.counted htwice hran
    · exact hlink.claim hsnaps htick hobeys htwice

/-! ### The link is kept -/

theorem not_snap_nil : ¬ Snap [] task := by
  rintro ⟨tasks, hread, -⟩
  cases hread

theorem RetryLink.nil : RetryLink [] w where
  waiting := fun task hsnap => absurd hsnap not_snap_nil
  running := fun task hsnap => absurd hsnap not_snap_nil
  read := fun _ key retries hread => absurd hread List.not_mem_nil
  granted := fun task hsnap => absurd hsnap not_snap_nil
  claimed := fun before taskId stepId a hlog => by simp at hlog
  held := fun _ task hsnap => absurd hsnap not_snap_nil
  failed := fun before written task step _ _ _ _ hlog => by simp at hlog

/-- What holds of the counters when the snapshot is taken. -/
theorem RetryLink.listed (hbounded : ∀ taskId stepId, w.Bounded taskId stepId) (hinv : w.Inv cfg staffOk) :
    RetryLink [⟨.store .listDispatchable, w.ledger.db.listDispatchable⟩]
      ((OfficeCall.store .listDispatchable).handle cfg.rt w).2 := by
  have hrow : ∀ task, Snap [⟨.store .listDispatchable, w.ledger.db.listDispatchable⟩] task → ∀ step ∈ task.steps,
      step ∈ w.ledger.db.stepsForTask task.id := by
    rintro task ⟨tasks, hread, htask⟩ step hstep
    cases List.mem_singleton.1 hread
    obtain ⟨-, -, hsteps⟩ := Db.get_eq_some.1 (Db.mem_listDispatchable.1 htask).1
    exact hsteps ▸ hstep
  constructor
  · intro task hsnap step hstep hpending _
    obtain ⟨hmem, htask⟩ := Db.mem_stepsForTask.1 (hrow task hsnap step hstep)
    by_contra hsome
    obtain ⟨row, hmem', htask', hid', hclaimed⟩ := (hbounded task.id step.stepId).claimed (Nat.pos_of_ne_zero hsome)
    obtain rfl := Db.step_unique hmem hmem' (htask.trans htask'.symm) hid'.symm
    exact hclaimed (hinv.ledger.tables.unstarted _ hmem hpending)
  · intro task hsnap step hstep hrunning _ htwice
    exact (hbounded task.id step.stepId).counted htwice
      (mem_runningIds.2 ⟨step, hrow task hsnap step hstep, hrunning, rfl⟩)
  · intro _ key retries hread
    cases List.mem_singleton.1 hread
  · intro task _ step _ count hcounted
    cases List.mem_singleton.1 hcounted
  · intro before taskId stepId a hlog
    cases before with
    | nil =>
        cases hlog
    | cons x before =>
        simp at hlog
  · intro _ task hsnap step hstep hrunning
    obtain ⟨hmem, htask⟩ := Db.mem_stepsForTask.1 (hrow task hsnap step hstep)
    exact ⟨step, hmem, htask, rfl, by simp [hrunning], rfl⟩
  · intro before written task step _ _ _ _ hlog
    cases before with
    | nil =>
        cases hlog
    | cons x before =>
        simp at hlog

/-- A counter is zero again only when it is cleared. -/
theorem retries_set {key : String} (hset : ∀ count, e = .setRetries key count → 0 < count) (h : 0 < w.retries key) :
    0 < (e.handle cfg.rt w).2.retries key := by
  by_cases hcounts : ∃ key' count', e = .setRetries key' count'
  · obtain ⟨key', count', rfl⟩ := hcounts
    change 0 < Function.update w.retries key' count' key
    rw [Function.update_apply]
    split
    · rename_i hkey
      subst hkey
      exact hset count' rfl
    · exact h
  · push Not at hcounts
    rwa [retries_handle cfg.rt hcounts]

theorem RetryLink.asked_waiting (h : RetryLink log w) (hlist : e ≠ .store .listDispatchable) {r : e.Resp}
    (hsnap : Snap (log ++ [⟨e, r⟩]) task) (hstep : step ∈ task.steps) (hpending : step.status = .pending)
    (hunspawned : Unspawned (log ++ [⟨e, r⟩]) task.id step.stepId) :
    (e.handle cfg.rt w).2.spawnsOf task.id step.stepId = 0 := by
  rw [spawnsOf_spared cfg.rt hunspawned.earlier.2]
  exact h.waiting task (hsnap.earlier hlist) step hstep hpending hunspawned.earlier.1

theorem RetryLink.asked_running (h : RetryLink log w) (hsnaps : SnapLink log) (hobeys : RetryObeys log e)
    (hlist : e ≠ .store .listDispatchable) {r : e.Resp} (hsnap : Snap (log ++ [⟨e, r⟩]) task) (hstep : step ∈ task.steps)
    (hrunning : step.status = .running) (huncleared : Uncleared (log ++ [⟨e, r⟩]))
    (htwice : 2 ≤ (e.handle cfg.rt w).2.spawnsOf task.id step.stepId) :
    0 < (e.handle cfg.rt w).2.retries (retryKey task step) := by
  have hcount : ∀ count, e = .setRetries (retryKey task step) count → 0 < count := by
    rintro count rfl
    by_contra hzero
    obtain rfl : count = 0 := by omega
    exact huncleared _ (Log.has_last log _ r)
  refine retries_set hcount ?_
  by_cases hspawns : e.spawns task.id step.stepId = true
  · -- the start of a step that was started before: its retry is on the counter
    rw [spawnsOf_handle, if_pos hspawns] at htwice
    unfold OfficeCall.spawns at hspawns
    split at hspawns
    · rename_i s
      simp only [Bool.and_eq_true, decide_eq_true_eq] at hspawns
      have hroom := h.room hsnaps hobeys
      rw [hspawns.1, hspawns.2] at hroom
      obtain hnone | ⟨-, hcounted⟩ := hroom
      · omega
      · exact hcounted
    · cases hspawns
  · rw [spawnsOf_spared cfg.rt (Bool.not_eq_true _ ▸ hspawns)] at htwice
    exact h.running task (hsnap.earlier hlist) step hstep hrunning huncleared.earlier htwice

theorem RetryLink.asked_read (h : RetryLink log w) {key : String} {retries : ℕ}
    (hcalm : Calm (log ++ [⟨e, (e.handle cfg.rt w).1⟩]))
    (hread : Log.Has (log ++ [⟨e, (e.handle cfg.rt w).1⟩]) (.getRetries key) retries) :
    (e.handle cfg.rt w).2.retries key = retries := by
  obtain ⟨hcalm', hlast⟩ := hcalm.earlier
  have hsame : (e.handle cfg.rt w).2.retries = w.retries := by
    refine retries_handle cfg.rt ?_
    rintro key' count rfl
    cases hlast
  rw [hsame]
  obtain hread | ⟨rfl, hanswer⟩ := hread.of_append
  · exact h.read hcalm' key retries hread
  · exact hanswer

theorem RetryLink.asked_granted (h : RetryLink log w) (hticker : TickerLink log w) (hslash : w.Slashless)
    (hobeys : RetryObeys log e) (hlist : e ≠ .store .listDispatchable) {r : e.Resp} (hsnap : Snap (log ++ [⟨e, r⟩]) task)
    (hstep : step ∈ task.steps) {count : ℕ}
    (hcounted : Log.Has (log ++ [⟨e, r⟩]) (.setRetries (retryKey task step) (count + 1)) ())
    (hunspawned : Unspawned (log ++ [⟨e, r⟩]) task.id step.stepId) :
    (e.handle cfg.rt w).2.spawnsOf task.id step.stepId ≤ 1 ∧ 0 < (e.handle cfg.rt w).2.retries (retryKey task step) := by
  rw [spawnsOf_spared cfg.rt hunspawned.earlier.2]
  obtain hbefore | ⟨rfl, -⟩ := hcounted.of_append
  · obtain ⟨hfew, hkept⟩ := h.granted task (hsnap.earlier hlist) step hstep count hbefore hunspawned.earlier.1
    refine ⟨hfew, retries_set ?_ hkept⟩
    rintro n rfl
    obtain ⟨task', step', -, -, -, -, hrecount⟩ := hobeys
    exact absurd hbefore (hrecount.fresh _ _)
  · obtain ⟨task', step', hsnap', hstep', hrunning', hkey, hrecount⟩ := hobeys
    have hsnap := hsnap.earlier hlist
    obtain ⟨htask, hid⟩ := trackerKey_inj (hslash _ (hticker.known task hsnap)) (hslash _ (hticker.known task' hsnap')) hkey
    rw [htask, hid]
    refine ⟨h.few hsnap' hstep' hrunning' hrecount, ?_⟩
    change 0 < Function.update w.retries (retryKey task step) (count + 1) _
    simp [hkey]

theorem RetryLink.asked_held (h : RetryLink log w) (hinv : w.Inv cfg staffOk)
    (hpre : ∀ o, e = .store o → o.Pre cfg.rt w.ledger) (hlist : e ≠ .store .listDispatchable) {r : e.Resp}
    (hcalm : Calm (log ++ [⟨e, r⟩])) (hsnap : Snap (log ++ [⟨e, r⟩]) task) (hstep : step ∈ task.steps)
    (hrunning : step.status = .running) : ∃ row ∈ (e.handle cfg.rt w).2.ledger.db.steps.rows, row.taskId = task.id ∧
      row.stepId = step.stepId ∧ row.status ≠ .pending ∧ row.attemptId = step.attemptId := by
  obtain ⟨hcalm', hlast⟩ := hcalm.earlier
  obtain ⟨row, hrow, htask, hid, hstarted, hattempt⟩ := h.held hcalm' task (hsnap.earlier hlist) step hstep hrunning
  by_cases hstore : ∃ o, e = .store o
  · obtain ⟨o, rfl⟩ := hstore
    obtain ⟨row', hrow', hident, hstarted', hattempt'⟩ := hinv.ledger.leaseKept (hpre o rfl) (by
      rintro t i rfl
      cases hlast) hrow hstarted
    refine ⟨row', hrow', ?_, ?_, hstarted', hattempt'.trans hattempt⟩
    · exact (congrArg StepIdent.taskId hident).trans htask
    · exact (congrArg (fun i : StepIdent => i.stepId) hident).trans hid
  · push Not at hstore
    rw [ledger_handle hstore]
    exact ⟨row, hrow, htask, hid, hstarted, hattempt⟩

/-- The ticker's own call keeps its link. -/
theorem RetryLink.asked (h : RetryLink log w) (hbounded : ∀ taskId stepId, w.Bounded taskId stepId)
    (hinv : w.Inv cfg staffOk) (hticker : TickerLink log w) (hsnaps : SnapLink log) (hslash : w.Slashless)
    (htick : TickObeys cfg.concurrency staffOk log e) (hobeys : RetryObeys log e) :
    RetryLink (log ++ [⟨e, (e.handle cfg.rt w).1⟩]) (e.handle cfg.rt w).2 := by
  by_cases hlist : e = .store .listDispatchable
  · subst hlist
    obtain rfl : log = [] := htick
    exact .listed hbounded hinv
  have hpre : ∀ o, e = .store o → o.Pre cfg.rt w.ledger := by
    rintro o rfl
    exact hticker.pre hinv htick
  constructor
  · intro task hsnap step hstep hpending hunspawned
    exact h.asked_waiting hlist hsnap hstep hpending hunspawned
  · intro task hsnap step hstep hrunning huncleared htwice
    exact h.asked_running hsnaps hobeys hlist hsnap hstep hrunning huncleared htwice
  · intro hcalm key retries hread
    exact h.asked_read hcalm hread
  · intro task hsnap step hstep count hcounted hunspawned
    exact h.asked_granted hticker hslash hobeys hlist hsnap hstep hcounted hunspawned
  · intro before taskId stepId a hlog
    obtain ⟨-, hlast⟩ := List.append_inj' hlog rfl
    simp only [List.cons.injEq, and_true, Sigma.mk.injEq] at hlast
    obtain ⟨rfl, hanswer⟩ := hlast
    exact claimed_reserved (eq_of_heq hanswer)
  · intro hcalm task hsnap step hstep hrunning
    exact h.asked_held hinv hpre hlist hcalm hsnap hstep hrunning
  · intro before written task step hcalm hsnap hstep hrunning hlog
    obtain ⟨rfl, hlast⟩ := List.append_inj' hlog rfl
    obtain rfl : e = .store (.markFailed task.id step.stepId step.attemptId) := congrArg Sigma.fst (List.cons.inj hlast).1
    obtain ⟨row, hrow, htask, hid, -, hattempt⟩ := h.held hcalm task hsnap step hstep hrunning
    exact not_runs_failed hrow htask hid hattempt

/-- An operation from elsewhere keeps the link. -/
theorem RetryLink.others (h : RetryLink log w) (hinv : w.Inv cfg staffOk) {o : StoreOp} (hpre : o.Pre cfg.rt w.ledger)
    (helse : w.Elsewhere o) : RetryLink log ((OfficeCall.store o).handle cfg.rt w).2 where
  waiting := h.waiting
  running := h.running
  read := h.read
  granted := h.granted
  claimed := fun before taskId stepId a hlog => (h.claimed before taskId stepId a hlog).op hinv.ledger hpre
  held := by
    intro hcalm task hsnap step hstep hrunning
    obtain ⟨row, hrow, htask, hid, hstarted, hattempt⟩ := h.held hcalm task hsnap step hstep hrunning
    obtain ⟨row', hrow', hident, hstarted', hattempt'⟩ := hinv.ledger.leaseKept hpre helse.claims_none hrow hstarted
    refine ⟨row', hrow', ?_, ?_, hstarted', hattempt'.trans hattempt⟩
    · exact (congrArg StepIdent.taskId hident).trans htask
    · exact (congrArg (fun i : StepIdent => i.stepId) hident).trans hid
  failed := by
    intro before written task step hcalm hsnap hstep hrunning hlog hruns
    exact h.failed before written task step hcalm hsnap hstep hrunning hlog (helse.running hinv hpre task.id hruns)

theorem Office.spawnsOf_congr (hspawned : w'.spawned = w.spawned) (taskId stepId : String) :
    w'.spawnsOf taskId stepId = w.spawnsOf taskId stepId := by
  rw [Office.spawnsOf, Office.spawnsOf, hspawned]

/-- What is neither a start, nor a count, nor a row, does not matter to the link. -/
theorem RetryLink.undisturbed (h : RetryLink log w) (hspawned : w'.spawned = w.spawned) (hretries : w'.retries = w.retries)
    (hdb : w'.ledger.db = w.ledger.db) : RetryLink log w' := by
  have hspawns := Office.spawnsOf_congr hspawned
  constructor
  · intro task hsnap step hstep hpending hunspawned
    rw [hspawns]
    exact h.waiting task hsnap step hstep hpending hunspawned
  · intro task hsnap step hstep hrunning huncleared htwice
    rw [hspawns] at htwice
    rw [hretries]
    exact h.running task hsnap step hstep hrunning huncleared htwice
  · intro hcalm key retries hread
    rw [hretries]
    exact h.read hcalm key retries hread
  · intro task hsnap step hstep count hcounted hunspawned
    rw [hspawns, hretries]
    exact h.granted task hsnap step hstep count hcounted hunspawned
  · intro before taskId stepId a hlog
    rw [Ledger.Claimed, hdb]
    exact h.claimed before taskId stepId a hlog
  · intro hcalm task hsnap step hstep hrunning
    rw [hdb]
    exact h.held hcalm task hsnap step hstep hrunning
  · intro before written task step hcalm hsnap hstep hrunning hlog
    rw [Ledger.Runs, hdb]
    exact h.failed before written task step hcalm hsnap hstep hrunning hlog

theorem Office.Bounded.undisturbed (h : w.Bounded taskId stepId) (hspawned : w'.spawned = w.spawned)
    (hretries : w'.retries = w.retries) (hdb : w'.ledger.db = w.ledger.db) (hg : w.Grows w') : w'.Bounded taskId stepId := by
  refine h.kept (Office.spawnsOf_congr hspawned taskId stepId) hretries hg ?_ ?_
  · rw [Ledger.Claimed, Ledger.Claimed, hdb]
    exact id
  · rw [Ledger.Runs, Ledger.Runs, hdb]
    exact id

/-- An operation from elsewhere. -/
theorem Office.Bounded.others (h : w.Bounded taskId stepId) (hinv : w.Inv cfg staffOk) {o : StoreOp}
    (hpre : o.Pre cfg.rt w.ledger) (helse : w.Elsewhere o) :
    ((OfficeCall.store o).handle cfg.rt w).2.Bounded taskId stepId := by
  refine h.kept rfl rfl (Office.grows_handle (.store o) w) ?_ ?_
  · exact fun hclaimed => hclaimed.op hinv.ledger hpre
  · exact fun hruns => helse.running hinv hpre taskId hruns

end Retries

end ProjectManager
