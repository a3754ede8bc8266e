import ProjectManager.Office.Final

/-!
# Superseded leases

A lease that a step has lost never comes back (`Superseded.step`).  The worker that still holds it cannot
write the row under its guard, but its heartbeats carry no guard: `superseded_harmless_iff` says that its
calls leave the row and the task's total alone exactly when they are no heartbeats, or heartbeats that
repeat what the row already shows.
-/

namespace ProjectManager

open Process

/-- The step of the worker does not carry the worker's lease. -/
def Superseded (s : Spawn) (w : Office) : Prop :=
  ∀ row ∈ w.ledger.db.steps.rows, row.taskId = s.taskId → row.stepId = s.stepId → row.attemptId ≠ some s.attemptId

/-- The call leaves the row as it is in every column, and the rows of all tasks. -/
def Untouched (rt : Runtime) (e : OfficeCall) (w : Office) (row : TeamStep) : Prop :=
  row ∈ (e.handle rt w).2.ledger.db.steps.rows ∧ (e.handle rt w).2.ledger.db.tasks.rows = w.ledger.db.tasks.rows

section Leases

variable {cfg : OfficeConfig} {staffOk : List (String × String) → Prop} {pool pool' : OfficePool} {s : Spawn}
  {w : Office} {log : OfficeLog} {e : OfficeCall} {allows : OfficePool → OfficeParty → OfficeCall → Prop}

/-! ### A lost lease -/

/-- The lease of a row after an operation: it was there before, or it is new. -/
theorem Ledger.Inv.leaseOrigin {rt : Runtime} {l : Ledger} (h : l.Inv rt) {o : StoreOp} (hpre : o.Pre rt l) {row' : TeamStep}
    (hrow' : row' ∈ (o.run rt l).2.db.steps.rows) {a : AttemptId} (ha : row'.attemptId = some a) :
    (∃ row ∈ l.db.steps.rows, row.toStepIdent = row'.toStepIdent ∧ row.attemptId = some a) ∨
      ∃ stepId, o = .reserveStep row'.taskId stepId ∧ row'.stepId = stepId ∧ a = l.nextAttempt := by
  rcases h.rowOrigin hpre hrow' with ⟨row, hrow, hident, hmoves⟩ | ⟨-, hnone⟩
  · rcases hmoves with ⟨-, hattempt⟩ | ⟨taskId, stepId, rfl, htask, hid, -, hattempt⟩ | ⟨_, _, _, _, _, -, -, -, hattempt⟩
    · exact .inl ⟨row, hrow, hident.symm, hattempt ▸ ha⟩
    · rw [hattempt] at ha
      refine .inr ⟨stepId, ?_, ?_, (Option.some.inj ha).symm⟩
      · rw [congrArg StepIdent.taskId hident, htask]
      · rw [congrArg (fun i : StepIdent => i.stepId) hident, hid]
    · exact .inl ⟨row, hrow, hident.symm, hattempt ▸ ha⟩
  · rw [hnone] at ha
    cases ha

/-- A lease that is lost stays lost. -/
theorem Superseded.step (hsha : Function.Injective cfg.rt.sha256) (h : Superseded s pool.world)
    (hspawned : s ∈ pool.world.spawned) (hok : (officeSpec cfg hsha staffOk allows).PoolOk pool)
    (hstep : (officeSystem cfg staffOk allows).Step pool pool') : Superseded s pool'.world := by
  intro row' hrow' htask hid ha
  have hinv : pool.world.Inv cfg staffOk := hok.inv
  rcases ledger_step hsha hok hstep with hsame | hmoved
  · rw [hsame] at hrow'
    exact h row' hrow' htask hid ha
  generalize pool'.world.ledger = l' at hmoved hrow'
  cases hmoved with
  | op o hpre =>
      rcases hinv.ledger.leaseOrigin hpre hrow' ha with ⟨row, hrow, hident, ha'⟩ | ⟨_, -, -, hnext⟩
      · refine h row hrow ?_ ?_ ha'
        · rw [congrArg StepIdent.taskId hident, htask]
        · rw [congrArg (fun i : StepIdent => i.stepId) hident, hid]
      · exact absurd hnext (hinv.drawn s hspawned).ne
  | time now =>
      exact h row' hrow' htask hid ha

/-- Workers are never forgotten. -/
theorem spawned_step (hstep : (officeSystem cfg staffOk allows).Step pool pool') (hspawned : s ∈ pool.world.spawned) :
    s ∈ pool'.world.spawned := by
  cases hstep with
  | @run w before after p e k log hallowed =>
      exact (Office.grows_handle e w).spawned s hspawned
  | start _ =>
      exact hspawned
  | leave =>
      exact hspawned
  | ext hchange =>
      cases hchange <;> exact hspawned

/-! ### What the worker can still do -/

/-- A guarded write under a lost lease writes nothing. -/
theorem Superseded.setStepStatus (h : Superseded s w) (status : StepStatus) (x : Db.StatusExtras) {row : TeamStep}
    (hrow : row ∈ w.ledger.db.steps.rows) :
    Untouched cfg.rt (.store (.setStepStatus s.taskId s.stepId status x (some s.attemptId))) w row := by
  have hnone : ∀ r ∈ w.ledger.db.steps.rows, Db.isAttempt s.taskId s.stepId (some s.attemptId) r = false := by
    intro r hr
    by_contra hmatch
    simp only [Db.isAttempt, Db.isStep, Bool.not_eq_false, Bool.and_eq_true, decide_eq_true_eq] at hmatch
    exact h r hr hmatch.1.1 hmatch.1.2 (by simpa using hmatch.2)
  constructor
  · show row ∈ (w.ledger.db.setStepStatus s.taskId s.stepId status x (some s.attemptId)).2.steps.rows
    rw [Db.setStepStatus_rows, List.mem_map]
    exact ⟨row, hrow, by simp [hnone row hrow]⟩
  · have hwritten : w.ledger.db.steps.rows.any (Db.isAttempt s.taskId s.stepId (some s.attemptId)) = false := by
      rw [List.any_eq_false]
      intro r hr
      simp [hnone r hr]
    show w.ledger.db.tasks.rows.map (fun task => if (w.ledger.db.steps.rows.any
      (Db.isAttempt s.taskId s.stepId (some s.attemptId)) && decide (task.id = s.taskId)) = true then _ else task) = _
    simp [hwritten]

/-- A heartbeat rewrites two columns of the row, whatever its lease. -/
theorem heartbeat_untouched_iff {row : TeamStep} (hrow : row ∈ w.ledger.db.steps.rows) :
    Untouched cfg.rt (.store (.heartbeat row.taskId row.stepId)) w row ↔
      row.lastSeen = some w.ledger.clock ∧ row.leaseExpiresAt = some (w.ledger.clock + defaultLeaseTtl) := by
  have hrows : ((OfficeCall.store (.heartbeat row.taskId row.stepId)).handle cfg.rt w).2.ledger.db.steps.rows =
      w.ledger.db.steps.rows.map fun r => if Db.isStep row.taskId row.stepId r then
        { r with lastSeen := some w.ledger.clock, leaseExpiresAt := some (w.ledger.clock + defaultLeaseTtl) } else r := rfl
  have hself : Db.isStep row.taskId row.stepId row = true := by simp [Db.isStep]
  unfold Untouched
  rw [hrows, List.mem_map]
  constructor
  · rintro ⟨⟨r, hr, hsame⟩, -⟩
    split at hsame
    · rw [← hsame]
      exact ⟨rfl, rfl⟩
    · rename_i hother
      rw [hsame] at hother
      exact absurd hself hother
  · rintro ⟨hseen, hlease⟩
    refine ⟨⟨row, hrow, ?_⟩, rfl⟩
    rw [if_pos hself, ← hseen, ← hlease]

/-- The calls of a worker whose lease is lost, one by one. -/
theorem Superseded.untouched_iff (h : Superseded s w) (hobeys : WorkerObeys s log e) {row : TeamStep}
    (hrow : row ∈ w.ledger.db.steps.rows) (htask : row.taskId = s.taskId) (hid : row.stepId = s.stepId) :
    Untouched cfg.rt e w row ↔ (e = .store (.heartbeat s.taskId s.stepId) →
      row.lastSeen = some w.ledger.clock ∧ row.leaseExpiresAt = some (w.ledger.clock + defaultLeaseTtl)) := by
  have hkept : e ≠ .store (.heartbeat s.taskId s.stepId) → Untouched cfg.rt e w row → (Untouched cfg.rt e w row ↔
      (e = .store (.heartbeat s.taskId s.stepId) →
        row.lastSeen = some w.ledger.clock ∧ row.leaseExpiresAt = some (w.ledger.clock + defaultLeaseTtl))) :=
    fun hother hsame => iff_of_true hsame fun heq => absurd heq hother
  cases e with
  | store o =>
      cases o with
      | setStepStatus taskId stepId status x attemptId =>
          obtain ⟨rfl, rfl, rfl, -⟩ := hobeys
          exact hkept (by simp) (h.setStepStatus status x hrow)
      | heartbeat taskId stepId =>
          by_cases hown : taskId = s.taskId ∧ stepId = s.stepId
          · obtain ⟨rfl, rfl⟩ := hown
            simp only [forall_const]
            rw [← htask, ← hid]
            exact heartbeat_untouched_iff hrow
          · refine hkept ?_ ⟨?_, rfl⟩
            · intro heq
              cases heq
              exact hown ⟨rfl, rfl⟩
            · refine List.mem_map.2 ⟨row, hrow, ?_⟩
              have hother : Db.isStep taskId stepId row = false := by
                simp only [Db.isStep, htask, hid, Bool.and_eq_false_iff, decide_eq_false_iff_not]
                by_cases htask' : s.taskId = taskId
                · exact .inr fun hid' => hown ⟨htask'.symm, hid'.symm⟩
                · exact .inl htask'
              simp [hother]
      | get taskId =>
          exact hkept (by simp) ⟨hrow, rfl⟩
      | getStep taskId stepId =>
          exact hkept (by simp) ⟨hrow, rfl⟩
      | verifyAttempt taskId stepId attemptId =>
          exact hkept (by simp) ⟨hrow, rfl⟩
      | _ =>
          cases hobeys
  | _ =>
      exact hkept (by simp) ⟨hrow, rfl⟩

/-- Once a step has lost the lease of a worker, at any later time a call of that worker leaves every column
of the row and the total of its task alone, exactly when the call is no heartbeat or one that repeats what
the row shows. -/
theorem superseded_harmless_iff (hsha : Function.Injective cfg.rt.sha256)
    (hreach : (officeSystem cfg staffOk anyCall).Reach (officeInit staffOk) pool)
    (hrun : (officeSystem cfg staffOk anyCall).Reach (fun q => q = pool) pool') (hspawned : s ∈ pool.world.spawned)
    (hlost : Superseded s pool.world) {q : Proc OfficeParty OfficeCall OfficeCall.Resp} (hq : q ∈ pool'.procs)
    (hparty : q.party = .worker s) (hnext : q.next = some e) {row : TeamStep}
    (hrow : row ∈ pool'.world.ledger.db.steps.rows) (htask : row.taskId = s.taskId) (hid : row.stepId = s.stepId) :
    Untouched cfg.rt e pool'.world row ↔ (e = .store (.heartbeat s.taskId s.stepId) →
      row.lastSeen = some pool'.world.ledger.clock ∧
        row.leaseExpiresAt = some (pool'.world.ledger.clock + defaultLeaseTtl)) := by
  have hlater : Superseded s pool'.world ∧ s ∈ pool'.world.spawned := by
    clear hq hparty hnext hrow
    induction hrun with
    | init heq =>
        rw [heq]
        exact ⟨hlost, hspawned⟩
    | step hpool hstep ih =>
        exact ⟨ih.1.step hsha ih.2 (officeOk hsha (hreach.trans hpool)) hstep, spawned_step hstep ih.2⟩
  obtain ⟨-, -, hobeys⟩ := (officeOk hsha (hreach.trans hrun)).at_next hq hnext
  rw [hparty] at hobeys
  exact hlater.1.untouched_iff hobeys hrow htask hid

end Leases

/-! ### A heartbeat under a lost lease -/

/-- The process of a step is taken for dead while it runs: its step is claimed again and a second worker
started. -/
def zombieActs : List OfficeAct :=
  [.start, .call 0 100, .leave 0, .call 0 3, .start, .call 1 100, .leave 1]

/-- The first worker has lost its lease and is about to heartbeat. -/
def zombiePool : OfficePool :=
  sampleRun sampleConfig anyStaff zombieActs oneStepPool

theorem zombiePool_reach : (officeSystem sampleConfig anyStaff anyCall).Reach (officeInit anyStaff) zombiePool :=
  reach_sampleRun _ (reach_confirmed Ledger.samplePlan trivial)

/-- The worker that lost its lease. -/
def zombie : Spawn :=
  ⟨"t", "s1", "dev", 1⟩

/-- The same moment, five seconds later. -/
def zombieLater : OfficePool :=
  ⟨{ zombiePool.world with ledger := { zombiePool.world.ledger with clock := 5 } }, zombiePool.procs⟩

theorem zombie_superseded : Superseded zombie zombiePool.world := by
  unfold Superseded
  decide +kernel

/-- The first worker, the heartbeat it is about to send, and the row of its step. -/
theorem zombie_next : ∃ q ∈ zombiePool.procs, q.party = .worker zombie ∧
    q.next = some (.store (.heartbeat zombie.taskId zombie.stepId)) ∧
      ∃ row ∈ zombiePool.world.ledger.db.steps.rows, row.taskId = zombie.taskId ∧ row.stepId = zombie.stepId ∧
        row.lastSeen = some 0 ∧ row.leaseExpiresAt = some defaultLeaseTtl := by
  decide +kernel

/-- At the same moment the heartbeat repeats what the row shows, and leaves it alone. -/
theorem superseded_harmless_iff_repeated :
    ∃ row ∈ zombiePool.world.ledger.db.steps.rows, row.attemptId ≠ some zombie.attemptId ∧
      Untouched sampleConfig.rt (.store (.heartbeat zombie.taskId zombie.stepId)) zombiePool.world row := by
  obtain ⟨q, hq, hparty, hnext, row, hrow, htask, hid, hseen, hlease⟩ := zombie_next
  have hclock : zombiePool.world.ledger.clock = 0 := by decide +kernel
  refine ⟨row, hrow, zombie_superseded row hrow htask hid, ?_⟩
  refine (superseded_harmless_iff Function.injective_id zombiePool_reach (.init rfl) (by decide +kernel)
    zombie_superseded hq hparty hnext hrow htask hid).2 fun _ => ?_
  rw [hclock, hseen, hlease]
  exact ⟨rfl, rfl⟩

/-- Five seconds later it renews the lease of the second worker. -/
theorem zombie_heartbeats :
    ¬ ∀ pool pool', (officeSystem sampleConfig anyStaff anyCall).Reach (officeInit anyStaff) pool →
      (officeSystem sampleConfig anyStaff anyCall).Reach (fun q => q = pool) pool' →
      ∀ s ∈ pool.world.spawned, Superseded s pool.world → ∀ q ∈ pool'.procs, q.party = .worker s →
        ∀ e, q.next = some e → ∀ row ∈ pool'.world.ledger.db.steps.rows, row.taskId = s.taskId →
          row.stepId = s.stepId → Untouched sampleConfig.rt e pool'.world row := by
  intro hclaim
  obtain ⟨q, hq, hparty, hnext, row, hrow, htask, hid, hseen, -⟩ := zombie_next
  have hlater : (officeSystem sampleConfig anyStaff anyCall).Reach (fun q => q = zombiePool) zombieLater :=
    .step (.init rfl) (.ext (.time 5))
  have hsame := hclaim zombiePool zombieLater zombiePool_reach hlater zombie (by decide +kernel) zombie_superseded q hq
    hparty _ hnext row hrow htask hid
  rw [← htask, ← hid] at hsame
  have hnow := ((heartbeat_untouched_iff (w := zombieLater.world) hrow).1 hsame).1
  rw [hseen] at hnow
  cases hnow

end ProjectManager
