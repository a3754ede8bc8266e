import ProjectManager.Office.Final
import ProjectManager.Store.Costs

/-!
# What a task has cost

`Billed` follows a run and keeps the bill of one task: every accepted status write that carries a cost, and
every cost recorded for the task itself.  As long as no write replaces the cost of a step that has already been
paid for, `sum_cost` is the total of the task row and both are the bill (`sumCost_eq_bill`).  A step that is
finished twice breaks this (`race_bills_twice`).
-/

namespace ProjectManager

open Process

/-- What a call charges to a task. -/
def OfficeCall.charge (w : Office) (taskId : String) : OfficeCall → ℚ
  | .store o => w.ledger.charge taskId o
  | _ => 0

/-- Runs with the bill of one task. -/
inductive Billed (cfg : OfficeConfig) (staffOk : List (String × String) → Prop)
    (allows : OfficePool → OfficeParty → OfficeCall → Prop) (taskId : String) : OfficePool → ℚ → Prop where
  | init {pool : OfficePool} (h : officeInit staffOk pool) : Billed cfg staffOk allows taskId pool 0
  | run {w : Office} {before after : List (Proc OfficeParty OfficeCall OfficeCall.Resp)} {p : OfficeParty}
      {e : OfficeCall} {k : e.Resp → OfficeProg Unit} {log : OfficeLog} {bill : ℚ}
      (h : Billed cfg staffOk allows taskId ⟨w, before ++ ⟨p, .call e k, log⟩ :: after⟩ bill)
      (allowed : allows ⟨w, before ++ ⟨p, .call e k, log⟩ :: after⟩ p e) :
      Billed cfg staffOk allows taskId
        ⟨(e.handle cfg.rt w).2,
          before ++ ⟨p, k (e.handle cfg.rt w).1, log ++ [⟨e, (e.handle cfg.rt w).1⟩]⟩ :: after ++
            ((officeForks cfg e).map System.fresh).toList⟩ (bill + e.charge w taskId)
  | start {pool : OfficePool} {bill : ℚ} (h : Billed cfg staffOk allows taskId pool bill)
      (hfree : ∀ q ∈ pool.procs, q.party ≠ .ticker) :
      Billed cfg staffOk allows taskId ⟨pool.world, pool.procs ++ [System.fresh (.ticker, tickerProg cfg)]⟩ bill
  | leave {w : Office} {before after : List (Proc OfficeParty OfficeCall OfficeCall.Resp)}
      {p : Proc OfficeParty OfficeCall OfficeCall.Resp} {bill : ℚ}
      (h : Billed cfg staffOk allows taskId ⟨w, before ++ p :: after⟩ bill) :
      Billed cfg staffOk allows taskId ⟨w, before ++ after⟩ bill
  | env {w : Office} {procs : List (Proc OfficeParty OfficeCall OfficeCall.Resp)} {bill : ℚ}
      (h : Billed cfg staffOk allows taskId ⟨w, procs⟩ bill) (env : (q : Query) → q.Resp)
      (hstaff : staffOk (env .assignableStaff)) : Billed cfg staffOk allows taskId ⟨{ w with env := env }, procs⟩ bill
  | client {w : Office} {procs : List (Proc OfficeParty OfficeCall OfficeCall.Resp)} {bill : ℚ}
      (h : Billed cfg staffOk allows taskId ⟨w, procs⟩ bill) (o : StoreOp) (hclient : o.client = true)
      (hpre : o.Pre cfg.rt w.ledger) : Billed cfg staffOk allows taskId
        ⟨{ w with ledger := (o.run cfg.rt w.ledger).2 }, procs⟩ (bill + w.ledger.charge taskId o)
  | time {w : Office} {procs : List (Proc OfficeParty OfficeCall OfficeCall.Resp)} {bill : ℚ}
      (h : Billed cfg staffOk allows taskId ⟨w, procs⟩ bill) (now : Time) :
      Billed cfg staffOk allows taskId ⟨{ w with ledger := { w.ledger with clock := now } }, procs⟩ bill

/-- No write replaces the cost of a step that has been paid for. -/
def PaidOnce (pool : OfficePool) (_ : OfficeParty) : OfficeCall → Prop
  | .store o => o.CostsOnce pool.world.ledger
  | _ => True

instance (pool : OfficePool) (p : OfficeParty) (e : OfficeCall) : Decidable (PaidOnce pool p e) := by
  cases e <;> unfold PaidOnce <;> infer_instance

section Costs

variable {cfg : OfficeConfig} {staffOk : List (String × String) → Prop} {pool pool' : OfficePool}
  {allows : OfficePool → OfficeParty → OfficeCall → Prop} {taskId : String} {bill : ℚ}

/-! ### Runs and their bills -/

/-- A run with a bill is a run. -/
theorem Billed.reach (h : Billed cfg staffOk allows taskId pool bill) :
    (officeSystem cfg staffOk allows).Reach (officeInit staffOk) pool := by
  induction h with
  | init h =>
      exact .init h
  | run _ allowed ih =>
      exact ih.step (.run allowed)
  | start _ hfree ih =>
      exact ih.step (.start ⟨rfl, rfl, hfree⟩)
  | leave _ ih =>
      exact ih.step .leave
  | env _ env hstaff ih =>
      exact ih.step (.ext (.env env hstaff))
  | client _ o hclient hpre ih =>
      exact ih.step (.ext (.client o hclient hpre))
  | time _ now ih =>
      exact ih.step (.ext (.time now))

/-- Every run has a bill. -/
theorem exists_bill (taskId : String) (h : (officeSystem cfg staffOk allows).Reach (officeInit staffOk) pool) :
    ∃ bill, Billed cfg staffOk allows taskId pool bill := by
  induction h with
  | init h =>
      exact ⟨0, .init h⟩
  | step _ hstep ih =>
      obtain ⟨bill, hbill⟩ := ih
      cases hstep with
      | run hallowed =>
          exact ⟨_, .run hbill hallowed⟩
      | start hstart =>
          obtain ⟨rfl, rfl, hfree⟩ := hstart
          exact ⟨bill, .start hbill hfree⟩
      | leave =>
          exact ⟨bill, .leave hbill⟩
      | ext hchange =>
          cases hchange with
          | env env hstaff =>
              exact ⟨bill, .env hbill env hstaff⟩
          | client o hclient hpre =>
              exact ⟨_, .client hbill o hclient hpre⟩
          | time now =>
              exact ⟨bill, .time hbill now⟩

/-- A client writes no status, so it replaces no cost. -/
theorem StoreOp.costsOnce_of_client {o : StoreOp} (h : o.client = true) (l : Ledger) : o.CostsOnce l := by
  cases o with
  | setStepStatus =>
      cases h
  | _ =>
      exact trivial

/-- The accounts agree with the bill all along a run in which no cost is replaced. -/
theorem Billed.accounts (hsha : Function.Injective cfg.rt.sha256)
    (honce : ∀ pool p e, allows pool p e → PaidOnce pool p e)
    (h : Billed cfg staffOk allows taskId pool bill) : pool.world.ledger.Accounts taskId bill := by
  induction h with
  | init h =>
      obtain ⟨now, env, -, rfl⟩ := h
      exact .empty now taskId
  | @run w before after p e k log bill h allowed ih =>
      have hok := officeOk hsha h.reach
      have hpre := pre_next hsha hok (q := ⟨p, .call e k, log⟩) (by simp) rfl
      have hinv : w.Inv cfg staffOk := hok.inv
      have hpaid := honce _ _ _ allowed
      cases e with
      | store o =>
          exact ih.op hinv.ledger (hpre o rfl) hpaid
      | _ =>
          exact (add_zero bill).symm ▸ ih
  | start _ _ ih =>
      exact ih
  | leave _ ih =>
      exact ih
  | env _ _ _ ih =>
      exact ih
  | client h o hclient hpre ih =>
      have hinv : Office.Inv cfg staffOk _ := (officeOk hsha h.reach).inv
      exact ih.op hinv.ledger hpre (o.costsOnce_of_client hclient _)
  | time _ now ih =>
      exact ⟨ih.unbilled, ih.agree, ih.billed, ih.unborn⟩

/-- In every state of every run in which no write replaces the cost of a step that has been paid for, and for
every task: `sum_cost` is the total of the task row with the recorded task-level costs, and both are the
sum of all that was charged to the task. -/
theorem sumCost_eq_bill (hsha : Function.Injective cfg.rt.sha256)
    (h : Billed cfg staffOk PaidOnce taskId pool bill) {row : TaskRow} (hrow : row ∈ pool.world.ledger.db.tasks.rows)
    (hid : row.id = taskId) :
    pool.world.ledger.db.sumCost taskId = row.costUsdTotal + row.decomposeCostUsd + row.aggregateCostUsd ∧
      pool.world.ledger.db.sumCost taskId = bill :=
  (h.accounts hsha fun _ _ _ h => h).sumCost hrow hid

end Costs

/-! ### A step that is paid for twice -/

/-- A schedule in which no cost is replaced: the step is done at the first attempt, and the task delivered. -/
def paidPool : OfficePool :=
  execAll sampleConfig anyStaff PaidOnce (fun pool p e => decide (PaidOnce pool p e))
    [.start, .call 0 100, .leave 0, .call 0 100, .leave 0, .start, .call 0 100] oneStepPool

theorem paidPool_reach : (officeSystem sampleConfig anyStaff PaidOnce).Reach (officeInit anyStaff) paidPool :=
  reach_exec (fun _ _ _ h => of_decide_eq_true h) _ (reach_confirmed Ledger.samplePlan trivial)

/-- The step of the delivered task has cost something, and the accounts agree. -/
theorem sumCost_eq_bill_paid : ∃ bill, Billed sampleConfig anyStaff PaidOnce "t" paidPool bill ∧
    ∃ row ∈ paidPool.world.ledger.db.tasks.rows, row.id = "t" ∧ row.status = .done ∧ row.costUsdTotal ≠ 0 ∧
      paidPool.world.ledger.db.sumCost "t" = row.costUsdTotal + row.decomposeCostUsd + row.aggregateCostUsd ∧
        paidPool.world.ledger.db.sumCost "t" = bill := by
  obtain ⟨bill, hbill⟩ := exists_bill "t" paidPool_reach
  obtain ⟨row, hrow, hid, hdone, hcost⟩ : ∃ row ∈ paidPool.world.ledger.db.tasks.rows, row.id = "t" ∧
      row.status = .done ∧ row.costUsdTotal ≠ 0 := by decide +kernel
  exact ⟨bill, hbill, row, hrow, hid, hdone, hcost, sumCost_eq_bill Function.injective_id hbill hrow hid⟩

/-- The step that was claimed again after it was done is done again. -/
def billedTwice : OfficePool :=
  sampleRun sampleConfig anyStaff [.call 1 100] raceReopened

/-- Without the condition the total counts both attempts, the step row only the last one. -/
theorem race_bills_twice :
    ¬ ∀ pool taskId bill, Billed sampleConfig anyStaff anyCall taskId pool bill →
      ∀ row ∈ pool.world.ledger.db.tasks.rows, row.id = taskId →
        pool.world.ledger.db.sumCost taskId = row.costUsdTotal + row.decomposeCostUsd + row.aggregateCostUsd ∧
          pool.world.ledger.db.sumCost taskId = bill := by
  intro hclaim
  have hreach : (officeSystem sampleConfig anyStaff anyCall).Reach (officeInit anyStaff) billedTwice :=
    reach_sampleRun _ (reach_sampleRun _ (reach_sampleRun _ (reach_confirmed Ledger.samplePlan trivial)))
  obtain ⟨bill, hbill⟩ := exists_bill "t" hreach
  obtain ⟨row, hrow, hid, hdrift⟩ : ∃ row ∈ billedTwice.world.ledger.db.tasks.rows, row.id = "t" ∧
      billedTwice.world.ledger.db.sumCost "t" ≠ row.costUsdTotal + row.decomposeCostUsd + row.aggregateCostUsd := by
    decide +kernel
  exact hdrift (hclaim billedTwice "t" bill hbill row hrow hid).1

end ProjectManager
