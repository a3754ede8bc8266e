import Mathlib.Algebra.BigOperators.Group.List.Basic
import Mathlib.Tactic.Linarith
import ProjectManager.Store.Effects

/-!
# The two ledgers of a task's costs

The costs of a task's steps stand in two places: in the step rows, where a status write replaces the cost of
the row, and in `cost_usd_total`, to which it adds.  `Accounts.op` says that an operation keeps the two equal,
and both equal to what has been charged, when no write replaces a cost (`CostsOnce`).
-/

namespace ProjectManager

open Table

/-! ### Sums over lists -/

section Sums

variable {α : Type} {cost : α → ℚ}

theorem sum_map_filter {keep : α → Bool} {l : List α} (h : ∀ a ∈ l, keep a = false → cost a = 0) :
    ((l.filter keep).map cost).sum = (l.map cost).sum := by
  induction l with
  | nil =>
      rfl
  | cons a l ih =>
      have ih := ih fun b hb => h b (List.mem_cons_of_mem a hb)
      cases hkeep : keep a with
      | true =>
          rw [List.filter_cons_of_pos hkeep, List.map_cons, List.sum_cons, ih, List.map_cons, List.sum_cons]
      | false =>
          rw [List.filter_cons_of_neg (by simp [hkeep]), ih, List.map_cons, List.sum_cons,
            h a List.mem_cons_self hkeep, zero_add]

theorem sum_map_zero {l : List α} (h : ∀ a ∈ l, cost a = 0) : (l.map cost).sum = 0 := by
  refine List.sum_eq_zero fun x hx => ?_
  obtain ⟨a, ha, rfl⟩ := List.mem_map.1 hx
  exact h a ha

/-- An update that hits at most one element, and raises its cost. -/
theorem sum_map_update {p : α → Bool} {f : α → α} {c : ℚ} {l : List α} (hone : l.Pairwise fun a b => p a = true → p b = false)
    (hf : ∀ a ∈ l, p a = true → cost (f a) = cost a + c) :
    ((l.map fun a => if p a then f a else a).map cost).sum = (l.map cost).sum + if l.any p then c else 0 := by
  induction l with
  | nil =>
      simp
  | cons a l ih =>
      obtain ⟨hrest, hone⟩ := List.pairwise_cons.1 hone
      have ih := ih hone fun b hb => hf b (List.mem_cons_of_mem a hb)
      rw [List.map_cons, List.map_cons, List.sum_cons, ih, List.map_cons, List.sum_cons, List.any_cons]
      cases hp : p a with
      | true =>
          have hnone : l.any p = false := List.any_eq_false.2 fun b hb => by simp [hrest b hb hp]
          simp only [hnone, Bool.or_false, if_true, hf a List.mem_cons_self hp]
          simp only [Bool.false_eq_true, if_false]
          linarith
      | false =>
          simp only [Bool.false_or, Bool.false_eq_true, if_false]
          linarith

end Sums

/-! ### The costs of the steps -/

/-- The cost that a row shows. -/
def TeamStep.cost (s : TeamStep) : ℚ :=
  s.costUsd.getD 0

/-- The sum of the costs in the step rows of a task. -/
def Ledger.stepCosts (l : Ledger) (taskId : String) : ℚ :=
  ((l.db.stepsForTask taskId).map TeamStep.cost).sum

/-- A pending step has cost nothing. -/
def Ledger.Unbilled (l : Ledger) : Prop :=
  ∀ s ∈ l.db.steps.rows, s.status = .pending → s.costUsd = none

/-- The operation does not replace a cost: when it writes one, the row has none yet, or zero. -/
def StoreOp.CostsOnce (l : Ledger) : StoreOp → Prop
  | .setStepStatus taskId stepId _ x attemptId => x.costUsd ≠ none →
      ∀ s ∈ l.db.steps.rows, Db.isAttempt taskId stepId attemptId s = true → s.cost = 0
  | _ => True

instance (l : Ledger) (o : StoreOp) : Decidable (o.CostsOnce l) := by
  cases o <;> unfold StoreOp.CostsOnce <;> infer_instance

namespace Ledger

variable {rt : Runtime} {l : Ledger} {o : StoreOp} {taskId : String} {bill : ℚ}

theorem Unbilled.op (h : l.Unbilled) (hinv : l.Inv rt) (hpre : o.Pre rt l) : (o.run rt l).2.Unbilled := by
  intro s' hs' hpending
  rcases hinv.rowEdited hpre hs' with ⟨s, hs, hedits⟩ | hnew
  · cases hedits with
    | same =>
        exact h s' hs hpending
    | reserve _ =>
        cases hpending
    | spawn _ =>
        exact h s hs hpending
    | beat =>
        exact h s hs hpending
    | status _ =>
        exact absurd hpending hpre.2
  · rw [hnew]
    rfl

/-- A status write raises the costs of its task by what it charges. -/
theorem stepCosts_setStepStatus {stepId : String} {status : StepStatus} {x : Db.StatusExtras} {attemptId : Option AttemptId}
    {taskId' : String} (honce : (StoreOp.setStepStatus taskId' stepId status x attemptId).CostsOnce l) :
    ((StoreOp.setStepStatus taskId' stepId status x attemptId).run rt l).2.stepCosts taskId =
      l.stepCosts taskId + (StoreOp.setStepStatus taskId' stepId status x attemptId).stepCharge l taskId := by
  have hrows : ((StoreOp.setStepStatus taskId' stepId status x attemptId).run rt l).2.db.stepsForTask taskId =
      (l.db.stepsForTask taskId).map fun s =>
        if Db.isAttempt taskId' stepId attemptId s then Db.withStatus status x s else s :=
    @Db.stepsForTask_updateSteps l.db _ (Db.withStatus status x) (fun _ => rfl) taskId
  have hone : (l.db.stepsForTask taskId).Pairwise fun a b =>
      Db.isAttempt taskId' stepId attemptId a = true → Db.isAttempt taskId' stepId attemptId b = false := by
    have hkeys : (l.db.steps.rows.Pairwise fun a b => a.key ≠ b.key) := List.pairwise_map.1 l.db.steps.nodup
    refine (hkeys.filter _).imp fun {a b} hne ha => ?_
    by_contra hb
    simp only [Db.isAttempt, Db.isStep, Bool.and_eq_true, decide_eq_true_eq, Bool.not_eq_false] at ha hb
    exact hne (by rw [TeamStep.key, TeamStep.key, ha.1.1, ha.1.2, hb.1.1, hb.1.2])
  have hraise : ∀ s ∈ l.db.stepsForTask taskId, Db.isAttempt taskId' stepId attemptId s = true →
      (Db.withStatus status x s).cost = s.cost + x.costUsd.getD 0 := by
    intro s hs hattempt
    cases hcost : x.costUsd with
    | none =>
        simp [TeamStep.cost, Db.withStatus, hcost]
    | some c =>
        rw [honce (by simp [hcost]) s (Db.mem_stepsForTask.1 hs).1 hattempt]
        simp [TeamStep.cost, Db.withStatus, hcost]
  unfold Ledger.stepCosts
  rw [hrows, sum_map_update hone hraise]
  congr 1
  refine if_congr ?_ rfl rfl
  rw [List.any_eq_true, List.any_eq_true]
  constructor
  · rintro ⟨s, hs, hattempt⟩
    obtain ⟨hmem, htask⟩ := Db.mem_stepsForTask.1 hs
    exact ⟨(isAttempt_taskId hattempt).symm.trans htask, s, hmem, hattempt⟩
  · rintro ⟨rfl, s, hs, hattempt⟩
    exact ⟨s, Db.mem_stepsForTask.2 ⟨hs, isAttempt_taskId hattempt⟩, hattempt⟩

theorem cost_pendingRow (i : StepIdent) : i.pendingRow.cost = 0 :=
  rfl

/-- An edit that is no status write leaves the cost of a row alone. -/
theorem cost_edits {s s' : TeamStep} (h : o.Edits l s s') (hset : ∀ t i status x a, o ≠ .setStepStatus t i status x a) :
    s'.cost = s.cost := by
  cases h with
  | status _ =>
      exact absurd rfl (hset _ _ _ _ _)
  | _ =>
      rfl

/-- An operation raises the step costs of a task by what it charges. -/
theorem Unbilled.stepCosts_op (h : l.Unbilled) (hinv : l.Inv rt) (hpre : o.Pre rt l) (honce : o.CostsOnce l) :
    (o.run rt l).2.stepCosts taskId = l.stepCosts taskId + o.stepCharge l taskId := by
  by_cases hset : ∃ t i status x a, o = .setStepStatus t i status x a
  · obtain ⟨t, i, status, x, a, rfl⟩ := hset
    exact stepCosts_setStepStatus honce
  push Not at hset
  have hcharge : o.stepCharge l taskId = 0 := by
    cases o with
    | setStepStatus t i status x a =>
        exact absurd rfl (hset t i status x a)
    | _ =>
        rfl
  rw [hcharge, add_zero]
  unfold Ledger.stepCosts
  rcases hinv.stepsAfter hpre taskId with ⟨g, hrows, hedits⟩ | ⟨keep, new, hrows, hkept, hnew, -⟩ | ⟨d, -, hrows⟩
  · rw [hrows, List.map_map]
    congr 1
    exact List.map_congr_left fun s _ => cost_edits (hedits s) hset
  · have hdropped : ∀ s ∈ l.db.stepsForTask taskId, keep s = false → s.cost = 0 := by
      intro s hs hgone
      have hpending : s.status = .pending := by
        by_contra hstarted
        rw [hkept s hs hstarted] at hgone
        cases hgone
      rw [TeamStep.cost, h s (Db.mem_stepsForTask.1 hs).1 hpending]
      rfl
    have hfree : ∀ s ∈ new, s.cost = 0 := by
      intro s hs
      rw [(hnew s hs).1]
      exact cost_pendingRow _
    rw [hrows, List.map_append, List.sum_append, sum_map_filter hdropped, sum_map_zero hfree, add_zero]
  · rw [hrows, List.map_append, List.sum_append, List.map_singleton, List.sum_singleton]
    exact add_zero _

/-! ### The bill of a task -/

/-- What an operation charges to a task that exists: an accepted status write its cost, and
`record_task_cost` what it records. -/
def charge (l : Ledger) (taskId : String) (o : StoreOp) : ℚ :=
  if (l.db.tasks.find? taskId).isSome then o.stepCharge l taskId + o.taskCharge taskId else 0

/-- The accounts of all tasks agree, and those of one task with its bill. -/
structure Accounts (l : Ledger) (taskId : String) (bill : ℚ) : Prop where
  unbilled : l.Unbilled
  agree : ∀ row ∈ l.db.tasks.rows, l.stepCosts row.id = row.costUsdTotal
  billed : ∀ row ∈ l.db.tasks.rows, row.id = taskId →
    bill = row.costUsdTotal + (row.decomposeCostUsd + row.aggregateCostUsd)
  unborn : (∀ row ∈ l.db.tasks.rows, row.id ≠ taskId) → bill = 0

theorem charge_of_mem {row : TaskRow} (hrow : row ∈ l.db.tasks.rows) (o : StoreOp) :
    l.charge row.id o = o.stepCharge l row.id + o.taskCharge row.id := by
  rw [charge, if_pos]
  rw [Option.isSome_iff_exists]
  exact ⟨row, Keyed.find?_eq_some.2 ⟨hrow, rfl⟩⟩

theorem charge_of_not_mem (h : ∀ row ∈ l.db.tasks.rows, row.id ≠ taskId) (o : StoreOp) : l.charge taskId o = 0 := by
  rw [charge, if_neg]
  rw [Keyed.find?_eq_none.2 h]
  exact Bool.false_ne_true

/-- A task that does not exist has no costs. -/
theorem stepCosts_of_not_mem (hinv : l.Inv rt) (h : ∀ row ∈ l.db.tasks.rows, row.id ≠ taskId) : l.stepCosts taskId = 0 := by
  unfold Ledger.stepCosts
  refine sum_map_zero fun s hs => ?_
  obtain ⟨hmem, htask⟩ := Db.mem_stepsForTask.1 hs
  obtain ⟨row, hrow, hid, -⟩ := hinv.tables.owned s hmem
  exact absurd (hid.trans htask) (h row hrow)

/-- The accounts of the empty store. -/
theorem Accounts.empty (now : Time) (taskId : String) : (Ledger.empty now).Accounts taskId 0 where
  unbilled := by simp [Unbilled, Ledger.empty, Db.empty, Auto.empty]
  agree := by simp [Ledger.empty, Db.empty, Keyed.empty]
  billed := by simp [Ledger.empty, Db.empty, Keyed.empty]
  unborn := fun _ => rfl

/-- An operation keeps the accounts, with what it charges on the bill. -/
theorem Accounts.op (h : l.Accounts taskId bill) (hinv : l.Inv rt) (hpre : o.Pre rt l) (honce : o.CostsOnce l) :
    (o.run rt l).2.Accounts taskId (bill + l.charge taskId o) := by
  have hcosts : ∀ id, (o.run rt l).2.stepCosts id = l.stepCosts id + o.stepCharge l id :=
    fun id => h.unbilled.stepCosts_op hinv hpre honce
  rcases tasksAfter rt l o with ⟨g, hrows, hupdates⟩ | ⟨new, hrows, hfresh, -, htotal, hdecompose, haggregate, hstep, htask⟩
  · refine ⟨h.unbilled.op hinv hpre, ?_, ?_, ?_⟩
    · intro row' hrow'
      rw [hrows] at hrow'
      obtain ⟨row, hrow, rfl⟩ := List.mem_map.1 hrow'
      have hupdate := hupdates row hrow
      rw [hupdate.id, hcosts, h.agree row hrow, hupdate.total]
    · rintro row' hrow' hid
      rw [hrows] at hrow'
      obtain ⟨row, hrow, rfl⟩ := List.mem_map.1 hrow'
      have hupdate := hupdates row hrow
      have hrowId : row.id = taskId := hupdate.id.symm.trans hid
      rw [h.billed row hrow hrowId, ← hrowId, charge_of_mem hrow, hupdate.total, hupdate.recorded]
      linarith
    · intro hnone
      have hbefore : ∀ row ∈ l.db.tasks.rows, row.id ≠ taskId := by
        intro row hrow hid
        refine hnone (g row) ?_ ((hupdates row hrow).id.trans hid)
        rw [hrows]
        exact List.mem_map_of_mem hrow
      rw [h.unborn hbefore, charge_of_not_mem hbefore, add_zero]
  · refine ⟨h.unbilled.op hinv hpre, ?_, ?_, ?_⟩
    · intro row hrow
      rw [hcosts, hstep, add_zero]
      rw [hrows] at hrow
      rcases List.mem_append.1 hrow with hrow | hrow
      · exact h.agree row hrow
      · obtain rfl := List.mem_singleton.1 hrow
        rw [stepCosts_of_not_mem hinv hfresh, htotal]
    · rintro row hrow rfl
      rw [hrows] at hrow
      rcases List.mem_append.1 hrow with hrow | hrow
      · rw [charge_of_mem hrow, hstep, htask, add_zero, add_zero]
        exact h.billed row hrow rfl
      · obtain rfl := List.mem_singleton.1 hrow
        rw [h.unborn hfresh, charge_of_not_mem hfresh, htotal, hdecompose, haggregate, add_zero, add_zero]
    · intro hnone
      have hbefore : ∀ row ∈ l.db.tasks.rows, row.id ≠ taskId := by
        intro row hrow
        refine hnone row ?_
        rw [hrows]
        exact List.mem_append_left _ hrow
      rw [h.unborn hbefore, charge_of_not_mem hbefore, add_zero]

/-- `sum_cost` of a task whose accounts agree. -/
theorem Accounts.sumCost (h : l.Accounts taskId bill) {row : TaskRow} (hrow : row ∈ l.db.tasks.rows)
    (hid : row.id = taskId) :
    l.db.sumCost taskId = row.costUsdTotal + row.decomposeCostUsd + row.aggregateCostUsd ∧
      l.db.sumCost taskId = bill := by
  have hget : l.db.get taskId = some ⟨row, l.db.stepsForTask taskId⟩ := Db.get_eq_some.2 ⟨hrow, hid, rfl⟩
  have hsum : l.db.sumCost taskId = l.stepCosts taskId + row.decomposeCostUsd + row.aggregateCostUsd := by
    simp only [Db.sumCost, hget]
    rfl
  have hagree : l.stepCosts taskId = row.costUsdTotal := by
    rw [← hid]
    exact h.agree row hrow
  rw [hsum, hagree]
  refine ⟨rfl, ?_⟩
  rw [h.billed row hrow hid, add_assoc]

end Ledger

end ProjectManager
