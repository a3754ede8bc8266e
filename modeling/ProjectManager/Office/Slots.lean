import Mathlib.Data.Finset.Card
import ProjectManager.Office.Schedule
import ProjectManager.Office.Snapshots

/-!
# The concurrency cap

The ticker counts slots on its snapshot, while rows go on changing.  What carries the cap is a bound on the
steps that can be running by now: those that ran in the snapshot, and those that the tick has claimed since
(`SlotLink`).  Nobody else makes a row run, so the cap holds in every run (`running_le_concurrency`).
-/

namespace ProjectManager

open Process

/-! ### The steps that run -/

/-- The ids of the steps that run. -/
def runningIds (steps : List TeamStep) : Finset String :=
  ((steps.filter fun s => decide (s.status = .running)).map fun s => s.stepId).toFinset

theorem mem_runningIds {steps : List TeamStep} {id : String} :
    id ∈ runningIds steps ↔ ∃ s ∈ steps, s.status = .running ∧ s.stepId = id := by
  simp only [runningIds, List.mem_toFinset, List.mem_map, List.mem_filter, decide_eq_true_eq]
  constructor
  · rintro ⟨s, ⟨hs, hrunning⟩, hid⟩
    exact ⟨s, hs, hrunning, hid⟩
  · rintro ⟨s, hs, hrunning, hid⟩
    exact ⟨s, ⟨hs, hrunning⟩, hid⟩

theorem card_runningIds_le (task : TeamTask) : (runningIds task.steps).card ≤ runningCount task := by
  refine (List.toFinset_card_le _).trans ?_
  rw [List.length_map, runningCount, List.countP_eq_length_filter]

/-- The steps of a task have ids of their own. -/
theorem Db.stepsForTask_nodup (db : Db) (taskId : String) : ((db.stepsForTask taskId).map fun s => s.stepId).Nodup := by
  refine List.Nodup.map_on ?_ ((List.Nodup.of_map _ db.steps.nodup).filter _)
  intro r hr r' hr' hid
  obtain ⟨hmem, htask⟩ := Db.mem_stepsForTask.1 hr
  obtain ⟨hmem', htask'⟩ := Db.mem_stepsForTask.1 hr'
  exact Db.step_unique hmem hmem' (htask.trans htask'.symm) hid

/-- No task has more running steps than slots. -/
def Ledger.Capped (k : ℕ) (l : Ledger) : Prop :=
  ∀ taskId, (runningIds (l.db.stepsForTask taskId)).card ≤ k

/-- What the ticker's log says of the steps that run: they ran in the snapshot or were claimed since, and
there is a slot for each of them. -/
def SlotLink (k : ℕ) (log : OfficeLog) (l : Ledger) : Prop :=
  ∀ task, Snap log task → ∃ claimed : Finset String, claimed.card ≤ claims log task.id ∧
    (runningIds task.steps ∪ claimed).card ≤ k ∧
      runningIds (l.db.stepsForTask task.id) ⊆ runningIds task.steps ∪ claimed

section Slots

variable {cfg : OfficeConfig} {staffOk : List (String × String) → Prop} {log : OfficeLog} {e : OfficeCall} {l : Ledger}
  {w : Office} {k : ℕ}

/-! ### Who makes a row run -/

/-- A step that runs after an operation ran before, unless it was just claimed. -/
theorem Ledger.Inv.runningOrigin {rt : Runtime} (h : l.Inv rt) {o : StoreOp} (hpre : o.Pre rt l)
    (hstatus : ∀ taskId stepId status x attemptId, o = .setStepStatus taskId stepId status x attemptId →
      status ≠ .running) {taskId id : String} (hid : id ∈ runningIds ((o.run rt l).2.db.stepsForTask taskId)) :
    id ∈ runningIds (l.db.stepsForTask taskId) ∨ o = .reserveStep taskId id := by
  obtain ⟨row', hrow', hrunning, rfl⟩ := mem_runningIds.1 hid
  obtain ⟨hmem', rfl⟩ := Db.mem_stepsForTask.1 hrow'
  rcases h.rowOrigin hpre hmem' with ⟨row, hrow, hident, hmoves⟩ | ⟨hpending, -⟩
  · have htask : row.taskId = row'.taskId := (congrArg StepIdent.taskId hident).symm
    have hstepId : row.stepId = row'.stepId := (congrArg (fun i : StepIdent => i.stepId) hident).symm
    rcases hmoves with ⟨hsame, -⟩ | ⟨t, i, rfl, ht, hi, -⟩ | ⟨t, i, status, x, a, ho, -, hwritten, -⟩
    · refine .inl (mem_runningIds.2 ⟨row, Db.mem_stepsForTask.2 ⟨hrow, htask⟩, ?_, hstepId⟩)
      rw [← hsame, hrunning]
    · right
      rw [← htask, ← hstepId, ht, hi]
    · exact absurd (hwritten ▸ hrunning) (hstatus t i status x a ho)
  · rw [hrunning] at hpending
    cases hpending

/-- Neither the workers nor the store's other users make a step run. -/
theorem Office.Elsewhere.idle {o : StoreOp} (h : w.Elsewhere o) {taskId stepId : String} {status : StepStatus}
    {x : Db.StatusExtras} {attemptId : Option AttemptId} (ho : o = .setStepStatus taskId stepId status x attemptId) :
    status ≠ .running := by
  subst ho
  cases h with
  | worker _ hobeys =>
      rcases hobeys.2.2.2.outcome with rfl | rfl | rfl <;> decide
  | client hclient =>
      cases hclient

/-- They claim none either. -/
theorem Office.Elsewhere.claims_none {o : StoreOp} (h : w.Elsewhere o) (taskId stepId : String) :
    o ≠ .reserveStep taskId stepId := by
  rintro rfl
  cases h with
  | worker _ hobeys =>
      cases hobeys
  | client hclient =>
      cases hclient

/-- The steps that run after an operation from elsewhere ran before. -/
theorem Office.Elsewhere.running {o : StoreOp} (h : w.Elsewhere o) (hinv : w.Inv cfg staffOk)
    (hpre : o.Pre cfg.rt w.ledger) (taskId : String) :
    runningIds ((o.run cfg.rt w.ledger).2.db.stepsForTask taskId) ⊆ runningIds (w.ledger.db.stepsForTask taskId) := by
  intro id hid
  rcases hinv.ledger.runningOrigin hpre (fun _ _ _ _ _ ho => h.idle ho) hid with hold | ho
  · exact hold
  · exact absurd ho (h.claims_none taskId id)

/-- The steps that run after a call of the ticker ran before or were just claimed. -/
theorem TickObeys.running (h : TickObeys k staffOk log e) (hinv : w.Inv cfg staffOk)
    (hpre : ∀ o, e = .store o → o.Pre cfg.rt w.ledger) {taskId id : String}
    (hid : id ∈ runningIds ((e.handle cfg.rt w).2.ledger.db.stepsForTask taskId)) :
    id ∈ runningIds (w.ledger.db.stepsForTask taskId) ∨ e = .store (.reserveStep taskId id) := by
  by_cases hstore : ∃ o, e = .store o
  · obtain ⟨o, rfl⟩ := hstore
    have hstatus : ∀ t i status x a, o = .setStepStatus t i status x a → status ≠ .running := by
      rintro t i status x a rfl
      obtain ⟨rfl | rfl, -⟩ := h <;> decide
    rcases hinv.ledger.runningOrigin (hpre o rfl) hstatus hid with hold | rfl
    · exact .inl hold
    · exact .inr rfl
  · push Not at hstore
    rw [ledger_handle hstore] at hid
    exact .inl hid

/-! ### The cap is kept -/

theorem claims_mono (log : OfficeLog) (x : Σ e : OfficeCall, e.Resp) (taskId : String) :
    claims log taskId ≤ claims (log ++ [x]) taskId := by
  unfold claims
  rw [List.countP_append]
  exact Nat.le_add_right _ _

theorem claims_reserve (log : OfficeLog) (taskId stepId : String) (r : Except String AttemptId) :
    claims (log ++ [⟨.store (.reserveStep taskId stepId), r⟩]) taskId = claims log taskId + 1 := by
  unfold claims
  rw [List.countP_append, List.countP_singleton]
  simp

theorem SlotLink.mono {log' : OfficeLog} {l' : Ledger} (h : SlotLink k log l) (hsnap : ∀ task, Snap log' task → Snap log task)
    (hclaims : ∀ taskId, claims log taskId ≤ claims log' taskId)
    (hrunning : ∀ task, Snap log task →
      runningIds (l'.db.stepsForTask task.id) ⊆ runningIds (l.db.stepsForTask task.id)) : SlotLink k log' l' := by
  intro task htask
  obtain ⟨claimed, hcard, hslots, hids⟩ := h task (hsnap task htask)
  exact ⟨claimed, hcard.trans (hclaims task.id), hslots, (hrunning task (hsnap task htask)).trans hids⟩

/-- A claim takes a free slot, or the slot that the step has already. -/
theorem SlotLink.claim {task task' : TeamTask} {step : TeamStep} (h : SlotLink k log l) (hsnaps : SnapLink log)
    (hclaim : Claim k log task step) (hsnap' : Snap log task') (hid : task'.id = task.id) :
    ∃ claimed : Finset String, claimed.card ≤ claims log task'.id + 1 ∧
      (runningIds task'.steps ∪ claimed).card ≤ k ∧ step.stepId ∈ runningIds task'.steps ∪ claimed ∧
        runningIds (l.db.stepsForTask task'.id) ⊆ runningIds task'.steps ∪ claimed := by
  have hsnap := hclaim.picked.chosen.1
  have hstep := hclaim.picked.chosen.2.1
  obtain rfl := hsnaps.once task' task hsnap' hsnap hid
  obtain ⟨claimed, hcard, hslots, hids⟩ := h task' hsnap'
  by_cases hpending : step.status = .pending
  · refine ⟨insert step.stepId claimed, ?_, ?_, by simp, ?_⟩
    · exact (Finset.card_insert_le _ _).trans (Nat.add_le_add_right hcard 1)
    · have hfree := hclaim.slot hpending
      have hran := card_runningIds_le task'
      have hunion := Finset.card_union_le (runningIds task'.steps) (insert step.stepId claimed)
      have hinsert := Finset.card_insert_le step.stepId claimed
      omega
    · rw [Finset.union_insert]
      exact hids.trans (Finset.subset_insert _ _)
  · rcases hclaim.resumed hpending with hrunning | ⟨-, id, hgated, -⟩
    · refine ⟨claimed, hcard.trans (Nat.le_succ _), hslots, ?_, hids⟩
      exact Finset.mem_union_left _ (mem_runningIds.2 ⟨step, hstep, hrunning, rfl⟩)
    · rw [hsnaps.ungated task' hsnap step hstep] at hgated
      cases hgated

/-- After a claim there is still a slot for each step that runs. -/
theorem SlotLink.claimed (h : SlotLink k log w.ledger) (hcapped : w.ledger.Capped k) (hsnaps : SnapLink log)
    {task : TeamTask} {step : TeamStep} (hclaim : Claim k log task step)
    (hrunning : ∀ taskId id, id ∈ runningIds
        (((OfficeCall.store (.reserveStep task.id step.stepId)).handle cfg.rt w).2.ledger.db.stepsForTask taskId) →
      id ∈ runningIds (w.ledger.db.stepsForTask taskId) ∨ taskId = task.id ∧ id = step.stepId) :
    ((OfficeCall.store (.reserveStep task.id step.stepId)).handle cfg.rt w).2.ledger.Capped k ∧
      SlotLink k (log ++ [⟨.store (.reserveStep task.id step.stepId),
          ((OfficeCall.store (.reserveStep task.id step.stepId)).handle cfg.rt w).1⟩])
        ((OfficeCall.store (.reserveStep task.id step.stepId)).handle cfg.rt w).2.ledger := by
  generalize hafter : ((OfficeCall.store (.reserveStep task.id step.stepId)).handle cfg.rt w).2.ledger = l' at hrunning ⊢
  have hslots : SlotLink k (log ++ [⟨.store (.reserveStep task.id step.stepId),
      ((OfficeCall.store (.reserveStep task.id step.stepId)).handle cfg.rt w).1⟩]) l' := by
    intro task' hsnap'
    have hsnap' : Snap log task' := by
      rcases hsnap'.of_append with hsnap' | ⟨_, -, heq, -⟩
      · exact hsnap'
      · cases heq
    by_cases hid : task'.id = task.id
    · obtain ⟨claimed, hcard, hslots, hown, hids⟩ := h.claim hsnaps hclaim hsnap' hid
      refine ⟨claimed, ?_, hslots, fun id hrun => ?_⟩
      · rw [hid, claims_reserve, ← hid]
        exact hcard
      · rcases hrunning _ id hrun with hold | ⟨-, rfl⟩
        · exact hids hold
        · exact hown
    · obtain ⟨claimed, hcard, hslots, hids⟩ := h task' hsnap'
      refine ⟨claimed, hcard.trans (claims_mono log _ _), hslots, fun id hrun => ?_⟩
      rcases hrunning _ id hrun with hold | ⟨heq, -⟩
      · exact hids hold
      · exact absurd heq hid
  refine ⟨fun taskId => ?_, hslots⟩
  by_cases htask : taskId = task.id
  · obtain ⟨claimed, -, hfree, hids⟩ := hslots task (hclaim.picked.chosen.1.mono (List.prefix_append _ _))
    rw [htask]
    exact (Finset.card_le_card hids).trans hfree
  · refine (Finset.card_le_card fun id hrun => ?_).trans (hcapped taskId)
    rcases hrunning _ id hrun with hold | ⟨heq, -⟩
    · exact hold
    · exact absurd heq htask

/-- The ticker's own call keeps the cap, and what its log says of the slots. -/
theorem SlotLink.asked (h : SlotLink k log w.ledger) (hcapped : w.ledger.Capped k) (hsnaps : SnapLink log)
    (hobeys : TickObeys k staffOk log e) (hinv : w.Inv cfg staffOk)
    (hpre : ∀ o, e = .store o → o.Pre cfg.rt w.ledger) :
    (e.handle cfg.rt w).2.ledger.Capped k ∧
      SlotLink k (log ++ [⟨e, (e.handle cfg.rt w).1⟩]) (e.handle cfg.rt w).2.ledger := by
  by_cases hreserve : ∃ taskId stepId, e = .store (.reserveStep taskId stepId)
  · obtain ⟨_, _, rfl⟩ := hreserve
    obtain ⟨task, step, hclaim, rfl, rfl⟩ := id hobeys
    refine h.claimed hcapped hsnaps hclaim fun taskId id hrun => ?_
    rcases hobeys.running hinv hpre hrun with hold | heq
    · exact .inl hold
    · cases heq
      exact .inr ⟨rfl, rfl⟩
  · have hrunning : ∀ taskId, runningIds ((e.handle cfg.rt w).2.ledger.db.stepsForTask taskId) ⊆
        runningIds (w.ledger.db.stepsForTask taskId) := by
      intro taskId id hrun
      rcases hobeys.running hinv hpre hrun with hold | heq
      · exact hold
      · exact absurd ⟨taskId, id, heq⟩ hreserve
    refine ⟨fun taskId => (Finset.card_le_card (hrunning taskId)).trans (hcapped taskId), ?_⟩
    by_cases hlist : e = .store .listDispatchable
    · subst hlist
      intro task hsnap
      rcases hsnap.of_append with hsnap | ⟨tasks, htask, -, htasks⟩
      · obtain rfl : log = [] := hobeys
        obtain ⟨_, hread, -⟩ := hsnap
        cases hread
      · obtain rfl := eq_of_heq htasks
        obtain ⟨-, -, hsteps⟩ := Db.get_eq_some.1 (Db.mem_listDispatchable.1 htask).1
        refine ⟨∅, Nat.zero_le _, ?_, ?_⟩
        · rw [Finset.union_empty, hsteps]
          exact hcapped task.id
        · rw [Finset.union_empty, hsteps]
          exact hrunning task.id
    · refine h.mono (fun task hsnap => ?_) (claims_mono log _) fun task _ => hrunning task.id
      rcases hsnap.of_append with hsnap | ⟨_, -, heq, -⟩
      · exact hsnap
      · exact absurd heq hlist

variable (cfg staffOk)

/-- The cap, and the slots of the tick. -/
def slotWatch (allows : OfficePool → OfficeParty → OfficeCall → Prop) (K : OfficePool → Prop)
    (hK : ∀ pool, K pool → ∀ q ∈ pool.procs, q.party = .ticker → SnapLink q.log) : Watch cfg staffOk allows K where
  Inv := Ledger.Capped cfg.concurrency
  Link := SlotLink cfg.concurrency
  own := by
    intro pool log e turn hcapped hlink
    obtain ⟨q, hq, hparty, rfl, -⟩ := turn.present
    exact hlink.asked hcapped (hK pool turn.known q hq hparty) turn.obeys turn.inv turn.pre
  others := by
    intro w o hinv helse hpre hcapped
    have hrunning := helse.running hinv hpre
    refine ⟨fun taskId => (Finset.card_le_card (hrunning taskId)).trans (hcapped taskId), fun log _ hlink => ?_⟩
    exact hlink.mono (fun _ h => h) (fun _ => le_rfl) fun task _ => hrunning task.id
  time := fun _ hcapped => ⟨hcapped, fun _ hlink => hlink⟩
  start := by
    rintro l - task ⟨tasks, hread, -⟩
    cases hread
  empty := by
    intro now taskId
    exact Nat.zero_le _

variable {cfg staffOk}

/-- In every state of every run, and for every task: at most as many of its steps run as there are slots. -/
theorem running_le_concurrency (hsha : Function.Injective cfg.rt.sha256) {pool : OfficePool}
    (hreach : (officeSystem cfg staffOk anyCall).Reach (officeInit staffOk) pool) (taskId : String) :
    (pool.world.ledger.db.stepsForTask taskId).countP (fun s => decide (s.status = .running)) ≤ cfg.concurrency := by
  have hcapped : pool.world.ledger.Capped cfg.concurrency :=
    (Watch.ok_of_reach (V := slotWatch cfg staffOk anyCall
      (fun pool => (officeSpec cfg hsha staffOk anyCall).PoolOk pool ∧ ∀ q ∈ pool.procs, q.party = .ticker → SnapLink q.log)
      fun _ h => h.2) hsha (fun _ h => h.1) (fun _ h => ⟨officeOk hsha h, (snapOk hsha h).2⟩) hreach).1
  refine le_trans (le_of_eq ?_) (hcapped taskId)
  rw [runningIds, List.toFinset_card_of_nodup, List.length_map, List.countP_eq_length_filter]
  exact (pool.world.ledger.db.stepsForTask_nodup taskId).sublist (List.filter_sublist.map _)

end Slots

/-! ### A full office -/

/-- Two steps that wait for nothing. -/
def parallelPlan : DecomposedTask where
  steps :=
    [{ stepId := "s1"
       title := "Draft"
       assignedTo := "dev"
       deps := []
       acceptance := ""
       stepType := .work
       needsReview := false
       stepId_stripped := Ledger.strip_s1
       title_stripped := Ledger.strip_draft
       title_nonblank := Ledger.draft_nonblank
       assignedTo_stripped := Ledger.strip_dev },
     { stepId := "s2"
       title := "Outline"
       assignedTo := "qa"
       deps := []
       acceptance := ""
       stepType := .work
       needsReview := false
       stepId_stripped := Ledger.strip_s2
       title_stripped := by decide
       title_nonblank := by decide
       assignedTo_stripped := Ledger.strip_qa }]
  requiresApproval := true
  picId := ""
  nonempty := by decide
  bounded := by decide
  unique := by decide
  known := by decide
  irreflexive := by decide
  work := by decide

/-- Settings with one slot. -/
def oneSlotConfig : OfficeConfig :=
  { sampleConfig with concurrency := 1 }

/-- One slot for two ready steps, after two ticks. -/
def fullPool : OfficePool :=
  sampleRun oneSlotConfig anyStaff [.start, .call 0 100, .leave 0, .start, .call 1 100]
    ⟨.holding (sampleEnv "pass") (.confirmed oneSlotConfig.rt parallelPlan), []⟩

theorem fullPool_reach : (officeSystem oneSlotConfig anyStaff anyCall).Reach (officeInit anyStaff) fullPool :=
  reach_sampleRun _ (reach_confirmed parallelPlan trivial)

/-- Both steps are ready, one runs. -/
theorem running_le_concurrency_full :
    (fullPool.world.ledger.db.stepsForTask "t").countP (fun s => decide (s.status = .running)) = 1 ∧
      (fullPool.world.ledger.db.stepsForTask "t").countP (fun s => decide (s.status = .running)) ≤
        oneSlotConfig.concurrency :=
  ⟨by decide +kernel, running_le_concurrency Function.injective_id fullPool_reach "t"⟩

end ProjectManager
