import ProjectManager.Office.Leases
import ProjectManager.Office.Progress
import ProjectManager.Office.Verdicts

/-!
# A review that is minted for ever

When the artifact of a finished step is not of the step's lease, every review of it ends without a verdict,
and the next tick mints another one of the same round.  `Desk` describes the office between two processes of
such a run; a tick that mints (`Desk.mints`), a tick that spawns (`Desk.spawns`) and a worker
(`Desk.run_stepWorker`) lead from one review to the next, so no number bounds the reviews of the step
(`mints_unbounded`).
-/

namespace ProjectManager

open Process Process.Prog

/-! ### Programs that run alone -/

section Alone

variable {cfg : OfficeConfig} {staffOk : List (String × String) → Prop} {w w' : Office} {task : TeamTask}

/-- What a program that runs alone starts are the workers that it has spawned. -/
theorem forked_spawned (cfg : OfficeConfig) (staffOk : List (String × String) → Prop)
    (allows : OfficePool → OfficeParty → OfficeCall → Prop) (prog : OfficeProg Unit) (w : Office) :
    ∃ new : List Spawn, (prog.run (OfficeCall.handle cfg.rt) w).2.spawned = w.spawned ++ new ∧
      (officeSystem cfg staffOk allows).forked prog w =
        new.map fun s => System.fresh (.worker s, stepWorker cfg s) := by
  induction prog generalizing w with
  | ret a =>
      exact ⟨[], by simp [Prog.run], rfl⟩
  | raise msg =>
      exact ⟨[], by simp [Prog.run], rfl⟩
  | call e k ih =>
      obtain ⟨new, hspawned, hforked⟩ := ih (e.handle cfg.rt w).1 (e.handle cfg.rt w).2
      cases e with
      | spawnStep s =>
          refine ⟨s :: new, ?_, ?_⟩
          · refine hspawned.trans ?_
            simp [OfficeCall.handle]
          · rw [List.map_cons, ← hforked]
            rfl
      | _ =>
          exact ⟨new, hspawned, hforked⟩

/-- A tick that runs alone, and the workers that it leaves behind. -/
theorem reach_tick {init : OfficePool → Prop} (h : (officeSystem cfg staffOk anyCall).Reach init ⟨w, []⟩) {new : List Spawn}
    (hrun : ((tickerProg cfg).run (OfficeCall.handle cfg.rt) w).2 = w') (hspawned : w'.spawned = w.spawned ++ new) :
    (officeSystem cfg staffOk anyCall).Reach init
      ⟨w', new.map fun s => System.fresh (.worker s, stepWorker cfg s)⟩ := by
  have hstart : (officeSystem cfg staffOk anyCall).Reach init ⟨w, [] ++ [System.fresh (.ticker, tickerProg cfg)]⟩ :=
    h.step (.start ⟨rfl, rfl, by simp⟩)
  have hend := System.Reach.alone (fun _ _ _ => trivial) hstart
  obtain ⟨new', hspawned', hforked⟩ := forked_spawned cfg staffOk anyCall (tickerProg cfg) w
  rw [hrun, hspawned] at hspawned'
  rw [hforked, ← List.append_cancel_left hspawned'] at hend
  rw [← hrun]
  exact hend

/-- A worker that runs alone and starts nothing. -/
theorem reach_worker {init : OfficePool → Prop} {s : Spawn}
    (h : (officeSystem cfg staffOk anyCall).Reach init ⟨w, [System.fresh (.worker s, stepWorker cfg s)]⟩)
    (hrun : ((stepWorker cfg s).run (OfficeCall.handle cfg.rt) w).2 = w') (hspawned : w'.spawned = w.spawned) :
    (officeSystem cfg staffOk anyCall).Reach init ⟨w', []⟩ := by
  have halone : (officeSystem cfg staffOk anyCall).Reach init
      ⟨w, [] ++ [System.fresh (.worker s, stepWorker cfg s)]⟩ := h
  have hend := System.Reach.alone (fun _ _ _ => trivial) halone
  obtain ⟨new, hspawned', hforked⟩ := forked_spawned cfg staffOk anyCall (stepWorker cfg s) w
  rw [hrun, hspawned] at hspawned'
  have hnone : new = [] := by
    simpa using hspawned'.symm
  rw [hforked, hnone] at hend
  rw [← hrun]
  exact hend

/-- A tick on the only open task, which it acts on. -/
theorem run_tickerProg (hlist : w.ledger.db.listDispatchable = [task]) {r : TickResult}
    (hact : (actOnTask cfg task).run (OfficeCall.handle cfg.rt) { w with ledger := w.ledger.handOut [task] } = (.ok r, w'))
    (hr : r.action ≠ .none) :
    ((tickerProg cfg).run (OfficeCall.handle cfg.rt) w).2 =
      { w' with ledger := (StoreOp.cleanupStaleDrafts.run cfg.rt w'.ledger).2 } := by
  have hlisted : (OfficeCall.store .listDispatchable).handle cfg.rt w =
      ([task], { w with ledger := w.ledger.handOut [task] }) := by
    simp only [OfficeCall.handle, StoreOp.run, hlist]
  have hloop : (Prog.firstSome (fun task => (actOnTask cfg task).bind fun result => ret result.acting) [task]).run
      (OfficeCall.handle cfg.rt) { w with ledger := w.ledger.handOut [task] } = (.ok (some r), w') := by
    refine run_firstSome_some ?_
    rw [run_bind_ok hact]
    simp [TickResult.acting, hr, Prog.run]
  have htick : (runOneTick cfg).run (OfficeCall.handle cfg.rt) w = (.ok r, w') := by
    show Prog.run _ (call (OfficeCall.store .listDispatchable) _) w = _
    rw [Prog.run, hlisted]
    exact (run_bind_ok hloop).trans rfl
  have hteam : (runTeamTick cfg).run (OfficeCall.handle cfg.rt) w =
      (.ok r, { w' with ledger := (StoreOp.cleanupStaleDrafts.run cfg.rt w'.ledger).2 }) :=
    (run_bind_ok htick).trans rfl
  have hprog : (tickerProg cfg).run (OfficeCall.handle cfg.rt) w =
      (.ok (), { w' with ledger := (StoreOp.cleanupStaleDrafts.run cfg.rt w'.ledger).2 }) :=
    (run_bind_ok hteam).trans rfl
  rw [hprog]

/-- The world after a claim and a spawn. -/
def Office.spawning (rt : Runtime) (w : Office) (taskId : String) (step : TeamStep) : Office where
  ledger := ((StoreOp.recordSpawn taskId step.stepId (w.env .nextPid)).run rt
    ((StoreOp.reserveStep taskId step.stepId).run rt w.ledger).2).2
  files := w.files
  retries := w.retries
  spawned := w.spawned ++ [⟨taskId, step.stepId, step.assignedTo, w.ledger.nextAttempt⟩]
  env := w.env

theorem run_reserveAndSpawn {step row : TeamStep}
    (hroster : (w.env .assignableStaff).any (fun x => decide (x.1 = step.assignedTo)) = true)
    (hrow : w.ledger.db.getStep task.id step.stepId = some row) : ∃ detail,
    (reserveAndSpawn task step).run (OfficeCall.handle cfg.rt) w =
      (.ok ⟨some task.id, .spawned, detail⟩, w.spawning cfg.rt task.id step) := by
  refine ⟨s!"{step.stepId} attempt={w.ledger.nextAttempt} pid={w.env .nextPid}", ?_⟩
  unfold reserveAndSpawn
  have hok : (isAssignable step.assignedTo).run (OfficeCall.handle cfg.rt) w = (.ok true, w) := by
    show (Except.ok ((w.env .assignableStaff).any fun x => decide (x.1 = step.assignedTo)), w) = _
    rw [hroster]
  refine (run_bind_ok hok).trans ?_
  have hreserve : ((StoreOp.reserveStep task.id step.stepId).run cfg.rt w.ledger).1 = .ok w.ledger.nextAttempt := by
    simp only [StoreOp.run, hrow]
  show Prog.run _ (call (OfficeCall.store (.reserveStep task.id step.stepId)) _) w = _
  rw [Prog.run]
  show Prog.run _ (Prog.bind (Prog.ofExcept ((StoreOp.reserveStep task.id step.stepId).run cfg.rt w.ledger).1) _) _ = _
  rw [hreserve]
  rfl

end Alone

/-! ### A task whose review is always stale -/

/-- The open task. -/
def staleTask : TaskRow where
  id := "t"
  title := "Title"
  originalRequest := "Request"
  status := .opened
  createdAt := 0
  assignedBy := "ceo"
  costUsdTotal := 1
  planHash := some (reviewedPlan.hash sampleConfig.rt)
  decomposeCostUsd := 0
  aggregateCostUsd := 0
  picId := ""
  roomId := ""

/-- Its step, finished under the second lease. -/
def staleContent : TeamStep where
  stepId := "s1"
  title := "Draft"
  assignedTo := "dev"
  deps := []
  seq := 1
  taskId := "t"
  acceptance := ""
  stepType := .work
  needsReview := true
  systemInserted := false
  parentStepId := none
  reviewRound := 0
  status := .done
  outcomeRef := some "team-tasks/t/step-1.json"
  costUsd := some 1
  attemptId := some 2
  childPid := some 7
  spawnedAt := some 0
  lastSeen := some 0
  leaseExpiresAt := some 600
  approvalId := none

/-- What identifies its reviews, all of the first round. -/
def staleIdent (i : ℕ) : StepIdent where
  stepId := reviewId "s1" 0 i
  title := "Soát chéo: Draft"
  assignedTo := "qa"
  deps := ["s1"]
  seq := i + 2
  taskId := "t"
  acceptance := ""
  stepType := .review
  needsReview := false
  systemInserted := true
  parentStepId := some "s1"
  reviewRound := 0

/-- A review while it runs. -/
def staleRunning (i : ℕ) : TeamStep where
  toStepIdent := staleIdent i
  status := .running
  outcomeRef := none
  costUsd := none
  attemptId := some (i + 3)
  childPid := some 7
  spawnedAt := some 0
  lastSeen := some 0
  leaseExpiresAt := some 600
  approvalId := none

/-- A review that has found a stale artifact. -/
def staleReview (i : ℕ) : TeamStep :=
  { staleRunning i with
    status := .done
    outcomeRef := some s!"team-tasks/t/step-{i + 2}.json" }

/-- The step, `n` reviews that have found a stale artifact, and the newest one. -/
def staleRows (n : ℕ) (newest : TeamStep) : List TeamStep :=
  staleContent :: ((List.range n).map staleReview ++ [newest])

/-- The office with these rows; `next` is the next lease. -/
structure Desk (n : ℕ) (newest : TeamStep) (next : AttemptId) (w : Office) : Prop where
  ident : newest.toStepIdent = staleIdent n
  unpaid : newest.costUsd = none
  tasks : w.ledger.db.tasks.rows = [staleTask]
  steps : w.ledger.db.steps.rows = staleRows n newest
  last : w.ledger.db.steps.last = n + 2
  clock : w.ledger.clock = 0
  lease : w.ledger.nextAttempt = next
  stale : ∀ a, w.files (stepArtifactPath "t" 1) = some a → a.lockedVersion ≠ some 2
  silent : w.files (reviewVerdictArtifactPath "t" 1 0) = none
  env : w.env = sampleEnv "pass"

/-- The task as a snapshot shows it. -/
def staleSnapshot (n : ℕ) (newest : TeamStep) : TeamTask where
  toTaskRow := staleTask
  steps := staleRows n newest

section Desk

variable {n next : ℕ} {x : TeamStep} {w : Office}

theorem mem_staleRows {r : TeamStep} :
    r ∈ staleRows n x ↔ r = staleContent ∨ (∃ i < n, r = staleReview i) ∨ r = x := by
  simp only [staleRows, List.mem_cons, List.mem_append, List.mem_map, List.mem_range, List.not_mem_nil,
    or_false]
  constructor
  · rintro (rfl | ⟨i, hi, rfl⟩ | rfl)
    · exact .inl rfl
    · exact .inr (.inl ⟨i, hi, rfl⟩)
    · exact .inr (.inr rfl)
  · rintro (rfl | ⟨i, hi, rfl⟩ | rfl)
    · exact .inl rfl
    · exact .inr (.inl ⟨i, hi, rfl⟩)
    · exact .inr (.inr rfl)

/-- The rows after an update that means the newest one only. -/
theorem map_staleRows {p : TeamStep → Bool} {f : TeamStep → TeamStep} (hx : p x = true) (hcontent : p staleContent = false)
    (hreviews : ∀ i < n, p (staleReview i) = false) :
    ((staleRows n x).map fun s => if p s then f s else s) = staleRows n (f x) := by
  have hkept : ((List.range n).map staleReview).map (fun s => if p s then f s else s) = (List.range n).map staleReview := by
    rw [List.map_map]
    refine List.map_congr_left fun i hi => ?_
    simp [hreviews i (List.mem_range.1 hi)]
  rw [staleRows, List.map_cons, List.map_append, hkept]
  simp [hx, hcontent, staleRows]

theorem reviewId_ne_content (i : ℕ) : reviewId "s1" 0 i ≠ "s1" := by
  intro h
  have hlength := congrArg (fun s : String => s.toList.length) h
  simp only [reviewId_toList] at hlength
  simp at hlength

theorem Desk.taskId (h : Desk n x next w) {r : TeamStep} (hr : r ∈ staleRows n x) : r.taskId = "t" := by
  rcases mem_staleRows.1 hr with rfl | ⟨i, -, rfl⟩ | rfl
  · rfl
  · rfl
  · rw [h.ident]
    rfl

theorem Desk.stepsForTask (h : Desk n x next w) : w.ledger.db.stepsForTask "t" = staleRows n x := by
  unfold Db.stepsForTask
  rw [h.steps, List.filter_eq_self]
  intro r hr
  simpa using h.taskId hr

theorem Desk.get (h : Desk n x next w) : w.ledger.db.get "t" = some (staleSnapshot n x) := by
  refine Db.get_eq_some.2 ⟨?_, rfl, h.stepsForTask.symm⟩
  rw [h.tasks]
  exact List.mem_singleton.2 rfl

theorem Desk.listed (h : Desk n x next w) : w.ledger.db.listDispatchable = [staleSnapshot n x] := by
  unfold Db.listDispatchable
  rw [h.tasks]
  have hopen : ([staleTask].filter fun row : TaskRow => row.status.dispatchable) = [staleTask] := rfl
  rw [hopen, List.insertionSort_cons, List.insertionSort_nil, List.orderedInsert_nil]
  show ([staleTask].filterMap fun row : TaskRow => w.ledger.db.get row.id) = _
  have hget : w.ledger.db.get staleTask.id = some (staleSnapshot n x) := h.get
  simp [hget]

/-- The row of the newest review. -/
theorem Desk.getStep (h : Desk n x next w) : w.ledger.db.getStep "t" (reviewId "s1" 0 n) = some x := by
  refine Db.getStep_eq_some.2 ⟨?_, ?_, ?_⟩
  · rw [h.steps]
    exact mem_staleRows.2 (.inr (.inr rfl))
  · rw [h.ident]
    rfl
  · rw [h.ident]
    rfl

theorem Desk.getContent (h : Desk n x next w) : w.ledger.db.getStep "t" "s1" = some staleContent := by
  refine Db.getStep_eq_some.2 ⟨?_, rfl, rfl⟩
  rw [h.steps]
  exact mem_staleRows.2 (.inl rfl)

theorem Desk.sumCost (h : Desk n x next w) : w.ledger.db.sumCost "t" = 1 := by
  unfold Db.sumCost
  rw [h.get]
  have hreviews : (((List.range n).map staleReview).map fun s => s.costUsd.getD 0).sum = 0 := by
    refine List.sum_eq_zero fun q hq => ?_
    simp only [List.map_map, List.mem_map] at hq
    obtain ⟨i, -, rfl⟩ := hq
    rfl
  show ((staleRows n x).map fun s => s.costUsd.getD 0).sum + staleTask.decomposeCostUsd + staleTask.aggregateCostUsd = 1
  rw [staleRows, List.map_cons, List.map_append, List.sum_cons, List.sum_append, hreviews]
  simp [h.unpaid, staleContent, staleTask]

/-! ### What the ticker sees -/

theorem childrenOf_staleRows (hx : x.toStepIdent = staleIdent n) :
    childrenOf (staleRows n x) "s1" .review = (List.range n).map staleReview ++ [x] := by
  unfold childrenOf staleRows
  rw [List.filter_cons_of_neg (by decide), List.filter_eq_self]
  intro r hr
  rcases List.mem_append.1 hr with hr | hr
  · obtain ⟨i, -, rfl⟩ := List.mem_map.1 hr
    rfl
  · rw [List.mem_singleton.1 hr, hx]
    rfl

theorem reviewChild_stale (hx : x.toStepIdent = staleIdent n) : reviewChild (staleSnapshot n x) "s1" .review = some x := by
  show (childrenOf (staleRows n x) "s1" .review).getLast? = some x
  rw [childrenOf_staleRows hx, List.getLast?_append]
  rfl

theorem step?_stale : (staleSnapshot n x).step? "s1" = some staleContent :=
  rfl

/-- The review rule has nothing to do about the step and the reviews before the newest. -/
theorem reviewDecision_stale (hx : x.toStepIdent = staleIdent n) {r : TeamStep}
    (hr : r = staleContent ∨ ∃ i < n, r = staleReview i) (h : Desk n x next w) :
    reviewDecision (w.env .assignableStaff) w.files (staleSnapshot n x) r = none := by
  rcases hr with rfl | ⟨i, hi, rfl⟩
  · show decideWork _ _ staleContent = none
    unfold decideWork
    have hchild : reviewChild (staleSnapshot n x) staleContent.stepId .review = some x := reviewChild_stale hx
    simp [hchild]
  · show decideVerdict (staleSnapshot n x) staleContent (staleReview i) (w.files (reviewVerdictArtifactPath "t" 1 0)) = none
    rw [h.silent]
    unfold decideVerdict
    have hchild : reviewChild (staleSnapshot n x) staleContent.stepId .review = some x := reviewChild_stale hx
    have hne : x ≠ staleReview i := by
      rintro rfl
      have hseq := congrArg StepIdent.seq hx
      simp [staleReview, staleRunning, staleIdent] at hseq
      omega
    simp [hchild, hne]

/-! ### The next review is minted -/

/-- The row that the next tick mints. -/
def staleDict (n : ℕ) : StepDict :=
  reviewDict (staleSnapshot n (staleReview n)) staleContent "qa" 0 none

theorem staleDict_stepId (n : ℕ) : (staleDict n).stepId = reviewId "s1" 0 (n + 1) := by
  have hcount : (childrenOf (staleRows n (staleReview n)) "s1" .review).length = n + 1 := by
    rw [childrenOf_staleRows rfl]
    simp
  show reviewId "s1" 0 (childrenOf (staleRows n (staleReview n)) "s1" .review).length = _
  rw [hcount]

theorem staleDict_row (n : ℕ) : mintedRow "t" (staleDict n) (n + 3) = (staleIdent (n + 1)).pendingRow := by
  show StepIdent.pendingRow _ = StepIdent.pendingRow _
  rw [staleDict_stepId]
  rfl

/-- Its id is free. -/
theorem Desk.accepts (h : Desk n (staleReview n) next w) : ∃ db, w.ledger.db.insertStep "t" (staleDict n) = .ok db := by
  cases hinsert : w.ledger.db.insertStep "t" (staleDict n) with
  | ok db =>
      exact ⟨db, rfl⟩
  | error msg =>
      exfalso
      obtain ⟨row, hrow, -, hid⟩ := Db.insertStep_taken.1 ⟨msg, hinsert⟩
      rw [staleDict_stepId] at hid
      rw [h.steps] at hrow
      rcases mem_staleRows.1 hrow with rfl | ⟨i, hi, rfl⟩ | rfl
      · exact reviewId_ne_content _ hid.symm
      · have hrank := (reviewId_inj hid).2.2
        omega
      · have hrank := (reviewId_inj hid).2.2
        omega

theorem Desk.minted (h : Desk n (staleReview n) next w) {db : Db} (hinsert : w.ledger.db.insertStep "t" (staleDict n) = .ok db)
    (tasks : List TeamTask) :
    Desk (n + 1) (staleIdent (n + 1)).pendingRow next { w with ledger := (w.ledger.commit db).handOut tasks } := by
  obtain ⟨hrows, hlast, htasks⟩ := Db.insertStep_ok hinsert
  refine ⟨rfl, rfl, ?_, ?_, ?_, h.clock, h.lease, h.stale, h.silent, h.env⟩
  · show db.tasks.rows = _
    rw [htasks, h.tasks]
  · show db.steps.rows = _
    rw [hrows, h.steps, h.last, staleDict_row]
    simp [staleRows, List.range_succ]
  · show db.steps.last = _
    rw [hlast, h.last]

/-- The tick finds the newest review without a verdict and mints the next one. -/
theorem Desk.run_reviewRule (h : Desk n (staleReview n) next w) {db : Db}
    (hinsert : w.ledger.db.insertStep "t" (staleDict n) = .ok db) :
    (reviewRule (staleSnapshot n (staleReview n)) (staleReview n)).run (OfficeCall.handle sampleConfig.rt) w =
      (.ok (reviewHandled (staleSnapshot n (staleReview n)) (staleReview n) (db.get "t")),
        { w with ledger := (w.ledger.commit db).handOut (db.get "t").toList }) := by
  have hhandled : (maybeHandleReviewDone (staleSnapshot n (staleReview n)) (staleReview n)).run
      (OfficeCall.handle sampleConfig.rt) w = (.ok true, { w with ledger := w.ledger.commit db }) := by
    show Prog.run _ (actOnVerdict (staleSnapshot n (staleReview n)) staleContent (staleReview n)
      (w.files (reviewVerdictArtifactPath "t" 1 0))) w = _
    rw [h.silent]
    have hchild : reviewChild (staleSnapshot n (staleReview n)) staleContent.stepId .review = some (staleReview n) :=
      reviewChild_stale rfl
    have hinsert' : w.ledger.db.insertStep (staleSnapshot n (staleReview n)).id
        (reviewDict (staleSnapshot n (staleReview n)) staleContent (staleReview n).assignedTo
          (staleReview n).reviewRound none) = .ok db := hinsert
    unfold actOnVerdict
    simp only [hchild, if_true, insertStep, bind_eq, OfficeProg.store, ask_bind, Prog.bind, run, OfficeCall.handle,
      StoreOp.run, hinsert', StoreOp.checked, Prog.ofExcept, pure_eq]
  show Prog.run _ ((maybeHandleReviewDone (staleSnapshot n (staleReview n)) (staleReview n)).bind _) w = _
  rw [run_bind_ok hhandled]
  rfl

theorem Desk.listedTask (h : Desk n x next w) : (staleSnapshot n x).Listed where
  unique := by
    have hunique := (w.ledger.db.ordered "t").unique
    rw [h.stepsForTask] at hunique
    exact hunique
  dispatchable := rfl

theorem Desk.verified (h : Desk n x next w) : (staleSnapshot n x).planVerified sampleConfig.rt = true := by
  have hconfirmed : confirmedFields (staleRows n x) = [staleContent.toStepFields] := by
    have hnone : ((List.range n).map staleReview ++ [x]).filter (fun s => !s.systemInserted) = [] := by
      rw [List.filter_eq_nil_iff]
      intro r hr
      rcases List.mem_append.1 hr with hr | hr
      · obtain ⟨i, -, rfl⟩ := List.mem_map.1 hr
        simp [staleReview, staleRunning, staleIdent]
      · rw [List.mem_singleton.1 hr, h.ident]
        simp [staleIdent]
    unfold confirmedFields staleRows
    rw [List.filter_cons_of_pos (by rfl), hnone]
    rfl
  show ((staleRows n x).isEmpty || decide (staleTask.planHash =
    some (decompositionContentHash sampleConfig.rt (confirmedFields (staleRows n x))))) = true
  rw [hconfirmed]
  rfl

/-- The read of the snapshot. -/
theorem Desk.handOut (h : Desk n x next w) (tasks : List TeamTask) :
    Desk n x next { w with ledger := w.ledger.handOut tasks } :=
  ⟨h.ident, h.unpaid, h.tasks, h.steps, h.last, h.clock, h.lease, h.stale, h.silent, h.env⟩

/-- The end of the tick. -/
theorem Desk.cleanup (h : Desk n x next w) :
    Desk n x next { w with ledger := (StoreOp.cleanupStaleDrafts.run sampleConfig.rt w.ledger).2 } :=
  ⟨h.ident, h.unpaid, h.tasks, h.steps, h.last, h.clock, h.lease, h.stale, h.silent, h.env⟩

theorem Desk.withinCap (h : Desk n x next w) : w.ledger.db.sumCost (staleSnapshot n x).id ≤ sampleConfig.costCapUsd := by
  have hspent : w.ledger.db.sumCost (staleSnapshot n x).id = 1 := h.sumCost
  rw [hspent]
  decide

/-- The review rule passes over the step and the reviews before the newest. -/
theorem Desk.passed (h : Desk n x next w) {r : TeamStep} (hr : r = staleContent ∨ ∃ i < n, r = staleReview i) :
    (reviewRule (staleSnapshot n x) r).run (OfficeCall.handle sampleConfig.rt) w = (.ok none, w) := by
  have hruled : Ruled sampleConfig.rt (staleSnapshot n x) (reviewRule (staleSnapshot n x) r) w _ :=
    ruled_reviewRule h.listedTask r
  rw [reviewDecision_stale h.ident hr h] at hruled
  exact hruled

/-- So the newest review decides. -/
theorem Desk.run_maybeInsertReviewRows (h : Desk n x next w) :
    (maybeInsertReviewRows (staleSnapshot n x)).run (OfficeCall.handle sampleConfig.rt) w =
      (Prog.firstSome (reviewRule (staleSnapshot n x)) [x]).run (OfficeCall.handle sampleConfig.rt) w := by
  show Prog.run _ (Prog.firstSome _ ((staleContent :: (List.range n).map staleReview) ++ [x])) _ = _
  refine run_firstSome_append fun s hs => h.passed ?_
  rcases List.mem_cons.1 hs with rfl | hs
  · exact .inl rfl
  · obtain ⟨i, hi, rfl⟩ := List.mem_map.1 hs
    exact .inr ⟨i, List.mem_range.1 hi, rfl⟩

/-- What `_act_on_task` leaves behind: other rows, and the workers it has spawned. -/
def Acts (n : ℕ) (x : TeamStep) (w : Office) (m : ℕ) (y : TeamStep) (next : AttemptId) (new : List Spawn) : Prop :=
  ∃ r w', (actOnTask sampleConfig (staleSnapshot n x)).run (OfficeCall.handle sampleConfig.rt) w = (.ok r, w') ∧
    r.action ≠ .none ∧ Desk m y next w' ∧ w'.spawned = w.spawned ++ new

/-- A whole tick leaves behind what `_act_on_task` does. -/
theorem Desk.tick (h : Desk n x next w) {m next' : ℕ} {y : TeamStep} {new : List Spawn}
    (hacts : ∀ w₁, Desk n x next w₁ → Acts n x w₁ m y next' new) :
    ∃ w', ((tickerProg sampleConfig).run (OfficeCall.handle sampleConfig.rt) w).2 = w' ∧ Desk m y next' w' ∧
      w'.spawned = w.spawned ++ new := by
  obtain ⟨r, w', hact, hr, hdesk, hspawned⟩ := hacts _ (h.handOut [staleSnapshot n x])
  exact ⟨_, run_tickerProg h.listed hact hr, hdesk.cleanup, hspawned⟩

/-- The next review is minted. -/
theorem Desk.mints (h : Desk n (staleReview n) next w) :
    Acts n (staleReview n) w (n + 1) (staleIdent (n + 1)).pendingRow next [] := by
  obtain ⟨db, hinsert⟩ := h.accepts
  have hrule := h.run_reviewRule hinsert
  obtain ⟨r, hr, hacts⟩ := reviewHandled_acts h.listedTask (staleReview n) (db.get "t")
  rw [hr] at hrule
  have hrows : (maybeInsertReviewRows (staleSnapshot n (staleReview n))).run (OfficeCall.handle sampleConfig.rt) w =
      (.ok (some r), { w with ledger := (w.ledger.commit db).handOut (db.get "t").toList }) := by
    rw [h.run_maybeInsertReviewRows]
    exact run_firstSome_some hrule
  have hact := (run_actOnTask h.verified h.withinCap).trans (run_bind_ok hrows)
  exact ⟨r, _, hact, hacts, h.minted hinsert _, by simp⟩

/-! ### The review is spawned -/

theorem Desk.idle (h : Desk n x next w) (hrunning : x.status ≠ .running) (hawaiting : x.status ≠ .awaitingApproval) :
    inFlight (staleSnapshot n x) = false := by
  have hrows : ∀ s ∈ staleRows n x, s.status ≠ .running ∧ s.status ≠ .awaitingApproval := by
    intro s hs
    rcases mem_staleRows.1 hs with rfl | ⟨i, -, rfl⟩ | rfl
    · exact ⟨by decide, by decide⟩
    · exact ⟨nofun, nofun⟩
    · exact ⟨hrunning, hawaiting⟩
  simp only [inFlight, List.any_eq_false, Bool.or_eq_true, decide_eq_true_eq, not_or]
  exact hrows

/-- The pending review is the only step that is ready. -/
theorem readyPendingSteps_stale (n : ℕ) :
    readyPendingSteps (staleSnapshot n (staleIdent n).pendingRow) = [(staleIdent n).pendingRow] := by
  have hdone : "s1" ∈ ((staleRows n (staleIdent n).pendingRow).filter fun s => decide (s.status = .done)).map
      fun s => s.stepId := by
    refine List.mem_map.2 ⟨staleContent, List.mem_filter.2 ⟨mem_staleRows.2 (.inl rfl), rfl⟩, rfl⟩
  unfold readyPendingSteps
  show (staleContent :: ((List.range n).map staleReview ++ [(staleIdent n).pendingRow])).filter _ = _
  rw [List.filter_cons_of_neg (by simp [staleContent]), List.filter_append]
  have hnone : ((List.range n).map staleReview).filter (fun s => decide (s.status = .pending) && s.deps.all fun dep =>
      decide (dep ∈ ((staleSnapshot n (staleIdent n).pendingRow).steps.filter fun s => decide (s.status = .done)).map
        fun s => s.stepId)) = [] := by
    rw [List.filter_eq_nil_iff]
    intro s hs
    obtain ⟨i, -, rfl⟩ := List.mem_map.1 hs
    simp [staleReview]
  rw [hnone, List.nil_append, List.filter_cons_of_pos, List.filter_nil]
  simp only [StepIdent.pendingRow, staleIdent, decide_true, Bool.true_and, List.all_cons, List.all_nil, Bool.and_true]
  exact decide_eq_true hdone

/-- An update of the row with the id of the newest review. -/
theorem map_newest {p : TeamStep → Bool} {f : TeamStep → TeamStep} (hp : p x = true)
    (hsome : ∀ s, p s = true → s.stepId = reviewId "s1" 0 n) :
    ((staleRows n x).map fun s => if p s then f s else s) = staleRows n (f x) := by
  refine map_staleRows hp ?_ fun i hi => ?_
  · by_contra hcontent
    exact reviewId_ne_content n (hsome _ (by simpa using hcontent)).symm
  · by_contra hreview
    have hrank := (reviewId_inj (hsome _ (by simpa using hreview))).2.2
    omega

theorem isStep_newest {taskId : String} {s : TeamStep} (h : Db.isStep taskId (reviewId "s1" 0 n) s = true) :
    s.stepId = reviewId "s1" 0 n := by
  simp only [Db.isStep, Bool.and_eq_true, decide_eq_true_eq] at h
  exact h.2

theorem isStep_self (hx : x.toStepIdent = staleIdent n) : Db.isStep "t" (reviewId "s1" 0 n) x = true := by
  simp [Db.isStep, hx, staleIdent]

/-- The review is claimed and its worker started. -/
theorem Desk.spawned (h : Desk n (staleIdent n).pendingRow (n + 3) w) :
    Desk n (staleRunning n) (n + 4) (w.spawning sampleConfig.rt "t" (staleIdent n).pendingRow) := by
  have hreserve : ((StoreOp.reserveStep "t" (reviewId "s1" 0 n)).run sampleConfig.rt w.ledger).2 =
      { w.ledger.commit (w.ledger.db.reserveStep "t" (reviewId "s1" 0 n) (n + 3) 0 defaultLeaseTtl) with
        nextAttempt := n + 4 } := by
    simp only [StoreOp.run, h.getStep, h.lease, h.clock]
  have hledger : (w.spawning sampleConfig.rt "t" (staleIdent n).pendingRow).ledger =
      ((StoreOp.recordSpawn "t" (reviewId "s1" 0 n) 7).run sampleConfig.rt
        { w.ledger.commit (w.ledger.db.reserveStep "t" (reviewId "s1" 0 n) (n + 3) 0 defaultLeaseTtl) with
          nextAttempt := n + 4 }).2 := by
    rw [← hreserve]
    unfold Office.spawning
    rw [h.env]
    rfl
  constructor
  case steps =>
    have hclaimed : (w.ledger.db.reserveStep "t" (reviewId "s1" 0 n) (n + 3) 0 defaultLeaseTtl).steps.rows =
        staleRows n (Db.reserved (n + 3) 0 defaultLeaseTtl (staleIdent n).pendingRow) := by
      rw [← map_newest (isStep_self rfl) fun _ => isStep_newest, ← h.steps]
      rfl
    rw [hledger]
    show List.map (fun s : TeamStep => if Db.isStep "t" (reviewId "s1" 0 n) s then
      { s with childPid := some 7, lastSeen := some w.ledger.clock } else s)
        (w.ledger.db.reserveStep "t" (reviewId "s1" 0 n) (n + 3) 0 defaultLeaseTtl).steps.rows = _
    rw [hclaimed, h.clock]
    exact map_newest (isStep_self rfl) fun _ => isStep_newest
  case lease =>
    rw [hledger]
    rfl
  case clock =>
    rw [hledger]
    exact h.clock
  case last =>
    rw [hledger]
    exact h.last
  case tasks =>
    rw [hledger]
    exact h.tasks
  case stale =>
    exact h.stale
  case silent =>
    exact h.silent
  case env =>
    exact h.env
  case ident =>
    rfl
  case unpaid =>
    rfl

/-- The dispatch of the pending review. -/
theorem Desk.dispatches (h : Desk n (staleIdent n).pendingRow (n + 3) w) : ∃ detail,
    (dispatchReadySteps sampleConfig (staleSnapshot n (staleIdent n).pendingRow) [(staleIdent n).pendingRow]).run
      (OfficeCall.handle sampleConfig.rt) w =
        (.ok [⟨some "t", .spawned, detail⟩], w.spawning sampleConfig.rt "t" (staleIdent n).pendingRow) := by
  have hidle := h.idle nofun nofun
  have hroster : (w.env .assignableStaff).any (fun y => decide (y.1 = (staleIdent n).pendingRow.assignedTo)) = true := by
    rw [h.env]
    rfl
  have hspawn : ∃ detail, (reserveAndSpawn (staleSnapshot n (staleIdent n).pendingRow) (staleIdent n).pendingRow).run
      (OfficeCall.handle sampleConfig.rt) w =
        (.ok ⟨some "t", .spawned, detail⟩, w.spawning sampleConfig.rt "t" (staleIdent n).pendingRow) :=
    run_reserveAndSpawn hroster h.getStep
  obtain ⟨detail, hspawn⟩ := hspawn
  refine ⟨detail, ?_⟩
  have hslots : sampleConfig.concurrency - runningCount (staleSnapshot n (staleIdent n).pendingRow) = 2 := by
    rw [runningCount_idle hidle]
    rfl
  have hheadroom : (spawnHeadroomUsd (staleSnapshot n (staleIdent n).pendingRow) sampleConfig.costCapUsd
      (stepEstimate sampleConfig)).run (OfficeCall.handle sampleConfig.rt) w = (.ok 9, w) := by
    show (Except.ok (sampleConfig.costCapUsd - w.ledger.db.sumCost "t" -
      runningCount (staleSnapshot n (staleIdent n).pendingRow) * stepEstimate sampleConfig), w) = _
    rw [runningCount_idle hidle, h.sumCost]
    norm_num [sampleConfig]
  unfold dispatchReadySteps
  simp only [hslots]
  show Prog.run _ ((spawnHeadroomUsd (staleSnapshot n (staleIdent n).pendingRow) sampleConfig.costCapUsd
      (stepEstimate sampleConfig)).bind _) w = _
  rw [run_bind_ok hheadroom]
  have henough : ¬ ((9 : ℚ) - (([] : List TickResult).length : ℚ) * stepEstimate sampleConfig < stepEstimate sampleConfig) := by
    norm_num [stepEstimate, stepCostEstimateUsd, sampleConfig, maxSteps]
  show Prog.run _ (if (9 : ℚ) - (([] : List TickResult).length : ℚ) * stepEstimate sampleConfig < stepEstimate sampleConfig
    then _ else _) w = _
  rw [if_neg henough]
  exact (run_bind_ok hspawn).trans rfl

/-- The pending review is spawned. -/
theorem Desk.spawns (h : Desk n (staleIdent n).pendingRow (n + 3) w) :
    Acts n (staleIdent n).pendingRow w n (staleRunning n) (n + 4) [⟨"t", reviewId "s1" 0 n, "qa", n + 3⟩] := by
  have hrows : (maybeInsertReviewRows (staleSnapshot n (staleIdent n).pendingRow)).run
      (OfficeCall.handle sampleConfig.rt) w = (.ok none, w) := by
    rw [h.run_maybeInsertReviewRows]
    rfl
  obtain ⟨detail, hdispatch⟩ := h.dispatches
  have hfinish : (dispatchOrFinish sampleConfig (staleSnapshot n (staleIdent n).pendingRow)).run
      (OfficeCall.handle sampleConfig.rt) w =
        (.ok (combineSpawnResults (staleSnapshot n (staleIdent n).pendingRow) ⟨some "t", .spawned, detail⟩ []),
          w.spawning sampleConfig.rt "t" (staleIdent n).pendingRow) := by
    unfold dispatchOrFinish
    rw [readyPendingSteps_stale]
    exact (run_bind_ok hdispatch).trans rfl
  have hact := (run_actOnTask h.verified h.withinCap).trans
    ((run_bind_ok hrows).trans ((run_bind_ok (run_pollSteps (h.idle nofun nofun))).trans hfinish))
  refine ⟨_, _, hact, combineSpawnResults_acts nofun, h.spawned, ?_⟩
  show w.spawned ++ [⟨"t", reviewId "s1" 0 n, "qa", w.ledger.nextAttempt⟩] = _
  rw [h.lease]

/-! ### The review is stale -/

/-- The worker of the newest review. -/
def staleSpawn (n : ℕ) : Spawn :=
  ⟨"t", reviewId "s1" 0 n, "qa", n + 3⟩

/-- What it knows. -/
def staleContext (n : ℕ) : StepContext :=
  ⟨sampleConfig, staleSpawn n, "Title", staleRunning n⟩

/-- The review finds an artifact of another version than that of the finished step. -/
theorem Desk.run_runReview (h : Desk n (staleRunning n) next w) :
    (runReview (staleContext n)).run (OfficeCall.handle sampleConfig.rt) w = (.ok staleArtifact, w) := by
  have hstale : graded (w.files (stepArtifactPath "t" 1)) (some 2) = none := by
    unfold graded
    rw [Option.filter_eq_none_iff]
    intro a ha
    simp [h.stale a ha]
  have hcontent : (OfficeCall.store (.getStep "t" "s1")).handle sampleConfig.rt w = (some staleContent, w) := by
    simp only [OfficeCall.handle, StoreOp.run, h.getContent]
  have hread : (OfficeCall.readArtifact (stepArtifactPath "t" 1)).handle sampleConfig.rt w =
      (w.files (stepArtifactPath "t" 1), w) := rfl
  show Prog.run _ (call (OfficeCall.store (.getStep "t" "s1")) _) w = _
  rw [Prog.run, hcontent]
  show Prog.run _ (call (OfficeCall.store (.getStep "t" "s1")) _) w = _
  rw [Prog.run, hcontent]
  show Prog.run _ (call (OfficeCall.readArtifact (stepArtifactPath "t" 1)) _) w = _
  rw [Prog.run, hread]
  dsimp only [Prog.ret_bind, staleContent, Option.bind_some, Prog.bind]
  rw [hstale]
  rfl

/-- The outcome that it records. -/
def staleDone (n : ℕ) : StoreOp :=
  .markDone "t" (reviewId "s1" 0 n) (some s!"team-tasks/{(staleSpawn n).taskId}/step-{(staleRunning n).seq}.json") none
    (some (n + 3))

theorem Desk.done (h : Desk n (staleRunning n) next w) (tasks : List TeamTask) :
    Desk n (staleReview n) next
      { w with ledger := ((staleDone n).run sampleConfig.rt (w.ledger.handOut tasks)).2 } := by
  have hself : Db.isAttempt "t" (reviewId "s1" 0 n) (some (n + 3)) (staleRunning n) = true := by
    unfold Db.isAttempt
    rw [isStep_self rfl]
    simp [staleRunning]
  constructor
  case steps =>
    show List.map (fun s => if Db.isAttempt "t" (reviewId "s1" 0 n) (some (n + 3)) s then _ else s)
      w.ledger.db.steps.rows = _
    rw [h.steps, map_newest hself]
    · rfl
    · intro s hs
      simp only [Db.isAttempt, Bool.and_eq_true] at hs
      exact isStep_newest hs.1
  case tasks =>
    show List.map _ w.ledger.db.tasks.rows = _
    rw [h.tasks]
    simp [staleTask]
  case ident =>
    rfl
  case unpaid =>
    rfl
  case last =>
    exact h.last
  case clock =>
    exact h.clock
  case lease =>
    exact h.lease
  case stale =>
    exact h.stale
  case silent =>
    exact h.silent
  case env =>
    exact h.env

theorem Desk.run_stepWorker (h : Desk n (staleRunning n) next w) :
    ∃ tasks, ((stepWorker sampleConfig (staleSpawn n)).run (OfficeCall.handle sampleConfig.rt) w).2 =
      { w with ledger := ((staleDone n).run sampleConfig.rt (w.ledger.handOut tasks)).2 } := by
  refine ⟨[staleSnapshot n (staleRunning n)], ?_⟩
  have hverify : (OfficeCall.store (.verifyAttempt "t" (reviewId "s1" 0 n) (n + 3))).handle sampleConfig.rt w = (true, w) := by
    have hverified : w.ledger.db.verifyAttempt "t" (reviewId "s1" 0 n) (n + 3) = true := by
      unfold Db.verifyAttempt
      rw [h.getStep]
      simp [staleRunning]
    simp only [OfficeCall.handle, StoreOp.run, hverified]
  have hrow : (OfficeCall.store (.getStep "t" (reviewId "s1" 0 n))).handle sampleConfig.rt w =
      (some (staleRunning n), w) := by
    simp only [OfficeCall.handle, StoreOp.run, h.getStep]
  have hget : (OfficeCall.store (.get "t")).handle sampleConfig.rt w =
      (some (staleSnapshot n (staleRunning n)), { w with ledger := w.ledger.handOut [staleSnapshot n (staleRunning n)] }) := by
    simp only [OfficeCall.handle, StoreOp.run, h.get, Option.toList_some]
  have hleased : (runLeased (staleContext n)).run (OfficeCall.handle sampleConfig.rt)
      { w with ledger := w.ledger.handOut [staleSnapshot n (staleRunning n)] } =
        (.ok .done, { w with ledger := ((staleDone n).run sampleConfig.rt
          (w.ledger.handOut [staleSnapshot n (staleRunning n)])).2 }) :=
    (run_bind_ok (h.handOut _).run_runReview).trans rfl
  have hstep : (runTeamStep sampleConfig (staleSpawn n)).run (OfficeCall.handle sampleConfig.rt) w = (.ok .done, { w with ledger :=
      ((staleDone n).run sampleConfig.rt (w.ledger.handOut [staleSnapshot n (staleRunning n)])).2 }) := by
    show Prog.run _ (call (OfficeCall.store (.verifyAttempt "t" (reviewId "s1" 0 n) (n + 3))) _) w = _
    rw [Prog.run, hverify]
    show Prog.run _ (call (OfficeCall.store (.getStep "t" (reviewId "s1" 0 n))) _) w = _
    rw [Prog.run, hrow]
    show Prog.run _ (call (OfficeCall.store (.get "t")) _) w = _
    rw [Prog.run, hget]
    exact run_catchWith_ok hleased
  have hworker : (stepWorker sampleConfig (staleSpawn n)).run (OfficeCall.handle sampleConfig.rt) w = (.ok (),
      { w with ledger := ((staleDone n).run sampleConfig.rt (w.ledger.handOut [staleSnapshot n (staleRunning n)])).2 }) :=
    run_catchWith_ok ((run_bind_ok hstep).trans rfl)
  rw [hworker]

end Desk

/-! ### The loop -/

/-- The first worker of the step is taken for dead; the second one finishes, and then the first overwrites the
file.  The first review finds it so. -/
def staleActs : List OfficeAct :=
  zombieActs ++ [.call 1 100, .leave 1, .call 0 100, .leave 0] ++ wholeTick ++ wholeTurn

/-- The office after the first review. -/
def stalePool : OfficePool :=
  sampleRun sampleConfig twoOnDuty staleActs ⟨.holding (sampleEnv "pass") (.confirmed sampleConfig.rt reviewedPlan), []⟩

theorem stalePool_reach : (officeSystem sampleConfig twoOnDuty anyCall).Reach (officeInit twoOnDuty) stalePool :=
  reach_sampleRun _ (reach_confirmed reviewedPlan rfl)

/-- What the run has left behind. -/
theorem stalePool_state : stalePool.procs.length = 0 ∧ stalePool.world.ledger.db.tasks.rows = [staleTask] ∧
    stalePool.world.ledger.db.steps.rows = staleRows 0 (staleReview 0) ∧ stalePool.world.ledger.db.steps.last = 2 ∧
    stalePool.world.ledger.clock = 0 ∧ stalePool.world.ledger.nextAttempt = 4 ∧
    (stalePool.world.files (stepArtifactPath "t" 1)).map Artifact.lockedVersion = some (some 1) ∧
    stalePool.world.files (reviewVerdictArtifactPath "t" 1 0) = none := by
  decide +kernel

theorem stalePool_desk : Desk 0 (staleReview 0) 4 stalePool.world := by
  obtain ⟨-, htasks, hsteps, hlast, hclock, hlease, hversion, hsilent⟩ := stalePool_state
  refine ⟨rfl, rfl, htasks, hsteps, hlast, hclock, hlease, fun a ha => ?_, hsilent, env_execAll _ _⟩
  rw [ha] at hversion
  rw [Option.some.inj hversion]
  decide

theorem reach_of_idle {S : System Office OfficeParty OfficeCall OfficeCall.Resp} {init : OfficePool → Prop} {pool : OfficePool}
    (h : S.Reach init pool) (hidle : pool.procs = []) : S.Reach init ⟨pool.world, []⟩ := by
  rw [← hidle]
  exact h

/-- Three processes later there is one review more. -/
theorem Desk.again {n : ℕ} {w : Office} (h : Desk n (staleReview n) (n + 4) w)
    (hreach : (officeSystem sampleConfig twoOnDuty anyCall).Reach (officeInit twoOnDuty) ⟨w, []⟩) :
    ∃ w', Desk (n + 1) (staleReview (n + 1)) (n + 5) w' ∧
      (officeSystem sampleConfig twoOnDuty anyCall).Reach (officeInit twoOnDuty) ⟨w', []⟩ := by
  obtain ⟨w₁, hrun₁, hdesk₁, hspawned₁⟩ := h.tick fun _ hshown => hshown.mints
  have hreach₁ := reach_tick hreach hrun₁ hspawned₁
  obtain ⟨w₂, hrun₂, hdesk₂, hspawned₂⟩ := hdesk₁.tick fun _ hshown => hshown.spawns
  have hreach₂ := reach_tick hreach₁ hrun₂ hspawned₂
  obtain ⟨tasks, hrun₃⟩ := hdesk₂.run_stepWorker
  exact ⟨_, hdesk₂.done tasks, reach_worker hreach₂ hrun₃ rfl⟩

/-- Any number of reviews. -/
theorem stale_forever (n : ℕ) : ∃ w, Desk n (staleReview n) (n + 4) w ∧
    (officeSystem sampleConfig twoOnDuty anyCall).Reach (officeInit twoOnDuty) ⟨w, []⟩ := by
  induction n with
  | zero =>
      exact ⟨stalePool.world, stalePool_desk, reach_of_idle stalePool_reach (List.length_eq_zero_iff.1 stalePool_state.1)⟩
  | succ n ih =>
      obtain ⟨w, hdesk, hreach⟩ := ih
      exact hdesk.again hreach

theorem staleIdent_injective : Function.Injective staleIdent := by
  intro i j h
  have hseq := congrArg StepIdent.seq h
  simpa [staleIdent] using hseq

/-- All the reviews were minted. -/
theorem Desk.le_minted {n next : ℕ} {x : TeamStep} {w : Office} (h : Desk n x next w) (hinv : w.ledger.Inv sampleConfig.rt) :
    n + 1 ≤ (w.ledger.minted "t" "s1").card := by
  have hsub : (Finset.range (n + 1)).image staleIdent ⊆ w.ledger.minted "t" "s1" := by
    intro i hi
    obtain ⟨k, hk, rfl⟩ := Finset.mem_image.1 hi
    have hrow : ∃ row ∈ w.ledger.db.steps.rows, row.toStepIdent = staleIdent k := by
      rw [h.steps]
      rcases Nat.lt_succ_iff_lt_or_eq.1 (Finset.mem_range.1 hk) with hlt | rfl
      · exact ⟨staleReview k, mem_staleRows.2 (.inr (.inl ⟨k, hlt, rfl⟩)), rfl⟩
      · exact ⟨x, mem_staleRows.2 (.inr (.inr rfl)), h.ident⟩
    obtain ⟨row, hrow, hident⟩ := hrow
    have hever := hinv.history.everRows row hrow
    rw [hident] at hever
    rw [Ledger.minted, List.mem_toFinset, List.mem_filter]
    exact ⟨hever, by simp [staleIdent]⟩
  calc n + 1 = ((Finset.range (n + 1)).image staleIdent).card := by
        rw [Finset.card_image_of_injective _ staleIdent_injective, Finset.card_range]
    _ ≤ _ := Finset.card_le_card hsub

/-- No number bounds the rows that are minted for a step while its task is open. -/
theorem mints_unbounded :
    ¬ ∃ bound, ∀ pool, (officeSystem sampleConfig twoOnDuty anyCall).Reach (officeInit twoOnDuty) pool →
      ∀ task ∈ pool.world.ledger.db.listDispatchable, ∀ contentStepId,
        (pool.world.ledger.minted task.id contentStepId).card ≤ bound := by
  rintro ⟨bound, hclaim⟩
  obtain ⟨w, hdesk, hreach⟩ := stale_forever bound
  have hopen : staleSnapshot bound (staleReview bound) ∈ w.ledger.db.listDispatchable := by
    rw [hdesk.listed]
    exact List.mem_singleton.2 rfl
  have hle : (w.ledger.minted "t" "s1").card ≤ bound := hclaim _ hreach _ hopen "s1"
  have hmany := hdesk.le_minted (officeOk Function.injective_id hreach).inv.ledger
  omega

end ProjectManager
