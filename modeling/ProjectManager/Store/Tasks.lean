import ProjectManager.Plan.Decomposition
import ProjectManager.Store.Steps

/-!
# Task rows and amendment drafts

The task-level functions of `TeamTaskStore` and the amendment drafts of `team_task_amend`, each as one
atomic operation on the tables.  `confirmAmendment` is the transaction that applies a draft:
`confirmAmendment_ok` says what it has done when it reports success, `confirmAmendment_kept` that it
leaves the tables alone when it does not.
-/

namespace ProjectManager

open Table

namespace Db

/-! ### Task rows -/

/-- `create_task`. -/
def createTask (db : Db) (taskId title originalRequest assignedBy picId roomId : String) (now : Time) :
    Except String Db :=
  if roomId = "office" then
    .error "room_id 'office' là phòng nhật ký tổng — không thể làm workroom"
  else
    match db.tasks.insert?
        { id := taskId
          title := title
          originalRequest := originalRequest
          status := .planning
          createdAt := now
          assignedBy := assignedBy
          costUsdTotal := 0
          planHash := none
          decomposeCostUsd := 0
          aggregateCostUsd := 0
          picId := picId
          roomId := roomId } with
    | some tasks => .ok { db with tasks := tasks }
    | none => .error "UNIQUE constraint failed: team_tasks.id"

/-- Changes the rows of one task; the id stays. -/
def updateTask (db : Db) (taskId : String) (f : TaskRow → TaskRow) (hf : ∀ r, (f r).id = r.id) : Db :=
  { db with tasks := db.tasks.updateWhere (fun r => decide (r.id = taskId)) f hf }

/-- `UPDATE team_tasks SET plan_hash = ?`. -/
def setPlanHash (db : Db) (taskId planHash : String) : Db :=
  db.updateTask taskId (fun r => { r with planHash := some planHash }) fun _ => rfl

/-- `set_task_status`. -/
def setTaskStatus (db : Db) (taskId : String) (status : TaskStatus) : Db :=
  db.updateTask taskId (fun r => { r with status := status }) fun _ => rfl

/-- `set_draft_plan`: the steps and the hash, in one transaction; the status stays. -/
def setDraftPlan (db : Db) (taskId : String) (steps : List StepDict) (planHash : String) : Except String Db :=
  match db.replaceSteps taskId steps with
  | some db' => .ok (db'.setPlanHash taskId planHash)
  | none => .error stepKeyTaken

/-- The test of `confirm_plan`: the task is still a draft and carries the expected hash. -/
def confirmable (db : Db) (taskId expectedHash : String) : Bool :=
  match db.tasks.find? taskId with
  | none => false
  | some row => decide (row.status = .planning) && decide (row.planHash = some expectedHash)

/-- `confirm_plan`, run without interruption. -/
def confirmPlan (db : Db) (taskId expectedHash : String) : Bool × Db :=
  if db.confirmable taskId expectedHash then
    (true, db.setTaskStatus taskId .opened)
  else
    (false, db)

/-- `cancel_draft`: one statement, guarded by the status. -/
def cancelDraft (db : Db) (taskId : String) : Bool × Db :=
  let draft := fun r : TaskRow => decide (r.id = taskId) && decide (r.status = .planning)
  (db.tasks.rows.any draft,
    { db with tasks := db.tasks.updateWhere draft (fun r => { r with status := .cancelled }) fun _ => rfl })

/-- `record_task_cost`. -/
def recordTaskCost (db : Db) (taskId : String) (decompose aggregate : Option ℚ) : Db :=
  db.updateTask taskId
    (fun r =>
      { r with
        decomposeCostUsd := r.decomposeCostUsd + decompose.getD 0
        aggregateCostUsd := r.aggregateCostUsd + aggregate.getD 0 })
    fun _ => rfl

/-! ### Amendment drafts -/

/-- `DEFAULT_DRAFT_TTL_S`. -/
def draftTtl : ℕ := 3600

/-- `set_amendment_draft`: an earlier live draft of the task becomes stale. -/
def setAmendmentDraft (db : Db) (amendmentId : ℕ) (taskId basePlanHash newPlanHash : String)
    (newPendingSteps : List StepDict) (oldPendingStepIds : List String) (now : Time) : Except String Db :=
  let live := fun d : AmendmentDraft => decide (d.taskId = taskId) && decide (d.status = .draft)
  match (db.amendments.updateWhere live (fun d => { d with status := .stale }) fun _ => rfl).insert?
      { amendmentId := amendmentId
        taskId := taskId
        basePlanHash := basePlanHash
        newPlanHash := newPlanHash
        newPendingSteps := newPendingSteps
        oldPendingStepIds := oldPendingStepIds.insertionSort (· ≤ ·)
        status := .draft
        createdAt := now } with
  | some amendments => .ok { db with amendments := amendments }
  | none => .error "UNIQUE constraint failed: team_task_amendments.amendment_id"

/-- Changes the status of the drafts that match. -/
def setDraftStatus (db : Db) (p : AmendmentDraft → Bool) (status : AmendmentStatus) : Db :=
  { db with amendments := db.amendments.updateWhere p (fun d => { d with status := status }) fun _ => rfl }

/-- `cancel_amendment_draft`. -/
def cancelAmendmentDraft (db : Db) (amendmentId : ℕ) : Bool × Db :=
  let live := fun d : AmendmentDraft => decide (d.amendmentId = amendmentId) && decide (d.status = .draft)
  (db.amendments.rows.any live, db.setDraftStatus live .cancelled)

/-- `cleanup_stale_drafts`. -/
def cleanupStaleDrafts (db : Db) (now : Time) (ttl : ℕ) : ℕ × Db :=
  let old := fun d : AmendmentDraft => decide (d.status = .draft) && decide (d.createdAt + ttl < now)
  (db.amendments.rows.countP old, db.setDraftStatus old .expired)

/-- `full_dag_plan_hash`: the hash over every row, minted ones included. -/
def fullDagPlanHash (rt : Runtime) (steps : List TeamStep) : String :=
  decompositionContentHash rt (steps.map fun s => s.toStepFields)

/-- `ConfirmAmendmentResult`. -/
structure ConfirmAmendmentResult where
  ok : Bool
  reason : String := ""
  skippedStepIds : List String := []
deriving DecidableEq, Repr

/-- `confirm_amendment`: one transaction that re-validates the draft, swaps the pending rows, binds the
new hash and consumes the draft; rolled back on every other way out. -/
def confirmAmendment (rt : Runtime) (db : Db) (taskId : String) (amendmentId : ℕ) :
    Except String ConfirmAmendmentResult × Db :=
  match db.amendments.find? amendmentId with
  | none => (.ok { ok := false, reason := "amendment_not_found" }, db)
  | some draft =>
      if draft.taskId ≠ taskId then
        (.ok { ok := false, reason := "amendment_not_found" }, db)
      else if draft.status ≠ .draft then
        (.ok { ok := false, reason := "amendment_not_live" }, db)
      else if fullDagPlanHash rt (db.stepsForTask taskId) ≠ draft.basePlanHash then
        (.ok { ok := false, reason := "plan_changed_since_draft" }, db)
      else
        match db.swapPendingSteps taskId draft.newPendingSteps draft.oldPendingStepIds with
        | .error msg => (.error msg, db)
        | .ok (skipped, db') =>
            if skipped ≠ [] then
              (.ok { ok := false, reason := "pending_step_just_reserved", skippedStepIds := skipped }, db)
            else
              (.ok { ok := true },
                (db'.setPlanHash taskId draft.newPlanHash).setDraftStatus
                  (fun d => decide (d.amendmentId = amendmentId)) .confirmed)

/-! ### What the operations do -/

@[simp] theorem updateTask_steps {db : Db} {taskId : String} {f : TaskRow → TaskRow}
    {hf : ∀ r, (f r).id = r.id} : (db.updateTask taskId f hf).steps = db.steps :=
  rfl

@[simp] theorem updateTask_amendments {db : Db} {taskId : String} {f : TaskRow → TaskRow}
    {hf : ∀ r, (f r).id = r.id} : (db.updateTask taskId f hf).amendments = db.amendments :=
  rfl

theorem mem_updateTask {db : Db} {taskId : String} {f : TaskRow → TaskRow} {hf : ∀ r, (f r).id = r.id}
    {row : TaskRow} (h : row ∈ (db.updateTask taskId f hf).tasks.rows) :
    ∃ old ∈ db.tasks.rows, (old.id = taskId ∧ row = f old) ∨ (old.id ≠ taskId ∧ row = old) := by
  have hmem : row ∈ (db.tasks.updateWhere (fun r => decide (r.id = taskId)) f hf).rows := h
  obtain ⟨old, hold, hrow⟩ := Keyed.mem_updateWhere.1 hmem
  by_cases hid : old.id = taskId
  · exact ⟨old, hold, .inl ⟨hid, by simpa [hid] using hrow⟩⟩
  · exact ⟨old, hold, .inr ⟨hid, by simpa [hid] using hrow⟩⟩

theorem mem_updateTask_of_mem {db : Db} (taskId : String) (f : TaskRow → TaskRow)
    (hf : ∀ r, (f r).id = r.id) {row : TaskRow} (h : row ∈ db.tasks.rows) :
    (if row.id = taskId then f row else row) ∈ (db.updateTask taskId f hf).tasks.rows := by
  have hmem : (if row.id = taskId then f row else row) ∈
      (db.tasks.updateWhere (fun r => decide (r.id = taskId)) f hf).rows :=
    Keyed.mem_updateWhere.2 ⟨row, h, by simp⟩
  exact hmem

/-- What `set_draft_plan` has done when it has not raised. -/
theorem setDraftPlan_ok {db db' : Db} {taskId planHash : String} {steps : List StepDict}
    (h : db.setDraftPlan taskId steps planHash = .ok db') :
    db'.steps.rows = (db.steps.rows.filter fun s => !decide (s.taskId = taskId)) ++
        Auto.numbered (confirmedRow taskId) db.steps.last steps ∧
      db'.steps.last = db.steps.last + steps.length ∧
      db'.tasks = (db.setPlanHash taskId planHash).tasks ∧ db'.amendments = db.amendments := by
  unfold setDraftPlan at h
  split at h
  case h_2 =>
    cases h
  case h_1 db₁ hreplace =>
    obtain rfl := Except.ok.inj h
    obtain ⟨table, htable, rfl⟩ := Option.map_eq_some_iff.1 hreplace
    obtain ⟨hrows, hlast⟩ := Auto.insertAll?_eq_some htable
    exact ⟨hrows, hlast, rfl, rfl⟩

/-- What has happened when `confirm_amendment` reports success. -/
structure Amended (db : Db) (taskId : String) (draft : AmendmentDraft) (db' : Db) : Prop where
  mem : draft ∈ db.amendments.rows
  task : draft.taskId = taskId
  live : draft.status = .draft
  pending : ∀ id ∈ draft.oldPendingStepIds, db.currentStatus taskId id = some .pending
  rows : db'.steps.rows =
    (db.steps.rows.filter fun s =>
      !(decide (s.taskId = taskId) && decide (s.stepId ∈ draft.oldPendingStepIds) &&
        decide (s.status = .pending))) ++
      Auto.numbered (confirmedRow taskId) db.steps.last draft.newPendingSteps
  last : db'.steps.last = db.steps.last + draft.newPendingSteps.length
  tasks : db'.tasks = (db.setPlanHash taskId draft.newPlanHash).tasks
  amendments : db'.amendments =
    (db.setDraftStatus (fun d => decide (d.amendmentId = draft.amendmentId)) .confirmed).amendments

theorem swapPendingSteps_nil {db db' : Db} {taskId : String} {newPending : List StepDict}
    {expected : List String} (h : db.swapPendingSteps taskId newPending expected = .ok ([], db')) :
    (∀ id ∈ expected, db.currentStatus taskId id = some .pending) ∧
      db'.steps.rows =
        (db.steps.rows.filter fun s =>
          !(decide (s.taskId = taskId) && decide (s.stepId ∈ expected) && decide (s.status = .pending))) ++
          Auto.numbered (confirmedRow taskId) db.steps.last newPending ∧
      db'.steps.last = db.steps.last + newPending.length ∧
      db'.tasks = db.tasks ∧ db'.amendments = db.amendments := by
  simp only [swapPendingSteps] at h
  split at h
  case isTrue hskip =>
    have hsorted := (Prod.mk.inj (Except.ok.inj h)).1
    rw [← List.length_eq_zero_iff, List.length_insertionSort, List.length_eq_zero_iff] at hsorted
    exact absurd hsorted hskip
  case isFalse hskip =>
    obtain ⟨hpending, hlast, hrows⟩ := swapDelete_nil (not_not.1 hskip)
    split at h
    case h_1 table hinsert =>
      obtain ⟨-, rfl⟩ := Prod.mk.inj (Except.ok.inj h)
      obtain ⟨hall, hlast'⟩ := Auto.insertAll?_eq_some hinsert
      refine ⟨hpending, ?_, ?_, rfl, rfl⟩
      · rw [hall, hrows, hlast]
      · rw [hlast', hlast]
    case h_2 =>
      cases h

/-- The way through `confirm_amendment` that reports success. -/
theorem confirmAmendment_path {rt : Runtime} {db : Db} {taskId : String} {amendmentId : ℕ}
    {r : ConfirmAmendmentResult} (h : (db.confirmAmendment rt taskId amendmentId).1 = .ok r)
    (hok : r.ok = true) :
    ∃ draft db', db.amendments.find? amendmentId = some draft ∧ draft.taskId = taskId ∧
      draft.status = .draft ∧ fullDagPlanHash rt (db.stepsForTask taskId) = draft.basePlanHash ∧
      db.swapPendingSteps taskId draft.newPendingSteps draft.oldPendingStepIds = .ok ([], db') := by
  unfold confirmAmendment at h
  split at h
  · obtain rfl := Except.ok.inj h
    cases hok
  rename_i draft hdraft
  split at h
  · obtain rfl := Except.ok.inj h
    cases hok
  rename_i htask
  split at h
  · obtain rfl := Except.ok.inj h
    cases hok
  rename_i hlive
  split at h
  · obtain rfl := Except.ok.inj h
    cases hok
  rename_i hhash
  split at h
  · cases h
  rename_i skipped db' hswap
  split at h
  · obtain rfl := Except.ok.inj h
    cases hok
  rename_i hskip
  obtain rfl := not_not.1 hskip
  exact ⟨draft, db', hdraft, not_not.1 htask, not_not.1 hlive, not_not.1 hhash, hswap⟩

/-- A reported success of `confirm_amendment`. -/
theorem confirmAmendment_ok {rt : Runtime} {db : Db} {taskId : String} {amendmentId : ℕ}
    {r : ConfirmAmendmentResult} (h : (db.confirmAmendment rt taskId amendmentId).1 = .ok r)
    (hok : r.ok = true) :
    ∃ draft, draft.amendmentId = amendmentId ∧
      fullDagPlanHash rt (db.stepsForTask taskId) = draft.basePlanHash ∧
      Amended db taskId draft (db.confirmAmendment rt taskId amendmentId).2 := by
  obtain ⟨draft, db', hfind, htask, hlive, hhash, hswap⟩ := confirmAmendment_path h hok
  obtain ⟨hmem, hid⟩ := Keyed.find?_eq_some.1 hfind
  obtain ⟨hpending, hrows, hlast, htasks, hamend⟩ := swapPendingSteps_nil hswap
  have hval : (db.confirmAmendment rt taskId amendmentId).2 =
      (db'.setPlanHash taskId draft.newPlanHash).setDraftStatus
        (fun d => decide (d.amendmentId = amendmentId)) .confirmed := by
    simp [confirmAmendment, hfind, htask, hlive, hhash, hswap]
  refine ⟨draft, hid, hhash, ?_⟩
  rw [hval]
  exact
    { mem := hmem
      task := htask
      live := hlive
      pending := hpending
      rows := hrows
      last := hlast
      tasks := by
        simp only [setDraftStatus, setPlanHash, updateTask, htasks]
      amendments := by
        simp only [setDraftStatus, setPlanHash, updateTask, hamend, hid] }

/-- Without success `confirm_amendment` leaves the tables as they are. -/
theorem confirmAmendment_kept {rt : Runtime} {db : Db} {taskId : String} {amendmentId : ℕ}
    (h : ∀ r, (db.confirmAmendment rt taskId amendmentId).1 = .ok r → r.ok = false) :
    (db.confirmAmendment rt taskId amendmentId).2 = db := by
  unfold confirmAmendment at h ⊢
  split
  · rfl
  split
  · rfl
  split
  · rfl
  split
  · rfl
  split
  · rfl
  split
  · rfl
  · simp_all

end Db

end ProjectManager
