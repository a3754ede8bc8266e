import ProjectManager.Store.Invariant

/-!
# Every operation keeps the invariant

The changes that insert rows: a row minted by the ticker, a draft plan stored for a task that was never
opened, and an amendment applied.  The last one is where the hashes have to agree: the draft was made
from an older snapshot, and `Amended.sameRows` shows that the rows it kept are the rows that are there.
`Ledger.Reach.inv` concludes that the invariant holds in every reachable store.
-/

namespace ProjectManager

open Table

namespace Ledger

variable {rt : Runtime} {l : Ledger}

/-! ### Lists of rows -/

theorem confirmedFields_append (a b : List TeamStep) :
    confirmedFields (a ++ b) = confirmedFields a ++ confirmedFields b := by
  simp [confirmedFields]

/-- The rows that a list of plan steps makes. -/
theorem confirmedFields_numbered (taskId : String) (n : ℕ) (steps : List StepDict) :
    confirmedFields (Auto.numbered (confirmedRow taskId) n steps) = steps.map StepDict.fields := by
  unfold confirmedFields
  rw [Auto.filter_numbered fun _ _ => by simp]
  exact Auto.map_numbered (confirmedRow taskId) _ _ (confirmedRow_fields taskId) n steps

theorem numbered_forTask (taskId taskId' : String) (n : ℕ) (steps : List StepDict) :
    (Auto.numbered (confirmedRow taskId) n steps).filter (fun s => decide (s.taskId = taskId')) =
      if taskId = taskId' then Auto.numbered (confirmedRow taskId) n steps else [] := by
  split
  case isTrue heq =>
    exact Auto.filter_numbered (fun _ _ => by simp [heq]) n steps
  case isFalse hne =>
    rw [List.filter_eq_nil_iff]
    intro s hs
    obtain ⟨d, -, m, -, -, rfl⟩ := Auto.mem_numbered hs
    simp [hne]

theorem toDict_fields (steps : List TeamStepPlan) :
    (steps.map TeamStepPlan.toDict).map StepDict.fields = steps.map fun s => s.toStepFields := by
  rw [List.map_map]
  rfl

/-- The rows of validated plan steps. -/
theorem numbered_confirmed {taskId : String} {n : ℕ} {plan : DecomposedTask} {s : TeamStep}
    (hs : s ∈ Auto.numbered (confirmedRow taskId) n (plan.steps.map TeamStepPlan.toDict)) :
    s.taskId = taskId ∧ n < s.seq ∧ s.status = .pending ∧ s.attemptId = none ∧
      s.systemInserted = false ∧ s.toStepFields.Stripped ∧ s.stepType = .work := by
  obtain ⟨d, hd, m, hlo, -, rfl⟩ := Auto.mem_numbered hs
  obtain ⟨p, hp, rfl⟩ := List.mem_map.1 hd
  exact ⟨rfl, hlo, rfl, rfl, rfl, p.stripped, plan.work p hp⟩

/-! ### Tasks -/

theorem Opened.unique {taskId : String} (h : l.Opened taskId) {row : TaskRow} (hrow : row ∈ l.db.tasks.rows)
    (hid : row.id = taskId) : row.status.everOpened = true := by
  obtain ⟨row', hrow', hid', hopen⟩ := h
  rwa [← eq_of_key l.db.tasks.nodup hrow' hrow (hid'.trans hid.symm)]

theorem Unopened.unique {taskId : String} (h : l.Unopened taskId) {row : TaskRow}
    (hrow : row ∈ l.db.tasks.rows) (hid : row.id = taskId) : row.status.everOpened = false := by
  obtain ⟨row', hrow', hid', hclosed⟩ := h
  rwa [← eq_of_key l.db.tasks.nodup hrow' hrow (hid'.trans hid.symm)]

/-- A change of one task's row that keeps its hash. -/
theorem tasksFollow_update {tasks tasks' : List TaskRow} {p : TaskRow → Bool} {f : TaskRow → TaskRow}
    (hrows : tasks' = tasks.map fun r => if p r then f r else r) (hid : ∀ r, (f r).id = r.id)
    (hplan : ∀ r, (f r).planHash = r.planHash)
    (hback : ∀ r ∈ tasks, p r = true →
      ((f r).status.everOpened = false → r.status.everOpened = false) ∧
      ((f r).status.everOpened = true → r.status.everOpened = true ∨ r.planHash ≠ none)) :
    TasksFollow tasks tasks' where
  back := by
    intro row' hrow'
    rw [hrows] at hrow'
    obtain ⟨row, hrow, hrow'eq⟩ := List.mem_map.1 hrow'
    refine ⟨row, hrow, ?_⟩
    rw [← hrow'eq]
    split
    case isTrue hp =>
      exact ⟨hid row, hplan row, (hback row hrow hp).1, (hback row hrow hp).2⟩
    case isFalse =>
      exact ⟨rfl, rfl, id, fun h => .inl h⟩
  forth := by
    intro row hrow
    rw [hrows]
    refine ⟨_, List.mem_map.2 ⟨row, hrow, rfl⟩, ?_⟩
    split
    case isTrue hp =>
      refine ⟨hid row, hplan row, fun hopen => ?_⟩
      by_contra hclosed
      have hclosed' := (hback row hrow hp).1 (by simpa using hclosed)
      rw [hopen] at hclosed'
      cases hclosed'
    case isFalse =>
      exact ⟨rfl, rfl, id⟩

/-- Only task rows change. -/
theorem Inv.tasksOnly (h : Inv rt l) {db' : Db} (hsteps : db'.steps = l.db.steps)
    (htasks : TasksFollow l.db.tasks.rows db'.tasks.rows) (hamend : db'.amendments = l.db.amendments) :
    Inv rt (l.commit db') := by
  have hid : RowsFollow l id :=
    { ident := fun _ => rfl
      back := fun _ hp => ⟨hp, rfl⟩
      forth := fun _ _ hp => .inl hp }
  exact h.rewrite (by rw [hsteps, List.map_id]) (by rw [hsteps]) hid htasks hamend h.tables.issued

theorem Inv.createTask (h : Inv rt l) {db' : Db} {taskId title request assignedBy picId roomId : String}
    (hok : l.db.createTask taskId title request assignedBy picId roomId l.clock = .ok db') :
    Inv rt (l.commit db') := by
  unfold Db.createTask at hok
  split at hok
  · cases hok
  split at hok
  case h_2 =>
    cases hok
  case h_1 tasks hinsert =>
    obtain rfl := Except.ok.inj hok
    obtain ⟨hfree, hrows⟩ := Keyed.insert?_eq_some hinsert
    have hnew : ∀ s ∈ l.db.steps.rows, s.taskId ≠ taskId := by
      intro s hs htask
      obtain ⟨row, hrow, hid, -⟩ := h.tables.owned s hs
      exact hfree (List.mem_map.2 ⟨row, hrow, hid.trans htask⟩)
    refine h.commit (n := l.nextAttempt) ?_ ?_ (drafts_same rfl)
    · constructor
      case plan =>
        intro row hrow hash hhash
        rw [hrows, List.mem_append, List.mem_singleton] at hrow
        rcases hrow with hrow | rfl
        · exact h.tables.plan row hrow hash hhash
        · cases hhash
      case owned =>
        intro s hs
        obtain ⟨row, hrow, hid, hplan⟩ := h.tables.owned s hs
        exact ⟨row, by rw [hrows]; exact List.mem_append_left _ hrow, hid, hplan⟩
      case bound =>
        intro row hrow hopen
        rw [hrows, List.mem_append, List.mem_singleton] at hrow
        rcases hrow with hrow | rfl
        · exact h.tables.bound row hrow hopen
        · cases hopen
      case fresh =>
        intro row hrow hclosed s hs
        rw [hrows, List.mem_append, List.mem_singleton] at hrow
        rcases hrow with hrow | rfl
        · exact h.tables.fresh row hrow hclosed s hs
        · obtain ⟨hmem, htask⟩ := Db.mem_stepsForTask.1 hs
          exact absurd htask (hnew s hmem)
      case unstarted =>
        exact h.tables.unstarted
      case issued =>
        exact h.tables.issued
      case confirmed =>
        exact h.tables.confirmed
      case minted =>
        exact h.tables.minted
    · constructor
      case rows =>
        exact fun r hr => .inl ⟨r, hr, rfl⟩
      case last =>
        exact le_refl _
      case started =>
        exact fun s hs hst => ⟨s, hs, rfl, hst⟩
      case opened =>
        rintro t ⟨row, hrow, hid, hopen⟩
        exact ⟨row, by rw [hrows]; exact List.mem_append_left _ hrow, hid, hopen⟩

/-! ### A minted row -/

theorem Inv.insertStep (h : Inv rt l) {db' : Db} {taskId : String} {d : StepDict} (hopened : l.Opened taskId)
    (htype : d.stepType = some .review ∨ d.stepType = some .rework)
    (hok : l.db.insertStep taskId d = .ok db') : Inv rt (l.commit db') := by
  unfold Db.insertStep at hok
  split at hok
  case h_2 =>
    cases hok
  case h_1 table hinsert =>
    obtain rfl := Except.ok.inj hok
    obtain ⟨-, hrows, hlast⟩ := Auto.insert?_eq_some hinsert
    have hmem : ∀ {s : TeamStep}, s ∈ table.rows → s ∈ l.db.steps.rows ∨ s = mintedRow taskId d (l.db.steps.last + 1) := by
      intro s hs
      rw [hrows, List.mem_append, List.mem_singleton] at hs
      exact hs
    have hminted : (mintedRow taskId d (l.db.steps.last + 1)).stepType = .review ∨
        (mintedRow taskId d (l.db.steps.last + 1)).stepType = .rework := by
      rcases htype with htype | htype <;> simp [htype]
    refine h.commit (n := l.nextAttempt) ?_ ?_ (drafts_same rfl)
    · constructor
      case plan =>
        intro row hrow hash hhash
        have hsame : confirmedFields (Db.stepsForTask { l.db with steps := table } row.id) =
            confirmedFields (l.db.stepsForTask row.id) := by
          simp only [Db.stepsForTask, hrows, List.filter_append, confirmedFields_append]
          by_cases hid : taskId = row.id <;> simp [confirmedFields, hid]
        rw [hsame]
        exact h.tables.plan row hrow hash hhash
      case owned =>
        intro s hs
        rcases hmem hs with hs | rfl
        · exact h.tables.owned s hs
        · obtain ⟨row, hrow, hid, hopen⟩ := hopened
          exact ⟨row, hrow, hid, h.tables.bound row hrow hopen⟩
      case bound =>
        exact h.tables.bound
      case fresh =>
        intro row hrow hclosed s hs
        obtain ⟨hstored, htask⟩ := Db.mem_stepsForTask.1 hs
        rcases hmem hstored with hstored | rfl
        · exact h.tables.fresh row hrow hclosed s (Db.mem_stepsForTask.2 ⟨hstored, htask⟩)
        · have hopen := hopened.unique hrow htask.symm
          rw [hclosed] at hopen
          cases hopen
      case unstarted =>
        intro s hs hpending
        rcases hmem hs with hs | rfl
        · exact h.tables.unstarted s hs hpending
        · rfl
      case issued =>
        intro s hs a ha
        rcases hmem hs with hs | rfl
        · exact h.tables.issued s hs a ha
        · cases ha
      case confirmed =>
        intro s hs hsystem
        rcases hmem hs with hs | rfl
        · exact h.tables.confirmed s hs hsystem
        · cases hsystem
      case minted =>
        intro s hs hsystem
        rcases hmem hs with hs | rfl
        · exact h.tables.minted s hs hsystem
        · exact ⟨hminted, rfl⟩
    · constructor
      case rows =>
        intro s hs
        rcases hmem hs with hs | rfl
        · exact .inl ⟨s, hs, rfl⟩
        · exact .inr ⟨Nat.lt_succ_self _, fun hsystem => by cases hsystem⟩
      case last =>
        show l.db.steps.last ≤ table.last
        omega
      case started =>
        intro s hs hst
        refine ⟨s, ?_, rfl, hst⟩
        show s ∈ table.rows
        rw [hrows]
        exact List.mem_append_left _ hs
      case opened =>
        exact fun _ ho => ho

/-! ### New plan steps -/

/-- The rows of a task when the rows of one task are filtered and new ones of that task appended. -/
theorem stepsForTask_change {db : Db} {taskId : String} {keep : TeamStep → Bool} {n : ℕ} {steps : List StepDict}
    {rows : List TeamStep} (hkeep : ∀ s ∈ rows, s.taskId ≠ taskId → keep s = true)
    (hrows : db.steps.rows = rows.filter keep ++ Auto.numbered (confirmedRow taskId) n steps)
    (taskId' : String) :
    db.stepsForTask taskId' =
      if taskId = taskId' then
        (rows.filter fun s => decide (s.taskId = taskId')).filter keep ++
          Auto.numbered (confirmedRow taskId) n steps
      else
        rows.filter fun s => decide (s.taskId = taskId') := by
  unfold Db.stepsForTask
  rw [hrows, List.filter_append, numbered_forTask, List.filter_filter]
  split
  case isTrue heq =>
    rw [List.filter_filter]
    congr 1
    exact List.filter_congr fun s _ => Bool.and_comm _ _
  case isFalse hne =>
    rw [List.append_nil]
    refine List.filter_congr fun s hs => ?_
    by_cases htask : s.taskId = taskId'
    · rw [hkeep s hs (by rw [htask]; exact Ne.symm hne), Bool.and_true]
    · simp [htask]

/-- What both ways of storing plan steps do: the rows of one task are filtered, the steps of a valid
plan appended and the task's hash set.  Started rows and the rows of other tasks stay. -/
structure Replan (l : Ledger) (taskId : String) (keep : TeamStep → Bool) (plan : DecomposedTask)
    (hash : String) (db' : Db) : Prop where
  rows : db'.steps.rows = l.db.steps.rows.filter keep ++
    Auto.numbered (confirmedRow taskId) l.db.steps.last (plan.steps.map TeamStepPlan.toDict)
  last : l.db.steps.last ≤ db'.steps.last
  tasks : db'.tasks = (l.db.setPlanHash taskId hash).tasks
  others : ∀ s ∈ l.db.steps.rows, s.taskId ≠ taskId → keep s = true
  started : ∀ s ∈ l.db.steps.rows, s.status ≠ .pending → keep s = true
  task : ∃ row ∈ l.db.tasks.rows, row.id = taskId

namespace Replan

variable {taskId hash : String} {keep : TeamStep → Bool} {plan : DecomposedTask} {db' : Db}

theorem mem (h : Replan l taskId keep plan hash db') {s : TeamStep} (hs : s ∈ db'.steps.rows) :
    s ∈ l.db.steps.rows ∨
      s ∈ Auto.numbered (confirmedRow taskId) l.db.steps.last (plan.steps.map TeamStepPlan.toDict) := by
  rw [h.rows, List.mem_append] at hs
  exact hs.imp List.mem_of_mem_filter id

theorem own (h : Replan l taskId keep plan hash db') :
    db'.stepsForTask taskId = (l.db.stepsForTask taskId).filter keep ++
      Auto.numbered (confirmedRow taskId) l.db.steps.last (plan.steps.map TeamStepPlan.toDict) := by
  rw [stepsForTask_change h.others h.rows taskId, if_pos rfl]
  rfl

theorem other (h : Replan l taskId keep plan hash db') {taskId' : String} (hne : taskId' ≠ taskId) :
    db'.stepsForTask taskId' = l.db.stepsForTask taskId' := by
  rw [stepsForTask_change h.others h.rows taskId', if_neg (Ne.symm hne)]
  rfl

theorem back (h : Replan l taskId keep plan hash db') {row' : TaskRow} (hrow' : row' ∈ db'.tasks.rows) :
    ∃ row ∈ l.db.tasks.rows, row'.id = row.id ∧ row'.status = row.status ∧
      (row.id = taskId ∧ row'.planHash = some hash ∨ row.id ≠ taskId ∧ row'.planHash = row.planHash) := by
  rw [h.tasks] at hrow'
  obtain ⟨row, hrow, ⟨hid, rfl⟩ | ⟨hid, rfl⟩⟩ := Db.mem_updateTask hrow'
  · exact ⟨row, hrow, rfl, rfl, .inl ⟨hid, rfl⟩⟩
  · exact ⟨row', hrow, rfl, rfl, .inr ⟨hid, rfl⟩⟩

theorem forth (h : Replan l taskId keep plan hash db') {row : TaskRow} (hrow : row ∈ l.db.tasks.rows) :
    ∃ row' ∈ db'.tasks.rows, row'.id = row.id ∧ row'.status = row.status ∧
      (row.planHash ≠ none ∨ row.id = taskId → row'.planHash ≠ none) := by
  rw [h.tasks]
  refine ⟨_, Db.mem_updateTask_of_mem taskId (fun r => { r with planHash := some hash }) (fun _ => rfl) hrow, ?_⟩
  by_cases hid : row.id = taskId <;> simp [hid]

theorem grows (h : Replan l taskId keep plan hash db') : Grows l db' where
  rows := by
    intro s hs
    rcases h.mem hs with hs | hs
    · exact .inl ⟨s, hs, rfl⟩
    · exact .inr ⟨(numbered_confirmed hs).2.1, fun _ => (numbered_confirmed hs).2.2.2.2.2⟩
  last := h.last
  started := by
    intro s hs hst
    refine ⟨s, ?_, rfl, hst⟩
    rw [h.rows]
    exact List.mem_append_left _ (List.mem_filter.2 ⟨hs, h.started s hs hst⟩)
  opened := by
    rintro t ⟨row, hrow, hid, hopen⟩
    obtain ⟨row', hrow', hid', hstatus, -⟩ := h.forth hrow
    exact ⟨row', hrow', hid'.trans hid, hstatus ▸ hopen⟩

/-- When the hash is the hash of the kept confirmed rows and the new steps, the tables stay in order. -/
theorem tablesInv (h : Replan l taskId keep plan hash db') (hinv : l.db.Inv rt l.nextAttempt)
    (hhash : hash = decompositionContentHash rt (confirmedFields ((l.db.stepsForTask taskId).filter keep) ++
      plan.steps.map fun s => s.toStepFields)) : db'.Inv rt l.nextAttempt where
  plan := by
    intro row' hrow' hash' hhash'
    obtain ⟨row, hrow, hid, -, ⟨htask, hplan⟩ | ⟨hne, hplan⟩⟩ := h.back hrow'
    · rw [hplan] at hhash'
      rw [hid, htask, h.own, confirmedFields_append, confirmedFields_numbered, toDict_fields, ← hhash]
      exact (Option.some.inj hhash').symm
    · rw [hid, h.other hne]
      exact hinv.plan row hrow hash' (hplan ▸ hhash')
  owned := by
    intro s hs
    rcases h.mem hs with hs | hs
    · obtain ⟨row, hrow, hid, hplan⟩ := hinv.owned s hs
      obtain ⟨row', hrow', hid', -, hplan'⟩ := h.forth hrow
      exact ⟨row', hrow', hid'.trans hid, hplan' (.inl hplan)⟩
    · obtain ⟨row, hrow, hid⟩ := h.task
      obtain ⟨row', hrow', hid', -, hplan'⟩ := h.forth hrow
      exact ⟨row', hrow', by rw [hid', hid, (numbered_confirmed hs).1], hplan' (.inr hid)⟩
  bound := by
    intro row' hrow' hopen
    obtain ⟨row, hrow, -, hstatus, ⟨-, hplan⟩ | ⟨-, hplan⟩⟩ := h.back hrow'
    · simp [hplan]
    · rw [hplan]
      exact hinv.bound row hrow (hstatus ▸ hopen)
  fresh := by
    intro row' hrow' hfresh s hs
    obtain ⟨row, hrow, hid, hstatus, -⟩ := h.back hrow'
    have hold := hinv.fresh row hrow (hstatus ▸ hfresh) s
    rw [hid] at hs
    by_cases htask : row.id = taskId
    · rw [htask, h.own, List.mem_append] at hs
      rcases hs with hs | hs
      · exact hold (htask ▸ List.mem_of_mem_filter hs)
      · exact ⟨(numbered_confirmed hs).2.2.1, (numbered_confirmed hs).2.2.2.2.1⟩
    · rw [h.other htask] at hs
      exact hold hs
  unstarted := by
    intro s hs hpending
    rcases h.mem hs with hs | hs
    · exact hinv.unstarted s hs hpending
    · exact (numbered_confirmed hs).2.2.2.1
  issued := by
    intro s hs a ha
    rcases h.mem hs with hs | hs
    · exact hinv.issued s hs a ha
    · rw [(numbered_confirmed hs).2.2.2.1] at ha
      cases ha
  confirmed := by
    intro s hs hsystem
    rcases h.mem hs with hs | hs
    · exact hinv.confirmed s hs hsystem
    · exact (numbered_confirmed hs).2.2.2.2.2
  minted := by
    intro s hs hsystem
    rcases h.mem hs with hs | hs
    · exact hinv.minted s hs hsystem
    · rw [(numbered_confirmed hs).2.2.2.2.1] at hsystem
      cases hsystem

end Replan

/-! ### A draft plan -/

theorem Inv.setDraftPlan (h : Inv rt l) {db' : Db} {taskId : String} {plan : DecomposedTask}
    (hclosed : l.Unopened taskId)
    (hok : l.db.setDraftPlan taskId (plan.steps.map TeamStepPlan.toDict)
      (decompositionContentHash rt (plan.steps.map fun s => s.toStepFields)) = .ok db') :
    Inv rt (l.commit db') := by
  obtain ⟨hrows, hlast, htasks, hamend⟩ := Db.setDraftPlan_ok hok
  have hreplan : Replan l taskId (fun s => !decide (s.taskId = taskId)) plan
      (decompositionContentHash rt (plan.steps.map fun s => s.toStepFields)) db' :=
    { rows := hrows
      last := by omega
      tasks := htasks
      others := by
        intro s _ hne
        simp [hne]
      started := by
        intro s hs hst
        obtain ⟨row, hrow, hid, hfresh⟩ := hclosed
        have hne : s.taskId ≠ taskId := fun htask =>
          hst (h.tables.fresh row hrow hfresh s (Db.mem_stepsForTask.2 ⟨hs, htask.trans hid.symm⟩)).1
        simp [hne]
      task := by
        obtain ⟨row, hrow, hid, -⟩ := hclosed
        exact ⟨row, hrow, hid⟩ }
  have hnone : (l.db.stepsForTask taskId).filter (fun s => !decide (s.taskId = taskId)) = [] := by
    simp [Db.stepsForTask]
  refine h.commit (hreplan.tablesInv h.tables ?_) hreplan.grows (drafts_same hamend)
  rw [hnone]
  rfl

/-! ### An applied amendment -/

/-- Of a snapshot with the hash of the present rows, every row is there: a pending one of the snapshot
among the ids that the amendment removes, a started one unchanged in its identity. -/
theorem Inv.sameRow (h : Inv rt l) (hsha : Function.Injective rt.sha256) {task : TeamTask} {taskId : String}
    (htask : task ∈ l.seen) (hid : task.id = taskId)
    (hhash : Db.fullDagPlanHash rt (l.db.stepsForTask taskId) = Db.fullDagPlanHash rt task.steps) :
    (l.db.stepsForTask taskId).map (fun s => s.toStepFields) = task.steps.map (fun s => s.toStepFields) ∧
      ∀ r ∈ l.db.stepsForTask taskId, ∀ s ∈ task.steps, r.toStepFields = s.toStepFields →
        s.status ≠ .pending → r.toStepIdent = s.toStepIdent ∧ r.status ≠ .pending := by
  refine ⟨decompositionContentHash_injective hsha hhash, ?_⟩
  intro r hr s hs hfields hstarted
  obtain ⟨hstored, hrtask⟩ := Db.mem_stepsForTask.1 hr
  obtain ⟨r', hr', hident, hst⟩ := h.history.kept task htask s hs hstarted
  have hstask := (h.history.seenRows task htask s hs).1
  have hsame : r' = r := by
    apply Db.step_unique hr' hstored
    · rw [congrArg StepIdent.taskId hident, hstask, hid, hrtask]
    · rw [congrArg (fun i : StepIdent => i.stepId) hident, congrArg StepFields.stepId hfields]
  exact ⟨hsame ▸ hident, hsame ▸ hst⟩

/-- The ids that an amendment expects pending are those of its snapshot. -/
theorem mem_oldPending {task : TeamTask} {d : AmendmentDraft} (hd : DraftedFrom rt task d) {id : String} :
    id ∈ d.oldPendingStepIds ↔ ∃ s ∈ task.steps, s.status = .pending ∧ s.stepId = id := by
  obtain ⟨p, amendment, combined, hfrom, -, -, -, -, hold⟩ := hd
  rw [hold, List.mem_insertionSort, hfrom.old]
  simp [TeamTask.pendingIds, and_assoc]

/-- An amendment removes exactly the pending rows. -/
theorem Inv.amended_keep (h : Inv rt l) (hsha : Function.Injective rt.sha256) {task : TeamTask}
    {d : AmendmentDraft} (htask : task ∈ l.seen) (hd : DraftedFrom rt task d)
    (hhash : Db.fullDagPlanHash rt (l.db.stepsForTask d.taskId) = d.basePlanHash) {r : TeamStep}
    (hr : r ∈ l.db.stepsForTask d.taskId) :
    (r.stepId ∈ d.oldPendingStepIds ∧ r.status = .pending) ↔ r.status = .pending := by
  obtain ⟨p, amendment, combined, hfrom, hid, hbase, -⟩ := id hd
  obtain ⟨hfields, hstarted⟩ := h.sameRow hsha htask hid.symm (hhash.trans (hbase.trans hfrom.base))
  refine ⟨fun hp => hp.2, fun hpending => ⟨?_, hpending⟩⟩
  have hmem : r.toStepFields ∈ task.steps.map fun s => s.toStepFields :=
    hfields ▸ List.mem_map_of_mem hr
  obtain ⟨s, hs, hsame⟩ := List.mem_map.1 hmem
  rw [mem_oldPending hd]
  refine ⟨s, hs, ?_, congrArg StepFields.stepId hsame⟩
  by_contra hst
  exact (hstarted r hr s hs hsame.symm hst).2 hpending

/-- The task of an amendment has a row: its snapshot had a pending step, and the hashes agree. -/
theorem Inv.amended_task (h : Inv rt l) (hsha : Function.Injective rt.sha256) {task : TeamTask}
    {d : AmendmentDraft} (htask : task ∈ l.seen) (hd : DraftedFrom rt task d)
    (hhash : Db.fullDagPlanHash rt (l.db.stepsForTask d.taskId) = d.basePlanHash) :
    ∃ row ∈ l.db.tasks.rows, row.id = d.taskId := by
  obtain ⟨p, amendment, combined, hfrom, hid, hbase, -⟩ := hd
  obtain ⟨hfields, -⟩ := h.sameRow hsha htask hid.symm (hhash.trans (hbase.trans hfrom.base))
  have hne : l.db.stepsForTask d.taskId ≠ [] := by
    intro hnil
    rw [hnil, List.map_nil] at hfields
    have hsteps : task.steps = [] := by simpa using hfields.symm
    exact hfrom.pending (by simp [TeamTask.pendingIds, hsteps])
  obtain ⟨r, hr⟩ := List.exists_mem_of_ne_nil _ hne
  obtain ⟨hstored, hrtask⟩ := Db.mem_stepsForTask.1 hr
  obtain ⟨row, hrow, hrowid, -⟩ := h.tables.owned r hstored
  exact ⟨row, hrow, hrowid.trans hrtask⟩

/-- The rows of the task after an amendment: those that were not pending, and the new steps. -/
theorem Inv.amended_rows (h : Inv rt l) (hsha : Function.Injective rt.sha256) {db' : Db} {task : TeamTask}
    {d : AmendmentDraft} (htask : task ∈ l.seen) (hd : DraftedFrom rt task d)
    (hhash : Db.fullDagPlanHash rt (l.db.stepsForTask d.taskId) = d.basePlanHash)
    (hamended : Db.Amended l.db d.taskId d db') :
    db'.stepsForTask d.taskId =
      (l.db.stepsForTask d.taskId).filter (fun s => decide (s.status ≠ .pending)) ++
        Auto.numbered (confirmedRow d.taskId) l.db.steps.last d.newPendingSteps := by
  have hothers : ∀ s ∈ l.db.steps.rows, s.taskId ≠ d.taskId →
      (!(decide (s.taskId = d.taskId) && decide (s.stepId ∈ d.oldPendingStepIds) &&
        decide (s.status = .pending))) = true := by
    intro s _ hne
    simp [hne]
  rw [stepsForTask_change hothers hamended.rows, if_pos rfl]
  congr 1
  refine List.filter_congr fun s hs => ?_
  have hkeep := h.amended_keep hsha htask hd hhash hs
  have hstask := (Db.mem_stepsForTask.1 hs).2
  by_cases hpending : s.status = .pending
  · simp [hstask, hpending, (hkeep.2 hpending).1]
  · simp [hpending]

theorem Inv.confirmAmendment (h : Inv rt l) (hsha : Function.Injective rt.sha256) {db' : Db}
    {d : AmendmentDraft} (hhash : Db.fullDagPlanHash rt (l.db.stepsForTask d.taskId) = d.basePlanHash)
    (hamended : Db.Amended l.db d.taskId d db') : Inv rt (l.commit db') := by
  obtain ⟨task, htask, hd⟩ := h.drafts d hamended.mem
  obtain ⟨p, amendment, combined, hfrom, hid, hbase, hnew, hpending, hold⟩ := id hd
  have hdicts : d.newPendingSteps = amendment.steps.map TeamStepPlan.toDict := hpending.trans hfrom.newPending
  obtain ⟨hfields, hstarted⟩ := h.sameRow hsha htask hid.symm (hhash.trans (hbase.trans hfrom.base))
  have hreplan : Replan l d.taskId
      (fun s => !(decide (s.taskId = d.taskId) && decide (s.stepId ∈ d.oldPendingStepIds) &&
        decide (s.status = .pending))) amendment d.newPlanHash db' :=
    { rows := hdicts ▸ hamended.rows
      last := by
        rw [hamended.last]
        omega
      tasks := hamended.tasks
      others := by
        intro s _ hne
        simp [hne]
      started := by
        intro s _ hst
        simp [hst]
      task := h.amended_task hsha htask hd hhash }
  refine h.commit (hreplan.tablesInv h.tables ?_) hreplan.grows ?_
  · rw [hnew, hfrom.newHash, hfrom.steps]
    congr 2
    unfold confirmedFields
    rw [List.filter_filter]
    refine (filter_map_agree hfields ?_).symm
    intro r hr s hs hsame
    have hkeep := h.amended_keep hsha htask hd hhash hr
    have hrtask := (Db.mem_stepsForTask.1 hr).2
    by_cases hst : s.status = .pending
    · have hrpending : r.status = .pending := by
        have hexpected : r.stepId ∈ d.oldPendingStepIds :=
          (mem_oldPending hd).2 ⟨s, hs, hst, congrArg StepFields.stepId hsame.symm⟩
        have hcurrent := hamended.pending _ hexpected
        obtain ⟨r', hr', hr'pending⟩ := Option.map_eq_some_iff.1 hcurrent
        obtain ⟨hr'mem, hr'task, hr'id⟩ := Db.getStep_eq_some.1 hr'
        rwa [← Db.step_unique hr'mem (Db.mem_stepsForTask.1 hr).1 (hr'task.trans hrtask.symm) hr'id]
      simp [TeamStep.isFrozen, hst, hrtask, hrpending, (hkeep.2 hrpending).1]
    · obtain ⟨hident, hrst⟩ := hstarted r hr s hs hsame hst
      simp [TeamStep.isFrozen, hst, hrst, congrArg StepIdent.systemInserted hident]
  · exact drafts_status hamended.amendments

/-! ### Drafts -/

/-- Only drafts change. -/
theorem Inv.draftsOnly (h : Inv rt l) {p : AmendmentDraft → Bool} {status : AmendmentStatus} :
    Inv rt (l.commit (l.db.setDraftStatus p status)) :=
  h.commit { h.tables with } { Grows.refl h with } (drafts_status rfl)

theorem Inv.setAmendmentDraft (h : Inv rt l) {db' : Db} {task : TeamTask} {p : AmendPreview}
    {staff : List (String × String)} {complete : ℕ → String → Except String LlmResult}
    (htask : task ∈ l.seen) (hpreview : previewAdjust rt task staff complete = .ok p)
    (hok : l.db.setAmendmentDraft l.nextAmendment task.id p.basePlanHash p.newPlanHash p.newPendingSteps
      p.oldPendingStepIds l.clock = .ok db') :
    Inv rt { l.commit db' with nextAmendment := l.nextAmendment + 1 } := by
  have hstripped : ∀ s ∈ task.steps, s.systemInserted = false → s.toStepFields.Stripped :=
    fun s hs hsystem => (h.history.everConfirmed _ (h.history.seenRows task htask s hs).2 hsystem).1
  obtain ⟨amendment, combined, hfrom⟩ := previewAdjust_spec hstripped hpreview
  simp only [Db.setAmendmentDraft] at hok
  split at hok
  case h_2 =>
    cases hok
  case h_1 amendments hinsert =>
    obtain rfl := Except.ok.inj hok
    obtain ⟨-, hrows⟩ := Keyed.insert?_eq_some hinsert
    have hgrows : Grows l { l.db with amendments := amendments } := { Grows.refl h with }
    refine
      { tables := { h.tables with }
        history := { h.history.commit hgrows with }
        drafts := ?_
        draftIds := ?_ }
    · intro d hd
      change d ∈ amendments.rows at hd
      rw [hrows, List.mem_append, List.mem_singleton] at hd
      rcases hd with hd | rfl
      · obtain ⟨d₀, hd₀, -, hsame⟩ := drafts_status rfl d hd
        obtain ⟨task₀, htask₀, hfrom₀⟩ := h.drafts d₀ hd₀
        exact ⟨task₀, htask₀, hsame task₀ hfrom₀⟩
      · exact ⟨task, htask, p, amendment, combined, hfrom, rfl, rfl, rfl, rfl, rfl⟩
    · intro d hd
      change d ∈ amendments.rows at hd
      rw [hrows, List.mem_append, List.mem_singleton] at hd
      rcases hd with hd | rfl
      · obtain ⟨d₀, hd₀, hd'⟩ := Keyed.mem_updateWhere.1 hd
        have hid : d.amendmentId = d₀.amendmentId := by
          rw [hd']
          split <;> rfl
        rw [hid]
        exact Nat.lt_succ_of_lt (h.draftIds d₀ hd₀)
      · exact Nat.lt_succ_self _

/-! ### All operations -/

/-- Writing to the mutable columns of rows of an opened task. -/
theorem rowsFollow_of_opened {p : TeamStep → Bool} {f : TeamStep → TeamStep} {taskId : String}
    (hopened : l.Opened taskId) (hp : ∀ s, p s = true → s.taskId = taskId)
    (hident : ∀ s, (f s).toStepIdent = s.toStepIdent) (hstatus : ∀ s, (f s).status ≠ .pending) :
    RowsFollow l fun s => if p s then f s else s where
  ident := by
    intro s
    by_cases hs : p s = true <;> simp [hs, hident]
  back := by
    intro s hpending
    by_cases hs : p s = true
    · simp only [hs, if_true] at hpending
      exact absurd hpending (hstatus s)
    · simp only [hs] at hpending ⊢
      exact ⟨hpending, rfl⟩
  forth := by
    intro s _ hpending
    by_cases hs : p s = true
    · exact .inr (hp s hs ▸ hopened)
    · exact .inl (by simpa [hs] using hpending)

/-- Writing to columns other than status and attempt. -/
theorem rowsFollow_of_quiet {p : TeamStep → Bool} {f : TeamStep → TeamStep}
    (hident : ∀ s, (f s).toStepIdent = s.toStepIdent) (hstatus : ∀ s, (f s).status = s.status)
    (hattempt : ∀ s, (f s).attemptId = s.attemptId) : RowsFollow l fun s => if p s then f s else s where
  ident := by
    intro s
    by_cases hs : p s = true <;> simp [hs, hident]
  back := by
    intro s hpending
    by_cases hs : p s = true <;> simp_all
  forth := by
    intro s _ hpending
    left
    by_cases hs : p s = true <;> simp_all

theorem isStep_taskId {taskId stepId : String} {s : TeamStep} (h : Db.isStep taskId stepId s = true) :
    s.taskId = taskId := by
  simp only [Db.isStep, Bool.and_eq_true, decide_eq_true_eq] at h
  exact h.1

theorem isAttempt_taskId {taskId stepId : String} {attemptId : Option AttemptId} {s : TeamStep}
    (h : Db.isAttempt taskId stepId attemptId s = true) : s.taskId = taskId := by
  simp only [Db.isAttempt, Bool.and_eq_true] at h
  exact isStep_taskId h.1

theorem Inv.confirmPlan (h : Inv rt l) (taskId expectedHash : String) :
    Inv rt (l.commit (l.db.confirmPlan taskId expectedHash).2) := by
  unfold Db.confirmPlan
  split
  case isFalse =>
    exact h.tasksOnly rfl (.refl _) rfl
  case isTrue hconfirm =>
    refine h.tasksOnly rfl (tasksFollow_update rfl (fun _ => rfl) (fun _ => rfl) ?_) rfl
    intro row hrow hid
    refine ⟨fun hfalse => absurd hfalse (by simp [TaskStatus.everOpened]), fun _ => .inr ?_⟩
    unfold Db.confirmable at hconfirm
    have hfind : l.db.tasks.find? taskId = some row :=
      Keyed.find?_eq_some.2 ⟨hrow, of_decide_eq_true hid⟩
    simp only [hfind, Bool.and_eq_true, decide_eq_true_eq] at hconfirm
    simp [hconfirm.2]

theorem Inv.cancelDraft (h : Inv rt l) (taskId : String) : Inv rt (l.commit (l.db.cancelDraft taskId).2) := by
  refine h.tasksOnly rfl (tasksFollow_update rfl (fun _ => rfl) (fun _ => rfl) ?_) rfl
  intro row _ hdraft
  simp only [Bool.and_eq_true, decide_eq_true_eq] at hdraft
  refine ⟨fun _ => ?_, fun hopen => absurd hopen (by simp [TaskStatus.everOpened])⟩
  rw [hdraft.2]
  rfl

theorem Inv.setStepStatus (h : Inv rt l) {taskId stepId : String} {status : StepStatus}
    {x : Db.StatusExtras} {attemptId : Option AttemptId} (hopened : l.Opened taskId)
    (hstatus : status ≠ .pending) :
    Inv rt (l.commit (l.db.setStepStatus taskId stepId status x attemptId).2) := by
  refine h.rewrite Db.setStepStatus_rows rfl
    (rowsFollow_of_opened hopened (fun s => isAttempt_taskId) (fun _ => rfl) fun _ => hstatus)
    (tasksFollow_update rfl (fun _ => rfl) (fun _ => rfl) fun _ _ _ => ⟨id, fun hopen => .inl hopen⟩) rfl ?_
  intro s hs a ha
  split at ha
  · exact h.tables.issued s hs a ha
  · exact h.tables.issued s hs a ha

/-- Every operation keeps the invariant when its caller keeps to the contract. -/
theorem Inv.op (h : Inv rt l) (hsha : Function.Injective rt.sha256) {o : StoreOp} (hpre : o.Pre rt l) :
    Inv rt (o.run rt l).2 := by
  cases o with
  | createTask taskId title request assignedBy picId roomId =>
      simp only [StoreOp.run]
      cases hok : l.db.createTask taskId title request assignedBy picId roomId l.clock with
      | error msg =>
          exact h
      | ok db =>
          exact h.createTask hok
  | setDraftPlan taskId steps planHash =>
      obtain ⟨hclosed, plan, rfl, rfl⟩ := hpre
      simp only [StoreOp.run]
      cases hok : l.db.setDraftPlan taskId (plan.steps.map TeamStepPlan.toDict)
          (decompositionContentHash rt (plan.steps.map fun s => s.toStepFields)) with
      | error msg =>
          exact h
      | ok db =>
          exact h.setDraftPlan hclosed hok
  | confirmPlan taskId expectedHash =>
      exact h.confirmPlan taskId expectedHash
  | cancelDraft taskId =>
      exact h.cancelDraft taskId
  | get taskId =>
      refine h.handOut fun task htask => ?_
      have hget := Option.mem_toList.1 htask
      rw [(Db.get_eq_some.1 hget).2.1]
      exact hget
  | getStep taskId stepId =>
      exact h
  | listDispatchable =>
      exact h.handOut fun task htask => (Db.mem_listDispatchable.1 htask).1
  | setTaskStatus taskId status =>
      refine h.tasksOnly rfl (tasksFollow_update rfl (fun _ => rfl) (fun _ => rfl) ?_) rfl
      intro row hrow hid
      refine ⟨fun hclosed => ?_, fun _ => .inl (hpre.1.unique hrow (of_decide_eq_true hid))⟩
      rw [show ({ row with status := status } : TaskRow).status.everOpened = true from hpre.2] at hclosed
      cases hclosed
  | recordTaskCost taskId decompose aggregate =>
      exact h.tasksOnly rfl (tasksFollow_update rfl (fun _ => rfl) (fun _ => rfl) fun _ _ _ => ⟨id, fun hopen => .inl hopen⟩) rfl
  | sumCost taskId =>
      exact h
  | reserveStep taskId stepId =>
      simp only [StoreOp.run]
      cases hstep : l.db.getStep taskId stepId with
      | none =>
          exact { h with
            tables := { h.tables with issued := fun s hs a ha => Nat.lt_succ_of_lt (h.tables.issued s hs a ha) }
            history := { h.history with } }
      | some step =>
          refine h.rewrite Db.updateSteps_rows rfl
            (rowsFollow_of_opened hpre (fun s => isStep_taskId) (fun _ => rfl) fun _ => by
              simp [Db.reserved]) (.refl _) rfl ?_
          intro s hs a ha
          split at ha
          · obtain rfl := Option.some.inj ha
            exact Nat.lt_succ_self _
          · exact Nat.lt_succ_of_lt (h.tables.issued s hs a ha)
  | leaseExpired taskId stepId now =>
      exact h
  | verifyAttempt taskId stepId attemptId =>
      exact h
  | recordSpawn taskId stepId pid =>
      refine h.rewrite rfl rfl
        (rowsFollow_of_quiet (fun _ => rfl) (fun _ => rfl) fun _ => rfl) (.refl _) rfl ?_
      intro s hs a ha
      split at ha <;> exact h.tables.issued s hs a ha
  | heartbeat taskId stepId =>
      refine h.rewrite rfl rfl
        (rowsFollow_of_quiet (fun _ => rfl) (fun _ => rfl) fun _ => rfl) (.refl _) rfl ?_
      intro s hs a ha
      split at ha <;> exact h.tables.issued s hs a ha
  | setStepStatus taskId stepId status x attemptId =>
      exact h.setStepStatus hpre.1 hpre.2
  | insertStep taskId step =>
      simp only [StoreOp.run]
      cases hok : l.db.insertStep taskId step with
      | error msg =>
          exact h
      | ok db =>
          exact h.insertStep hpre.1 hpre.2 hok
  | setAmendmentDraft taskId base new newPending oldPending =>
      obtain ⟨task, htask, rfl, staff, complete, p, hpreview, rfl, rfl, rfl, rfl⟩ := hpre
      simp only [StoreOp.run]
      cases hok : l.db.setAmendmentDraft l.nextAmendment task.id p.basePlanHash p.newPlanHash
          p.newPendingSteps p.oldPendingStepIds l.clock with
      | error msg =>
          exact { h with
            history := { h.history with }
            draftIds := fun d hd => Nat.lt_succ_of_lt (h.draftIds d hd) }
      | ok db =>
          exact h.setAmendmentDraft htask hpreview hok
  | cancelAmendmentDraft amendmentId =>
      exact h.draftsOnly
  | confirmAmendment taskId amendmentId =>
      by_cases hall : ∀ r, (l.db.confirmAmendment rt taskId amendmentId).1 = .ok r → r.ok = false
      · show Inv rt (l.commit (l.db.confirmAmendment rt taskId amendmentId).2)
        rw [Db.confirmAmendment_kept hall]
        exact h.tasksOnly rfl (.refl _) rfl
      · push Not at hall
        obtain ⟨r, hr, hok⟩ := hall
        obtain ⟨d, -, hhash, hamended⟩ := Db.confirmAmendment_ok hr (by simpa using hok)
        obtain rfl := hamended.task
        exact h.confirmAmendment hsha hhash hamended
  | cleanupStaleDrafts =>
      exact h.draftsOnly

/-- The invariant holds in every reachable store. -/
theorem Reach.inv (hsha : Function.Injective rt.sha256) (h : Reach rt l) : Inv rt l := by
  induction h with
  | empty now =>
      exact Inv.empty now
  | step _ hstep ih =>
      cases hstep with
      | op o hpre =>
          exact ih.op hsha hpre
      | time now =>
          exact ih.time now

end Ledger

end ProjectManager
