import ProjectManager.Store.Ledger

/-!
# What holds in every reachable store

`Ledger.Inv` collects the facts that every operation keeps, in any order of operations: the stored plan
hash is the hash of the confirmed rows, a row that has left `pending` stays in the table, a draft was
made from a snapshot that was handed out.  The proofs go by the shape of a change: rows rewritten in
place, a row minted, a draft plan replaced, an amendment applied.  `Ledger.Reach.inv` is the result.
-/

namespace ProjectManager

open Table

/-! ### Confirmed rows -/

/-- What the hash of a plan reads: the rows that the ticker has not minted. -/
def confirmedFields (steps : List TeamStep) : List StepFields :=
  (steps.filter fun s => !s.systemInserted).map fun s => s.toStepFields

/-- Two lists that agree element by element, filtered by tests that agree. -/
theorem filter_map_agree {α β γ : Type} {f : α → γ} {g : β → γ} {p : α → Bool} {q : β → Bool} {l : List α}
    {m : List β} (h : l.map f = m.map g) (hpq : ∀ a ∈ l, ∀ b ∈ m, f a = g b → p a = q b) :
    (l.filter p).map f = (m.filter q).map g := by
  induction l generalizing m with
  | nil =>
      obtain rfl : m = [] := by simpa using h.symm
      rfl
  | cons a l ih =>
      cases m with
      | nil =>
          simp at h
      | cons b m =>
          simp only [List.map_cons, List.cons.injEq] at h
          have htail := ih h.2 fun x hx y hy => hpq x (by simp [hx]) y (by simp [hy])
          have hhead := hpq a (by simp) b (by simp) h.1
          rw [List.filter_cons, List.filter_cons, hhead]
          split
          · rw [List.map_cons, List.map_cons, h.1, htail]
          · exact htail

/-- Two stored rows have different numbers. -/
theorem seq_ne_of_sorted (table : StepTable) {r s : TeamStep} (hr : r ∈ table.rows) (hs : s ∈ table.rows)
    (hne : r ≠ s) : r.seq ≠ s.seq := by
  have hsymm : Std.Symm fun a b : TeamStep => a.seq ≠ b.seq := ⟨fun _ _ h => h.symm⟩
  have hpair : table.rows.Pairwise fun a b => a.seq ≠ b.seq := table.sorted.imp fun h => Nat.ne_of_lt h
  exact hpair.forall hr hs hne

/-! ### The invariant -/

/-- A stored draft contains what a preview made of a snapshot. -/
def DraftedFrom (rt : Runtime) (task : TeamTask) (d : AmendmentDraft) : Prop :=
  ∃ p amendment combined, AmendPreview.From rt task p amendment combined ∧ d.taskId = task.id ∧
    d.basePlanHash = p.basePlanHash ∧ d.newPlanHash = p.newPlanHash ∧
    d.newPendingSteps = p.newPendingSteps ∧
    d.oldPendingStepIds = p.oldPendingStepIds.insertionSort (· ≤ ·)

/-- What holds of the tables; leases are below `n`. -/
structure Db.Inv (rt : Runtime) (db : Db) (n : AttemptId) : Prop where
  /-- the stored hash is the hash of the confirmed rows -/
  plan : ∀ row ∈ db.tasks.rows, ∀ h, row.planHash = some h →
    h = decompositionContentHash rt (confirmedFields (db.stepsForTask row.id))
  /-- a row belongs to a task with a plan -/
  owned : ∀ s ∈ db.steps.rows, ∃ row ∈ db.tasks.rows, row.id = s.taskId ∧ row.planHash ≠ none
  /-- an opened task has a plan -/
  bound : ∀ row ∈ db.tasks.rows, row.status.everOpened = true → row.planHash ≠ none
  /-- nothing has happened to the steps of a task that was never opened -/
  fresh : ∀ row ∈ db.tasks.rows, row.status.everOpened = false →
    ∀ s ∈ db.stepsForTask row.id, s.status = .pending ∧ s.systemInserted = false
  /-- a pending step has never been started -/
  unstarted : ∀ s ∈ db.steps.rows, s.status = .pending → s.attemptId = none
  /-- leases are drawn from the counter -/
  issued : ∀ s ∈ db.steps.rows, ∀ a, s.attemptId = some a → a < n
  /-- confirmed rows carry validated texts and are work -/
  confirmed : ∀ s ∈ db.steps.rows, s.systemInserted = false →
    s.toStepFields.Stripped ∧ s.stepType = .work
  /-- minted rows are reviews and reworks -/
  minted : ∀ s ∈ db.steps.rows, s.systemInserted = true →
    (s.stepType = .review ∨ s.stepType = .rework) ∧ s.needsReview = false

/-- What ties the tables to the snapshots handed out and the rows ever inserted. -/
structure Ledger.History (l : Ledger) : Prop where
  /-- a started step of a snapshot is still there, and still started -/
  kept : ∀ task ∈ l.seen, ∀ s ∈ task.steps, s.status ≠ .pending →
    ∃ r ∈ l.db.steps.rows, r.toStepIdent = s.toStepIdent ∧ r.status ≠ .pending
  /-- the rows of a snapshot are rows that once were stored -/
  seenRows : ∀ task ∈ l.seen, ∀ s ∈ task.steps, s.taskId = task.id ∧ s.toStepIdent ∈ l.ever
  /-- a snapshot was opened only if its task has been -/
  seenOpened : ∀ task ∈ l.seen, task.status.everOpened = true → l.Opened task.id
  /-- a stored row is one that was inserted -/
  everRows : ∀ s ∈ l.db.steps.rows, s.toStepIdent ∈ l.ever
  everLast : ∀ i ∈ l.ever, i.seq ≤ l.db.steps.last
  /-- a number is given once -/
  everUnique : ∀ i ∈ l.ever, ∀ j ∈ l.ever, i.seq = j.seq → i = j
  /-- rows that were confirmed carried validated texts -/
  everConfirmed : ∀ i ∈ l.ever, i.systemInserted = false → i.toStepFields.Stripped ∧ i.stepType = .work

/-- What every operation keeps. -/
structure Ledger.Inv (rt : Runtime) (l : Ledger) : Prop where
  tables : l.db.Inv rt l.nextAttempt
  history : l.History
  /-- every draft comes from a snapshot -/
  drafts : ∀ d ∈ l.db.amendments.rows, ∃ task ∈ l.seen, DraftedFrom rt task d
  /-- draft ids are drawn from the counter -/
  draftIds : ∀ d ∈ l.db.amendments.rows, d.amendmentId < l.nextAmendment

namespace Ledger

variable {rt : Runtime} {l : Ledger}

theorem Inv.empty (now : Time) : Inv rt (.empty now) where
  tables := by
    constructor <;> simp [Ledger.empty, Db.empty, Auto.empty, Keyed.empty]
  history := by
    constructor <;> simp [Ledger.empty, Db.empty, Auto.empty]
  drafts := by
    simp [Ledger.empty, Db.empty, Keyed.empty]
  draftIds := by
    simp [Ledger.empty, Db.empty, Keyed.empty]

theorem Inv.time (h : Inv rt l) (now : Time) : Inv rt { l with clock := now } where
  tables := h.tables
  history := { h.history with }
  drafts := h.drafts
  draftIds := h.draftIds

/-! ### Reads -/

theorem History.handOut (h : l.History) {tasks : List TeamTask}
    (htasks : ∀ task ∈ tasks, l.db.get task.id = some task) : (l.handOut tasks).History where
  kept := by
    intro task htask s hs hstarted
    rcases List.mem_append.1 htask with htask | htask
    · exact h.kept task htask s hs hstarted
    · obtain ⟨-, -, hsteps⟩ := Db.get_eq_some.1 (htasks task htask)
      rw [hsteps] at hs
      exact ⟨s, (Db.mem_stepsForTask.1 hs).1, rfl, hstarted⟩
  seenRows := by
    intro task htask s hs
    rcases List.mem_append.1 htask with htask | htask
    · exact h.seenRows task htask s hs
    · obtain ⟨-, -, hsteps⟩ := Db.get_eq_some.1 (htasks task htask)
      rw [hsteps] at hs
      obtain ⟨hmem, htask⟩ := Db.mem_stepsForTask.1 hs
      exact ⟨htask, h.everRows s hmem⟩
  seenOpened := by
    intro task htask hopened
    rcases List.mem_append.1 htask with htask | htask
    · exact h.seenOpened task htask hopened
    · obtain ⟨hrow, -, -⟩ := Db.get_eq_some.1 (htasks task htask)
      exact ⟨task.toTaskRow, hrow, rfl, hopened⟩
  everRows := h.everRows
  everLast := h.everLast
  everUnique := h.everUnique
  everConfirmed := h.everConfirmed

theorem Inv.handOut (h : Inv rt l) {tasks : List TeamTask}
    (htasks : ∀ task ∈ tasks, l.db.get task.id = some task) : Inv rt (l.handOut tasks) where
  tables := h.tables
  history := h.history.handOut htasks
  drafts := by
    intro d hd
    obtain ⟨task, htask, hfrom⟩ := h.drafts d hd
    exact ⟨task, List.mem_append_left _ htask, hfrom⟩
  draftIds := h.draftIds

/-! ### Changes and the record of rows -/

/-- What every change does to the rows: a stored row is an old one or has a new number, started rows
stay, opened tasks stay opened. -/
structure Grows (l : Ledger) (db' : Db) : Prop where
  rows : ∀ r ∈ db'.steps.rows, (∃ s ∈ l.db.steps.rows, r.toStepIdent = s.toStepIdent) ∨
    l.db.steps.last < r.seq ∧ (r.systemInserted = false → r.toStepFields.Stripped ∧ r.stepType = .work)
  last : l.db.steps.last ≤ db'.steps.last
  started : ∀ s ∈ l.db.steps.rows, s.status ≠ .pending →
    ∃ r ∈ db'.steps.rows, r.toStepIdent = s.toStepIdent ∧ r.status ≠ .pending
  opened : ∀ taskId, l.Opened taskId →
    ∃ row ∈ db'.tasks.rows, row.id = taskId ∧ row.status.everOpened = true

theorem mem_ever_commit {db' : Db} {i : StepIdent} (hi : i ∈ (l.commit db').ever) :
    i ∈ l.ever ∨ ∃ r ∈ db'.steps.rows, l.db.steps.last < r.seq ∧ r.toStepIdent = i := by
  rcases List.mem_append.1 hi with hi | hi
  · exact .inl hi
  · obtain ⟨r, hr, rfl⟩ := List.mem_map.1 hi
    obtain ⟨hmem, hseq⟩ := List.mem_filter.1 hr
    exact .inr ⟨r, hmem, by simpa using hseq, rfl⟩

theorem History.commit (h : l.History) {db' : Db} (hg : Grows l db') : (l.commit db').History where
  kept := by
    intro task htask s hs hstarted
    obtain ⟨r, hr, hident, hst⟩ := h.kept task htask s hs hstarted
    obtain ⟨r', hr', hident', hst'⟩ := hg.started r hr hst
    exact ⟨r', hr', hident'.trans hident, hst'⟩
  seenRows := by
    intro task htask s hs
    obtain ⟨htaskId, hmem⟩ := h.seenRows task htask s hs
    exact ⟨htaskId, List.mem_append_left _ hmem⟩
  seenOpened := fun task htask hopen => hg.opened _ (h.seenOpened task htask hopen)
  everRows := by
    intro r hr
    rcases hg.rows r hr with ⟨s, hs, hident⟩ | ⟨hnew, -⟩
    · rw [hident]
      exact List.mem_append_left _ (h.everRows s hs)
    · refine List.mem_append_right _ (List.mem_map.2 ⟨r, List.mem_filter.2 ⟨hr, ?_⟩, rfl⟩)
      simpa using hnew
  everLast := by
    intro i hi
    rcases mem_ever_commit hi with hi | ⟨r, hr, -, rfl⟩
    · exact (h.everLast i hi).trans hg.last
    · exact db'.steps.le_last r hr
  everUnique := by
    intro i hi j hj hseq
    rcases mem_ever_commit hi with hi | ⟨r, hr, hnew, rfl⟩
    · rcases mem_ever_commit hj with hj | ⟨r, hr, hnew, rfl⟩
      · exact h.everUnique i hi j hj hseq
      · have hle := h.everLast i hi
        omega
    · rcases mem_ever_commit hj with hj | ⟨r', hr', hnew', rfl⟩
      · have hle := h.everLast j hj
        omega
      · have hsame : r = r' := by
          by_contra hne
          exact seq_ne_of_sorted db'.steps hr hr' hne hseq
        rw [hsame]
  everConfirmed := by
    intro i hi hsystem
    rcases mem_ever_commit hi with hi | ⟨r, hr, hnew, rfl⟩
    · exact h.everConfirmed i hi hsystem
    · rcases hg.rows r hr with ⟨s, hs, hident⟩ | ⟨-, hconfirmed⟩
      · have hle := l.db.steps.le_last s hs
        rw [congrArg StepIdent.seq hident] at hnew
        omega
      · exact hconfirmed hsystem

/-- An inserted or rewritten row in tables that change only so keeps every draft's snapshot. -/
theorem Inv.commit (h : Inv rt l) {db' : Db} {n : AttemptId} (htables : db'.Inv rt n) (hg : Grows l db')
    (hdrafts : ∀ d' ∈ db'.amendments.rows, ∃ d ∈ l.db.amendments.rows, d'.amendmentId = d.amendmentId ∧
      ∀ task, DraftedFrom rt task d → DraftedFrom rt task d') :
    Inv rt { l.commit db' with nextAttempt := n } where
  tables := htables
  history := { h.history.commit hg with }
  drafts := by
    intro d' hd'
    obtain ⟨d, hd, -, hfrom⟩ := hdrafts d' hd'
    obtain ⟨task, htask, hdraft⟩ := h.drafts d hd
    exact ⟨task, htask, hfrom task hdraft⟩
  draftIds := by
    intro d' hd'
    obtain ⟨d, hd, hid, -⟩ := hdrafts d' hd'
    show d'.amendmentId < l.nextAmendment
    rw [hid]
    exact h.draftIds d hd

/-- Drafts that stay as they are. -/
theorem drafts_same {db db' : Db} (h : db'.amendments = db.amendments) :
    ∀ d' ∈ db'.amendments.rows, ∃ d ∈ db.amendments.rows, d'.amendmentId = d.amendmentId ∧
      ∀ task, DraftedFrom rt task d → DraftedFrom rt task d' := by
  intro d hd
  rw [h] at hd
  exact ⟨d, hd, rfl, fun _ hfrom => hfrom⟩

/-- Drafts whose status changes. -/
theorem drafts_status {db db' : Db} {p : AmendmentDraft → Bool} {status : AmendmentStatus}
    (h : db'.amendments = (db.setDraftStatus p status).amendments) :
    ∀ d' ∈ db'.amendments.rows, ∃ d ∈ db.amendments.rows, d'.amendmentId = d.amendmentId ∧
      ∀ task, DraftedFrom rt task d → DraftedFrom rt task d' := by
  intro d' hd'
  rw [h] at hd'
  have hmem : d' ∈ (db.amendments.updateWhere p (fun d => { d with status := status }) fun _ => rfl).rows := hd'
  obtain ⟨d, hd, hd'eq⟩ := Keyed.mem_updateWhere.1 hmem
  refine ⟨d, hd, ?_⟩
  rw [hd'eq]
  split
  · exact ⟨rfl, fun _ hfrom => hfrom⟩
  · exact ⟨rfl, fun _ hfrom => hfrom⟩

/-- A change of drafts leaves the rows as they are. -/
theorem Grows.refl (_ : Inv rt l) : Grows l l.db where
  rows := fun r hr => .inl ⟨r, hr, rfl⟩
  last := le_refl _
  started := fun s hs hst => ⟨s, hs, rfl, hst⟩
  opened := fun _ h => h

/-! ### Rows rewritten in place -/

/-- The task rows go on: same ids and hashes, and an opened task stays opened. -/
structure TasksFollow (tasks tasks' : List TaskRow) : Prop where
  back : ∀ row' ∈ tasks', ∃ row ∈ tasks, row'.id = row.id ∧ row'.planHash = row.planHash ∧
    (row'.status.everOpened = false → row.status.everOpened = false) ∧
    (row'.status.everOpened = true → row.status.everOpened = true ∨ row.planHash ≠ none)
  forth : ∀ row ∈ tasks, ∃ row' ∈ tasks', row'.id = row.id ∧ row'.planHash = row.planHash ∧
    (row.status.everOpened = true → row'.status.everOpened = true)

theorem TasksFollow.refl (tasks : List TaskRow) : TasksFollow tasks tasks where
  back := fun row hrow => ⟨row, hrow, rfl, rfl, id, fun h => .inl h⟩
  forth := fun row hrow => ⟨row, hrow, rfl, rfl, id⟩

/-- The step rows are rewritten: identities stay, no row returns to `pending`, and a row leaves
`pending` only in an opened task. -/
structure RowsFollow (l : Ledger) (g : TeamStep → TeamStep) : Prop where
  ident : ∀ s, (g s).toStepIdent = s.toStepIdent
  back : ∀ s, (g s).status = .pending → s.status = .pending ∧ (g s).attemptId = s.attemptId
  forth : ∀ s ∈ l.db.steps.rows, s.status = .pending → (g s).status = .pending ∨ l.Opened s.taskId

theorem TasksFollow.opened {db' : Db} (h : TasksFollow l.db.tasks.rows db'.tasks.rows) {taskId : String}
    (hopened : l.Opened taskId) : ∃ row ∈ db'.tasks.rows, row.id = taskId ∧ row.status.everOpened = true := by
  obtain ⟨row, hrow, hid, hstatus⟩ := hopened
  obtain ⟨row', hrow', hid', -, hopen⟩ := h.forth row hrow
  exact ⟨row', hrow', hid'.trans hid, hopen hstatus⟩

theorem map_ident {g : TeamStep → TeamStep} (hg : ∀ s, (g s).toStepIdent = s.toStepIdent)
    (steps : List TeamStep) (taskId : String) :
    (steps.map g).filter (fun s => decide (s.taskId = taskId)) =
      (steps.filter fun s => decide (s.taskId = taskId)).map g := by
  rw [List.filter_map]
  congr 1
  refine List.filter_congr fun s _ => ?_
  have htask : (g s).taskId = s.taskId := congrArg StepIdent.taskId (hg s)
  simp [htask]

theorem confirmedFields_map {g : TeamStep → TeamStep} (hg : ∀ s, (g s).toStepIdent = s.toStepIdent)
    (steps : List TeamStep) : confirmedFields (steps.map g) = confirmedFields steps := by
  unfold confirmedFields
  rw [List.filter_map, List.map_map]
  have hsystem : (fun s : TeamStep => !s.systemInserted) ∘ g = fun s => !s.systemInserted := by
    funext s
    simp [congrArg StepIdent.systemInserted (hg s)]
  rw [hsystem]
  exact List.map_congr_left fun s _ => congrArg StepIdent.toStepFields (hg s)

/-- Rewriting rows in place, together with statuses and costs of tasks, keeps the invariant. -/
theorem Inv.rewrite (h : Inv rt l) {db' : Db} {g : TeamStep → TeamStep} {n : AttemptId}
    (hrows : db'.steps.rows = l.db.steps.rows.map g) (hlast : db'.steps.last = l.db.steps.last)
    (hg : RowsFollow l g) (htasks : TasksFollow l.db.tasks.rows db'.tasks.rows)
    (hamend : db'.amendments = l.db.amendments)
    (hissued : ∀ s ∈ l.db.steps.rows, ∀ a, (g s).attemptId = some a → a < n) :
    Inv rt { l.commit db' with nextAttempt := n } := by
  have hmem : ∀ {r : TeamStep}, r ∈ db'.steps.rows → ∃ s ∈ l.db.steps.rows, g s = r := by
    intro r hr
    rw [hrows] at hr
    exact List.mem_map.1 hr
  have hfor : ∀ taskId, db'.stepsForTask taskId = (l.db.stepsForTask taskId).map g := by
    intro taskId
    unfold Db.stepsForTask
    rw [hrows, map_ident hg.ident]
  apply h.commit ?_ ?_ (drafts_same hamend)
  · constructor
    case plan =>
      intro row' hrow' hash hhash
      obtain ⟨row, hrow, hid, hplan, -⟩ := htasks.back row' hrow'
      rw [hfor, confirmedFields_map hg.ident, hid]
      exact h.tables.plan row hrow hash (hplan ▸ hhash)
    case owned =>
      intro r hr
      obtain ⟨s, hs, rfl⟩ := hmem hr
      obtain ⟨row, hrow, hid, hplan⟩ := h.tables.owned s hs
      obtain ⟨row', hrow', hid', hplan', -⟩ := htasks.forth row hrow
      refine ⟨row', hrow', ?_, by rwa [hplan']⟩
      rw [hid', hid, congrArg StepIdent.taskId (hg.ident s)]
    case bound =>
      intro row' hrow' hopen
      obtain ⟨row, hrow, -, hplan, -, hback⟩ := htasks.back row' hrow'
      rw [hplan]
      rcases hback hopen with hopen | hbound
      · exact h.tables.bound row hrow hopen
      · exact hbound
    case fresh =>
      intro row' hrow' hclosed r hr
      obtain ⟨row, hrow, hid, -, hback, -⟩ := htasks.back row' hrow'
      rw [hfor, hid] at hr
      obtain ⟨s, hs, rfl⟩ := List.mem_map.1 hr
      obtain ⟨hpending, hsystem⟩ := h.tables.fresh row hrow (hback hclosed) s hs
      obtain ⟨hstored, htask⟩ := Db.mem_stepsForTask.1 hs
      rw [congrArg StepIdent.systemInserted (hg.ident s)]
      refine ⟨?_, hsystem⟩
      rcases hg.forth s hstored hpending with hp | ⟨row₂, hrow₂, hid₂, hopen⟩
      · exact hp
      · have hsame : row₂ = row := eq_of_key l.db.tasks.nodup hrow₂ hrow (hid₂.trans htask)
        rw [hsame, hback hclosed] at hopen
        cases hopen
    case unstarted =>
      intro r hr hpending
      obtain ⟨s, hs, rfl⟩ := hmem hr
      obtain ⟨hp, hattempt⟩ := hg.back s hpending
      rw [hattempt]
      exact h.tables.unstarted s hs hp
    case issued =>
      intro r hr a ha
      obtain ⟨s, hs, rfl⟩ := hmem hr
      exact hissued s hs a ha
    case confirmed =>
      intro r hr hsystem
      obtain ⟨s, hs, rfl⟩ := hmem hr
      rw [congrArg StepIdent.systemInserted (hg.ident s)] at hsystem
      rw [congrArg StepIdent.toStepFields (hg.ident s), congrArg StepIdent.stepType (hg.ident s)]
      exact h.tables.confirmed s hs hsystem
    case minted =>
      intro r hr hsystem
      obtain ⟨s, hs, rfl⟩ := hmem hr
      rw [congrArg StepIdent.systemInserted (hg.ident s)] at hsystem
      rw [congrArg StepIdent.needsReview (hg.ident s), congrArg StepIdent.stepType (hg.ident s)]
      exact h.tables.minted s hs hsystem
  · constructor
    case rows =>
      intro r hr
      obtain ⟨s, hs, rfl⟩ := hmem hr
      exact .inl ⟨s, hs, hg.ident s⟩
    case last =>
      exact hlast.ge
    case started =>
      intro s hs hstarted
      refine ⟨g s, ?_, hg.ident s, fun hp => hstarted (hg.back s hp).1⟩
      rw [hrows]
      exact List.mem_map_of_mem hs
    case opened =>
      exact fun taskId hopened => htasks.opened hopened

end Ledger

end ProjectManager
