import ProjectManager.Lib.Layer
import ProjectManager.Office.Book
import ProjectManager.Office.Delivery
import ProjectManager.Office.Progress

/-!
# Reviews and reworks in every run

The book of reviews is kept for the store and for the ticker's snapshot together (`bookLayer`): until it
mints, the ticker's snapshot shows every minted row of the store, and what it shows as started is still
there.  `rework_cap` is the bound on rounds with the assignment rules, and `mint_succeeds_iff` says when a
minted row is accepted.
-/

namespace ProjectManager

open Process

/-- The book of every task is in order. -/
def Office.Books (w : Office) : Prop :=
  ∀ taskId, Booked w.files taskId (w.ledger.db.stepsForTask taskId)

/-- What the ticker's log says of the book. -/
structure BookLink (log : OfficeLog) (w : Office) : Prop where
  ordered : ∀ task, Snap log task → Ordered task.steps
  booked : ∀ task, Snap log task → Booked w.files task.id task.steps
  carries : Unminted log → ∀ task, Snap log task → Carries task.steps (w.ledger.db.stepsForTask task.id)
  reads : ∀ task, Snap log task → ReadsFiles w.files log task

theorem Db.ordered (db : Db) (taskId : String) : Ordered (db.stepsForTask taskId) where
  sorted := db.steps.sorted.sublist List.filter_sublist
  unique := by
    refine List.Nodup.map_on ?_ ?_
    · intro r hr r' hr' hid
      obtain ⟨hmem, htask⟩ := Db.mem_stepsForTask.1 hr
      obtain ⟨hmem', htask'⟩ := Db.mem_stepsForTask.1 hr'
      exact Db.step_unique hmem hmem' (htask.trans htask'.symm) hid
    · exact (List.Nodup.of_map _ db.steps.nodup).filter _

theorem Carries.refl (steps : List TeamStep) : Carries steps steps :=
  ⟨fun s hs _ => ⟨s, hs, rfl, id⟩, fun s hs hstarted => ⟨s, hs, rfl, hstarted⟩⟩

theorem Carries.trans {steps₁ steps₂ steps₃ : List TeamStep} (h : Carries steps₁ steps₂) (h' : Carries steps₂ steps₃) :
    Carries steps₁ steps₃ where
  back := by
    intro s₃ hs₃ htype
    obtain ⟨s₂, hs₂, hident₂, hst₂⟩ := h'.back s₃ hs₃ htype
    rw [← congrArg StepIdent.stepType hident₂] at htype
    obtain ⟨s₁, hs₁, hident₁, hst₁⟩ := h.back s₂ hs₂ htype
    exact ⟨s₁, hs₁, hident₁.trans hident₂, fun hst => hst₂ (hst₁ hst)⟩
  forth := by
    intro s₁ hs₁ hst₁
    obtain ⟨s₂, hs₂, hident₂, hst₂⟩ := h.forth s₁ hs₁ hst₁
    obtain ⟨s₃, hs₃, hident₃, hst₃⟩ := h'.forth s₂ hs₂ hst₂
    exact ⟨s₃, hs₃, hident₃.trans hident₂, hst₃⟩

theorem Calm.unminted {log : OfficeLog} (h : Calm log) : Unminted log := by
  intro x hx
  have hcalm := h x hx
  unfold OfficeCall.mints
  split
  · rename_i hx'
    rw [hx'] at hcalm
    cases hcalm
  · rfl

/-! ### Operations of the store -/

section Operations

variable {cfg : OfficeConfig} {staffOk : List (String × String) → Prop} {w : Office} {o : StoreOp} {taskId : String}

/-- A started row stays started. -/
theorem StoreOp.Moves.started {l : Ledger} {s s' : TeamStep} (h : o.Moves l s s') (hpre : o.Pre cfg.rt l)
    (hstarted : s.status ≠ .pending) : s'.status ≠ .pending := by
  rcases h.2 with ⟨hstatus, -⟩ | ⟨_, _, -, -, -, hrunning, -⟩ | ⟨_, _, _, _, _, rfl, -, hstatus, -⟩
  · rw [hstatus]
    exact hstarted
  · rw [hrunning]
    decide
  · rw [hstatus]
    exact hpre.2

/-- The rows of a task after an operation that mints none. -/
theorem Office.Inv.carries (hinv : w.Inv cfg staffOk) (hsha : Function.Injective cfg.rt.sha256) (hpre : o.Pre cfg.rt w.ledger)
    (hmint : (OfficeCall.store o).mints = false) :
    Carries (w.ledger.db.stepsForTask taskId) ((o.run cfg.rt w.ledger).2.db.stepsForTask taskId) := by
  have hafter := hinv.ledger.op hsha hpre
  rcases hinv.ledger.stepsAfter hpre taskId with ⟨g, hsteps, hedits⟩ | ⟨keep, new, hsteps, hkeep, hnew, -⟩ | ⟨d, rfl, -⟩
  · rw [hsteps]
    constructor
    · intro s' hs' _
      obtain ⟨s, hs, rfl⟩ := List.mem_map.1 hs'
      exact ⟨s, hs, (hedits s).moves.1.symm, (hedits s).moves.started hpre⟩
    · exact fun s hs hst => ⟨g s, List.mem_map_of_mem hs, (hedits s).moves.1, (hedits s).moves.started hpre hst⟩
  · rw [hsteps]
    constructor
    · intro s hs htype
      rcases List.mem_append.1 hs with hold | hlast
      · exact ⟨s, (List.mem_filter.1 hold).1, rfl, id⟩
      · rw [← hsteps] at hs
        exact absurd (hafter.tables.confirmed s (Db.mem_stepsForTask.1 hs).1 (hnew s hlast).2).2 htype
    · intro s hs hst
      exact ⟨s, List.mem_append_left _ (List.mem_filter.2 ⟨hs, hkeep s hs hst⟩), rfl, hst⟩
  · cases hmint

/-- The book after an operation: no waiting rework may be started, and what is minted must fit. -/
theorem Office.Books.store (h : w.Books) (hinv : w.Inv cfg staffOk) (hsha : Function.Injective cfg.rt.sha256)
    (hpre : o.Pre cfg.rt w.ledger)
    (hwaits : ∀ row ∈ w.ledger.db.steps.rows, row.stepType = .rework → row.status = .pending →
      (OfficeCall.store o).writes row = true → ∀ r ∈ w.ledger.db.steps.rows, r.taskId = row.taskId →
        r.status = .pending → row.deps ≠ [r.stepId])
    (hmint : ∀ taskId d, o = .insertStep taskId d → ∀ n, ∃ content,
      NewRow (w.ledger.db.stepsForTask taskId) (mintedRow taskId d n) content ∧
      ((mintedRow taskId d n).stepType = .review →
        NewReview (w.ledger.db.stepsForTask taskId) (mintedRow taskId d n) content) ∧
      ((mintedRow taskId d n).stepType = .rework →
        NewRework w.files taskId (w.ledger.db.stepsForTask taskId) (mintedRow taskId d n) content)) :
    ((OfficeCall.store o).handle cfg.rt w).2.Books := by
  intro taskId
  have hafter := hinv.ledger.op hsha hpre
  have hordered := (o.run cfg.rt w.ledger).2.db.ordered taskId
  show Booked w.files taskId ((o.run cfg.rt w.ledger).2.db.stepsForTask taskId)
  rcases hinv.ledger.stepsAfter hpre taskId with ⟨g, hsteps, hedits⟩ | ⟨keep, new, hsteps, hkeep, hnew, -⟩ |
    ⟨d, ho, hsteps⟩
  · rw [hsteps] at hordered ⊢
    refine (h taskId).map (fun s => (hedits s).moves.1) hordered (fun s _ => (hedits s).moves.started hpre) ?_
    intro row hrow htype hpending hstarted r hr hrpending
    obtain ⟨hmem, htask⟩ := Db.mem_stepsForTask.1 hrow
    obtain ⟨hrmem, hrtask⟩ := Db.mem_stepsForTask.1 hr
    refine hwaits row hmem htype hpending ?_ r hrmem (hrtask.trans htask.symm) hrpending
    by_contra hspared
    rw [((hedits row).moves.spared (by simpa using hspared)).2.1] at hstarted
    exact hstarted hpending
  · have hwork : ∀ s ∈ new, s.stepType = .work := by
      intro s hs
      have hstored : s ∈ (o.run cfg.rt w.ledger).2.db.stepsForTask taskId := by
        rw [hsteps]
        exact List.mem_append_right _ hs
      exact (hafter.tables.confirmed s (Db.mem_stepsForTask.1 hstored).1 (hnew s hs).2).2
    rw [hsteps] at hordered ⊢
    exact (h taskId).replan (w.ledger.db.ordered taskId) hordered hkeep hwork
  · rw [hsteps] at hordered ⊢
    obtain ⟨content, hrow, hreview, hrework⟩ := hmint taskId d ho (w.ledger.db.steps.last + 1)
    refine (h taskId).append hrow hreview hrework hordered fun s hs => ?_
    exact Nat.lt_succ_of_le (w.ledger.db.steps.le_last s (Db.mem_stepsForTask.1 hs).1)

/-- More files keep the book. -/
theorem Booked.files {files files' : ArtifactPath → Option Artifact} {steps : List TeamStep}
    (h : Booked files taskId steps) (hfiles : ∀ path, files path ≠ none → files' path ≠ none) :
    Booked files' taskId steps :=
  { h with verdicts := fun c hc w hw => hfiles _ (h.verdicts c hc w hw) }

/-- Files are never removed. -/
theorem files_kept (e : OfficeCall) (w : Office) (path : ArtifactPath) (h : w.files path ≠ none) :
    (e.handle cfg.rt w).2.files path ≠ none := by
  cases e with
  | writeArtifact path' a =>
      by_cases hpath : path = path'
      · simp [OfficeCall.handle, hpath]
      · simpa [OfficeCall.handle, Function.update_of_ne hpath] using h
  | _ =>
      exact h

/-- The book after a call. -/
theorem Office.Books.handle (h : w.Books) (hinv : w.Inv cfg staffOk) (hsha : Function.Injective cfg.rt.sha256)
    {e : OfficeCall} (hpre : ∀ o, e = .store o → o.Pre cfg.rt w.ledger)
    (hwaits : ∀ row ∈ w.ledger.db.steps.rows, row.stepType = .rework → row.status = .pending → e.writes row = true →
      ∀ r ∈ w.ledger.db.steps.rows, r.taskId = row.taskId → r.status = .pending → row.deps ≠ [r.stepId])
    (hmint : ∀ taskId d, e = .store (.insertStep taskId d) → ∀ n, ∃ content,
      NewRow (w.ledger.db.stepsForTask taskId) (mintedRow taskId d n) content ∧
      ((mintedRow taskId d n).stepType = .review →
        NewReview (w.ledger.db.stepsForTask taskId) (mintedRow taskId d n) content) ∧
      ((mintedRow taskId d n).stepType = .rework →
        NewRework w.files taskId (w.ledger.db.stepsForTask taskId) (mintedRow taskId d n) content)) :
    (e.handle cfg.rt w).2.Books := by
  by_cases hstore : ∃ o, e = .store o
  · obtain ⟨o, rfl⟩ := hstore
    exact h.store hinv hsha (hpre o rfl) hwaits fun taskId d ho => hmint taskId d (by rw [ho])
  · push Not at hstore
    intro taskId
    rw [ledger_handle hstore]
    exact (h taskId).files (files_kept e w)

/-- The rows of a task after a call that mints none. -/
theorem Office.Inv.carriesHandle (hinv : w.Inv cfg staffOk) (hsha : Function.Injective cfg.rt.sha256) {e : OfficeCall}
    (hpre : ∀ o, e = .store o → o.Pre cfg.rt w.ledger) (hmint : e.mints = false) (taskId : String) :
    Carries (w.ledger.db.stepsForTask taskId) ((e.handle cfg.rt w).2.ledger.db.stepsForTask taskId) := by
  by_cases hstore : ∃ o, e = .store o
  · obtain ⟨o, rfl⟩ := hstore
    exact hinv.carries hsha (hpre o rfl) hmint
  · push Not at hstore
    rw [ledger_handle hstore]
    exact .refl _

end Operations

/-! ### The layer -/

section Layer

variable {cfg : OfficeConfig} {staffOk : List (String × String) → Prop} {w w' : Office} {log : OfficeLog} {e : OfficeCall}
  {s : Spawn}

/-- A worker does not touch pending rows. -/
theorem WorkerObeys.spares_pending (hinv : w.Inv cfg staffOk) (h : WorkerObeys s log e) {row : TeamStep}
    (hrow : row ∈ w.ledger.db.steps.rows) (hpending : row.status = .pending) : e.writes row = false := by
  by_contra hwrites
  obtain ⟨-, -, hattempt⟩ := h.leased_of_writes (by simpa using hwrites)
  rw [hinv.ledger.tables.unstarted row hrow hpending] at hattempt
  cases hattempt

/-- The ticker starts a rework only when what it waits for is done. -/
theorem BookLink.ready (h : BookLink log w) {k : ℕ} (hobeys : TickObeys k staffOk log e) {row r : TeamStep}
    (hrow : row ∈ w.ledger.db.steps.rows) (htype : row.stepType = .rework) (hpending : row.status = .pending)
    (hwrites : e.writes row = true) (hr : r ∈ w.ledger.db.steps.rows) (htask : r.taskId = row.taskId)
    (hrpending : r.status = .pending) : row.deps ≠ [r.stepId] := by
  intro hdeps
  obtain ⟨task, step, hpicked, hid, hstepId⟩ := hobeys.picked_of_writes hwrites
  obtain ⟨hsnap, hstep, -⟩ := hpicked.chosen
  have hcarries := h.carries hpicked.unminted task hsnap
  have hordered := h.ordered task hsnap
  -- the snapshot shows the same row, and shows it as pending
  obtain ⟨shown, hshown, hident, hstarted⟩ := hcarries.back row (Db.mem_stepsForTask.2 ⟨hrow, hid.symm⟩)
    (by rw [htype]; decide)
  obtain rfl : shown = step := by
    refine hordered.eq_of_id hshown hstep ?_
    rw [congrArg (fun i : StepIdent => i.stepId) hident, hstepId]
  have hready := hpicked.ready (by
    by_contra hne
    exact hstarted hne hpending)
  simp only [readyPendingSteps, List.mem_filter, Bool.and_eq_true, List.all_eq_true, decide_eq_true_eq,
    List.mem_map] at hready
  have hdep := hready.2.2 r.stepId (by
    rw [congrArg (fun i : StepIdent => i.deps) hident, hdeps]
    simp)
  obtain ⟨dep, ⟨hmem, hdone⟩, hdepId⟩ := hdep
  -- so the row it waits for is started in the store too
  obtain ⟨r', hr', hrident, hrstarted⟩ := hcarries.forth dep hmem (by rw [hdone]; decide)
  obtain rfl : r' = r := by
    refine (w.ledger.db.ordered task.id).eq_of_id hr' (Db.mem_stepsForTask.2 ⟨hr, by rw [htask, hid]⟩) ?_
    rw [congrArg (fun i : StepIdent => i.stepId) hrident, hdepId]
  exact hrstarted hrpending

/-- What the ticker mints fits the store. -/
theorem BookLink.fits (h : BookLink log w) {k : ℕ} {taskId : String} {d : StepDict}
    (hobeys : TickObeys k staffOk log (.store (.insertStep taskId d))) (n : ℕ) : ∃ content,
      NewRow (w.ledger.db.stepsForTask taskId) (mintedRow taskId d n) content ∧
      ((mintedRow taskId d n).stepType = .review →
        NewReview (w.ledger.db.stepsForTask taskId) (mintedRow taskId d n) content) ∧
      ((mintedRow taskId d n).stepType = .rework →
        NewRework w.files taskId (w.ledger.db.stepsForTask taskId) (mintedRow taskId d n) content) := by
  obtain ⟨hcalm, task, step, hsnap, rfl, hstep, hmints⟩ := hobeys
  obtain ⟨hdone, hminting⟩ := hmints.cases
  obtain ⟨content, hrow, hreview, hrework⟩ := hminting.fits (h.booked task hsnap) (h.ordered task hsnap)
    (h.reads task hsnap) hstep hdone n
  exact hrow.carry (h.carries hcalm.unminted task hsnap) (h.ordered task hsnap) (w.ledger.db.ordered task.id)
    hreview hrework

/-- A ticker that has just started has read nothing. -/
theorem BookLink.fresh (w : Office) : BookLink [] w := by
  have hnone : ∀ task, ¬ Snap [] task := by
    rintro task ⟨tasks, hread, -⟩
    cases hread
  exact ⟨fun task h => absurd h (hnone task), fun task h => absurd h (hnone task),
    fun _ task h => absurd h (hnone task), fun task h => absurd h (hnone task)⟩

/-- A call of another process, or a change from outside, keeps the link. -/
theorem BookLink.kept (h : BookLink log w) (hfiles : ∀ path, w.files path ≠ none → w'.files path ≠ none)
    (hcarries : ∀ taskId, Carries (w.ledger.db.stepsForTask taskId) (w'.ledger.db.stepsForTask taskId)) :
    BookLink log w' where
  ordered := h.ordered
  booked := fun task hsnap => (h.booked task hsnap).files hfiles
  carries := fun hunminted task hsnap => (h.carries hunminted task hsnap).trans (hcarries task.id)
  reads := fun task hsnap => ⟨fun path v hread => hfiles path ((h.reads task hsnap).found path v hread),
    (h.reads task hsnap).missed⟩

/-- A snapshot of the longer log is an old one, or it was just read from the store. -/
theorem TickObeys.snap {k : ℕ} (h : TickObeys k staffOk log e) {task : TeamTask}
    (hsnap : Snap (log ++ [⟨e, (e.handle cfg.rt w).1⟩]) task) : Snap log task ∨
      log = [] ∧ e = .store .listDispatchable ∧ task.steps = w.ledger.db.stepsForTask task.id := by
  rcases hsnap.of_append with hsnap | ⟨tasks, htask, rfl, htasks⟩
  · exact .inl hsnap
  · obtain rfl := eq_of_heq htasks
    obtain ⟨-, -, hsteps⟩ := Db.get_eq_some.1 (Db.mem_listDispatchable.1 htask).1
    exact .inr ⟨h, rfl, hsteps⟩

/-- The ticker's own call keeps its link. -/
theorem BookLink.asked (h : BookLink log w) (hbooks : w.Books) (hinv : w.Inv cfg staffOk)
    (hsha : Function.Injective cfg.rt.sha256) (hpre : ∀ o, e = .store o → o.Pre cfg.rt w.ledger) {k : ℕ}
    (hobeys : TickObeys k staffOk log e) :
    BookLink (log ++ [⟨e, (e.handle cfg.rt w).1⟩]) (e.handle cfg.rt w).2 := by
  have hfiles : ∀ path, w.files path ≠ none → (e.handle cfg.rt w).2.files path ≠ none := files_kept e w
  constructor
  case ordered =>
    intro task hsnap
    rcases hobeys.snap hsnap with hold | ⟨-, -, hsteps⟩
    · exact h.ordered task hold
    · rw [hsteps]
      exact w.ledger.db.ordered task.id
  case booked =>
    intro task hsnap
    rcases hobeys.snap hsnap with hold | ⟨-, -, hsteps⟩
    · exact (h.booked task hold).files hfiles
    · rw [hsteps]
      exact (hbooks task.id).files hfiles
  case carries =>
    intro hunminted task hsnap
    have hbefore : Unminted log := fun x hx => hunminted x (List.mem_append_left _ hx)
    have hmint : e.mints = false := hunminted ⟨e, (e.handle cfg.rt w).1⟩ (by simp)
    rcases hobeys.snap hsnap with hold | ⟨-, rfl, hsteps⟩
    · exact (h.carries hbefore task hold).trans (hinv.carriesHandle hsha hpre hmint task.id)
    · rw [hsteps]
      exact .refl _
  case reads =>
    intro task hsnap
    constructor
    · intro path v hread
      rcases hread.of_append with hread | ⟨rfl, hv⟩
      · rcases hobeys.snap hsnap with hold | ⟨rfl, -, -⟩
        · exact hfiles path ((h.reads task hold).found path v hread)
        · cases hread
      · intro hnone
        have hv : w.files path = some v := hv
        rw [show w.files path = none from hnone] at hv
        cases hv
    · intro c hc x hx hread
      rcases hobeys.snap hsnap with hold | ⟨rfl, rfl, -⟩
      · rcases hread.of_append with hread | ⟨rfl, hnone⟩
        · exact (h.reads task hold).missed c hc x hx hread
        · exact (h.booked task hold).verdicts c hc x hx hnone
      · rcases hread.of_append with hread | ⟨hfalse, -⟩
        · cases hread
        · cases hfalse

/-- A change from outside keeps the book and the link. -/
theorem Office.Changes.books (h : Office.Changes cfg staffOk w w') (hinv : w.Inv cfg staffOk)
    (hsha : Function.Injective cfg.rt.sha256) (hbooks : w.Books) :
    w'.Books ∧ ∀ log, BookLink log w → BookLink log w' := by
  cases h with
  | env env hstaff =>
      exact ⟨hbooks, fun log hlink => hlink.kept (fun _ h => h) fun _ => .refl _⟩
  | time now =>
      exact ⟨hbooks, fun log hlink => hlink.kept (fun _ h => h) fun _ => .refl _⟩
  | client o hclient hpre =>
      have hmint : (OfficeCall.store o).mints = false := by
        cases o with
        | insertStep =>
            cases hclient
        | _ =>
            rfl
      refine ⟨hbooks.store hinv hsha hpre ?_ ?_, fun log hlink => ?_⟩
      · intro row _ _ _ hwrites
        rw [OfficeCall.spares_of_client hclient] at hwrites
        cases hwrites
      · rintro taskId d rfl
        cases hclient
      · exact hlink.kept (fun _ h => h) fun _ => hinv.carries hsha hpre hmint

variable (cfg staffOk)

/-- The book as a layer on top of the office's invariant. -/
def bookLayer (hsha : Function.Injective cfg.rt.sha256) (allows : OfficePool → OfficeParty → OfficeCall → Prop) :
    Layer (officeSpec cfg hsha staffOk allows) (officeSpec cfg hsha staffOk allows).PoolOk where
  Inv := Office.Books
  Link := fun p log w => p = .ticker → BookLink log w
  own := by
    intro pool q e turn
    obtain ⟨hinv, -, hobeys⟩ := turn.known.at_next turn.mem turn.next
    have hpre := pre_next hsha turn.known turn.mem turn.next
    obtain ⟨party, prog, log⟩ := q
    cases party with
    | worker s =>
        have hwork : WorkerObeys s log e := hobeys
        refine ⟨Office.Books.handle turn.inv hinv hsha hpre ?_ ?_, nofun⟩
        · intro row hrow _ hpending hwrites
          rw [hwork.spares_pending hinv hrow hpending] at hwrites
          cases hwrites
        · rintro taskId d rfl
          cases hwork
    | ticker =>
        have htick : TickObeys cfg.concurrency staffOk log e := hobeys
        have hbook : BookLink log pool.world := turn.link rfl
        refine ⟨Office.Books.handle turn.inv hinv hsha hpre ?_ ?_, fun _ => ?_⟩
        · intro row hrow htype hpending hwrites r hr htask hrpending
          exact hbook.ready htick hrow htype hpending hwrites hr htask hrpending
        · rintro taskId d rfl n
          exact hbook.fits htick n
        · exact hbook.asked turn.inv hinv hsha hpre htick
  others := by
    intro pool q q' e turn hapart _ hlink' hticker
    obtain ⟨hinv, -, hobeys⟩ := turn.known.at_next turn.mem turn.next
    have hpre := pre_next hsha turn.known turn.mem turn.next
    obtain ⟨party, prog, log⟩ := q
    cases party with
    | ticker =>
        rw [hticker] at hapart
        cases hapart
    | worker s =>
        have hwork : WorkerObeys s log e := hobeys
        refine (hlink' hticker).kept (files_kept e pool.world) (hinv.carriesHandle hsha hpre ?_)
        unfold OfficeCall.mints
        split
        · cases hwork
        · rfl
  outside := by
    intro w w' procs hok hbooks hchange
    obtain ⟨hbooks', hlinks⟩ := Office.Changes.books hchange hok.inv hsha hbooks
    exact ⟨hbooks', fun q _ hlink hticker => hlinks _ (hlink hticker)⟩
  starting := by
    rintro pool p prog - - - -
    exact .fresh pool.world
  forking := by
    intro pool q e p' prog _ hforks hticker
    cases e with
    | spawnStep s =>
        cases hforks
        cases hticker
    | _ =>
        cases hforks

variable {cfg staffOk}

/-- The book is in order in every state of every run. -/
theorem bookOk (hsha : Function.Injective cfg.rt.sha256) {allows : OfficePool → OfficeParty → OfficeCall → Prop}
    {pool : OfficePool} (h : (officeSystem cfg staffOk allows).Reach (officeInit staffOk) pool) :
    (bookLayer cfg staffOk hsha allows).Ok pool := by
  refine Layer.ok_of_reach (fun _ => officeOk hsha) (fun _ => officeOk hsha) ?_ h
  rintro - ⟨now, env, -, rfl⟩
  refine ⟨?_, by simp⟩
  intro taskId
  show Booked _ taskId []
  constructor <;> simp [childrenOf]

end Layer

/-! ### Results -/

section Results

variable {cfg : OfficeConfig} {staffOk : List (String × String) → Prop} {pool : OfficePool}

/-- In every state of every run: one rework a round, rounds up to the cap, reviews by colleagues, reworks
by the author, and neither is up for review itself. -/
theorem rework_cap (hsha : Function.Injective cfg.rt.sha256)
    (hreach : (officeSystem cfg staffOk anyCall).Reach (officeInit staffOk) pool) (taskId : String) :
    (∀ c ∈ pool.world.ledger.db.stepsForTask taskId,
        ∀ w ∈ childrenOf (pool.world.ledger.db.stepsForTask taskId) c.stepId .rework,
          ∀ w' ∈ childrenOf (pool.world.ledger.db.stepsForTask taskId) c.stepId .rework,
            w.reviewRound = w'.reviewRound → w = w') ∧
      (∀ w ∈ pool.world.ledger.db.stepsForTask taskId, w.stepType = .rework → w.reviewRound = 0 ∨ w.reviewRound = 1) ∧
      (∀ r ∈ pool.world.ledger.db.stepsForTask taskId, r.stepType = .review → r.reviewRound ≤ 2) ∧
      ∀ r ∈ pool.world.ledger.db.stepsForTask taskId, r.stepType = .review ∨ r.stepType = .rework →
        r.needsReview = false ∧ ∃ c ∈ pool.world.ledger.db.stepsForTask taskId, r.parentStepId = some c.stepId ∧
          (r.stepType = .review → r.assignedTo ≠ c.assignedTo) ∧
          (r.stepType = .rework → r.assignedTo = c.assignedTo) := by
  have hbook : Booked pool.world.files taskId (pool.world.ledger.db.stepsForTask taskId) := (bookOk hsha hreach).inv taskId
  refine ⟨fun c _ w hw w' hw' hround => ?_, fun w hw htype => ?_, hbook.reviewRound, fun r hr htype => ?_⟩
  · refine (pool.world.ledger.db.ordered taskId).eq_of_id (mem_childrenOf.1 hw).1 (mem_childrenOf.1 hw').1 ?_
    rw [hbook.reworkIds _ w hw, hbook.reworkIds _ w' hw', hround]
  · have hlt : w.reviewRound < 2 := hbook.reworkRound w hw htype
    omega
  · have hminted : r.systemInserted = true := by
      by_contra hconfirmed
      have hwork := ((officeOk hsha hreach).inv.ledger.tables.confirmed r (Db.mem_stepsForTask.1 hr).1
        (by simpa using hconfirmed)).2
      rcases htype with htype | htype <;> rw [hwork] at htype <;> cases htype
    obtain ⟨c, hc, hparent, -, -, hpeer, hauthor⟩ := hbook.content r hr (by
      rcases htype with htype | htype <;> rw [htype] <;> decide)
    exact ⟨((officeOk hsha hreach).inv.ledger.tables.minted r (Db.mem_stepsForTask.1 hr).1 hminted).2, c, hc, hparent,
      hpeer, hauthor⟩

/-- A row that the ticker mints is accepted exactly when no confirmed step of the task has its id: minted
rows never collide with each other. -/
theorem mint_succeeds_iff (hsha : Function.Injective cfg.rt.sha256)
    (hreach : (officeSystem cfg staffOk anyCall).Reach (officeInit staffOk) pool)
    {q : Proc OfficeParty OfficeCall OfficeCall.Resp} (hq : q ∈ pool.procs) {taskId : String} {d : StepDict}
    (hnext : q.next = some (.store (.insertStep taskId d))) :
    (∃ db, pool.world.ledger.db.insertStep taskId d = .ok db) ↔
      ∀ row ∈ pool.world.ledger.db.stepsForTask taskId, row.systemInserted = false → row.stepId ≠ d.stepId := by
  obtain ⟨hinv, -, hobeys⟩ := (officeOk hsha hreach).at_next hq hnext
  have hlink := (bookOk hsha hreach).links q hq
  have hbook : Booked pool.world.files taskId (pool.world.ledger.db.stepsForTask taskId) := (bookOk hsha hreach).inv taskId
  obtain ⟨party, prog, log⟩ := q
  cases party with
  | worker s =>
      cases hobeys
  | ticker =>
      constructor
      · rintro ⟨db, hok⟩ row hrow - hid
        obtain ⟨hmem, htask⟩ := Db.mem_stepsForTask.1 hrow
        obtain ⟨msg, herror⟩ := Db.insertStep_taken.2 ⟨row, hmem, htask, hid⟩
        rw [hok] at herror
        cases herror
      · intro hfree
        cases hinsert : pool.world.ledger.db.insertStep taskId d with
        | ok db =>
            exact ⟨db, rfl⟩
        | error msg =>
            exfalso
            obtain ⟨row, hmem, htask, hid⟩ := Db.insertStep_taken.1 ⟨msg, hinsert⟩
            have hrow := Db.mem_stepsForTask.2 ⟨hmem, htask⟩
            have hminted : row.systemInserted = true := by
              by_contra hconfirmed
              exact hfree row hrow (by simpa using hconfirmed) hid
            have hkind := (hinv.ledger.tables.minted row hmem hminted).1
            have htick : TickObeys cfg.concurrency staffOk log (.store (.insertStep taskId d)) := hobeys
            have hlink : BookLink log pool.world := hlink rfl
            obtain ⟨content, -, hreview, hrework⟩ := hlink.fits htick 0
            have hfits : (mintedRow taskId d 0).stepType = .review ∨ (mintedRow taskId d 0).stepType = .rework := by
              obtain ⟨-, _, _, -, -, -, hmints⟩ := htick
              rcases hmints.cases.2.kind with hd | hd
              · exact .inl (by simp [mintedRow, StepIdent.pendingRow, hd])
              · exact .inr (by simp [mintedRow, StepIdent.pendingRow, hd.1])
            exact hbook.fresh hfits hreview hrework hrow hkind hid

end Results

/-! ### An id that is taken -/

/-- A plan whose second step has the id of the first one's review. -/
def takenPlan : DecomposedTask where
  steps :=
    [{ stepId := "s1"
       title := "Draft"
       assignedTo := "dev"
       deps := []
       acceptance := ""
       stepType := .work
       needsReview := true
       stepId_stripped := Ledger.strip_s1
       title_stripped := Ledger.strip_draft
       title_nonblank := Ledger.draft_nonblank
       assignedTo_stripped := Ledger.strip_dev },
     { stepId := "s1-review-0-0"
       title := "Look it over"
       assignedTo := "qa"
       deps := ["s1"]
       acceptance := ""
       stepType := .work
       needsReview := false
       stepId_stripped := by decide
       title_stripped := by decide
       title_nonblank := by decide
       assignedTo_stripped := Ledger.strip_qa }]
  requiresApproval := true
  picId := ""
  nonempty := by simp
  bounded := by decide
  unique := by decide
  known := by decide
  irreflexive := by decide
  work := by decide

/-- The first step is done and the tick is about to mint its review. -/
def mintingPool (plan : DecomposedTask) : OfficePool :=
  sampleRun sampleConfig twoOnDuty (wholeTurn ++ [.start, .call 0 3])
    ⟨.holding (sampleEnv "pass") (.confirmed sampleConfig.rt plan), []⟩

/-- The first review of the first step. -/
def firstReview : StepDict where
  stepId := "s1-review-0-0"
  title := "Soát chéo: Draft"
  assignedTo := "qa"
  deps := ["s1"]
  stepType := some .review
  parentStepId := some "s1"
  reviewRound := 0

/-- The review of the sample plan is accepted. -/
theorem mint_succeeds_iff_reviewed :
    ∃ q ∈ (mintingPool reviewedPlan).procs, q.next = some (.store (.insertStep "t" firstReview)) ∧
      ∃ db, (mintingPool reviewedPlan).world.ledger.db.insertStep "t" firstReview = .ok db := by
  have hreach : (officeSystem sampleConfig twoOnDuty anyCall).Reach (officeInit twoOnDuty) (mintingPool reviewedPlan) :=
    reach_sampleRun _ (reach_confirmed reviewedPlan rfl)
  obtain ⟨⟨q, hq, hnext⟩, hfree⟩ :
      (∃ q ∈ (mintingPool reviewedPlan).procs, q.next = some (.store (.insertStep "t" firstReview))) ∧
        ∀ row ∈ (mintingPool reviewedPlan).world.ledger.db.stepsForTask "t",
          row.systemInserted = false → row.stepId ≠ firstReview.stepId := by
    decide +kernel
  exact ⟨q, hq, hnext, (mint_succeeds_iff Function.injective_id hreach hq hnext).2 hfree⟩

/-- The review of the other plan is refused: its id is taken by a confirmed step. -/
theorem mint_collides :
    ¬ ∀ pool, (officeSystem sampleConfig twoOnDuty anyCall).Reach (officeInit twoOnDuty) pool →
      ∀ q ∈ pool.procs, ∀ taskId d, q.next = some (.store (.insertStep taskId d)) →
        ∃ db, pool.world.ledger.db.insertStep taskId d = .ok db := by
  intro hclaim
  have hreach : (officeSystem sampleConfig twoOnDuty anyCall).Reach (officeInit twoOnDuty) (mintingPool takenPlan) :=
    reach_sampleRun _ (reach_confirmed takenPlan rfl)
  obtain ⟨⟨q, hq, hnext⟩, htaken⟩ :
      (∃ q ∈ (mintingPool takenPlan).procs, q.next = some (.store (.insertStep "t" firstReview))) ∧
        ∃ row ∈ (mintingPool takenPlan).world.ledger.db.steps.rows, row.taskId = "t" ∧ row.stepId = firstReview.stepId := by
    decide +kernel
  obtain ⟨db, hok⟩ := hclaim _ hreach q hq "t" firstReview hnext
  obtain ⟨msg, herror⟩ : ∃ msg, (mintingPool takenPlan).world.ledger.db.insertStep "t" firstReview = .error msg :=
    Db.insertStep_taken.2 htaken
  rw [hok] at herror
  cases herror

/-! ### A rejected draft -/

/-- The cap in a run with a review and a rework. -/
theorem rework_cap_rejected :
    ∃ w ∈ reworkPool.world.ledger.db.stepsForTask "t", w.stepType = .rework ∧ (w.reviewRound = 0 ∨ w.reviewRound = 1) ∧
      ∃ c ∈ reworkPool.world.ledger.db.stepsForTask "t", w.parentStepId = some c.stepId ∧ w.assignedTo = c.assignedTo := by
  obtain ⟨w, hw, htype⟩ : ∃ w ∈ reworkPool.world.ledger.db.stepsForTask "t", w.stepType = .rework := by decide +kernel
  obtain ⟨-, hrounds, -, hrows⟩ := rework_cap Function.injective_id reworkPool_reach "t"
  obtain ⟨-, c, hc, hparent, -, hauthor⟩ := hrows w hw (.inr htype)
  exact ⟨w, hw, htype, hrounds w hw htype, c, hc, hparent, hauthor htype⟩

end ProjectManager
