import Mathlib.Data.Finset.Card
import ProjectManager.Office.Reviews

/-!
# How many rows the ticker mints for a step

A review that is recorded as done without a verdict is minted again in the same round.  In every run in which
verdicts come first (`VerdictFirst`) that never happens: a step has one review a round (`Office.Judged`), and
with the book of reviews that makes at most three reviews and two reworks (`mints_bounded`).
-/

namespace ProjectManager

open Process

/-- The reviews and reworks that were ever minted for a step. -/
def Ledger.minted (l : Ledger) (taskId contentStepId : String) : Finset StepIdent :=
  (l.ever.filter fun i =>
    decide (i.taskId = taskId) && i.systemInserted && decide (i.parentStepId = some contentStepId)).toFinset

/-- The verdict of a review is in its file. -/
def Office.HasVerdict (w : Office) (r : TeamStep) : Prop :=
  ∃ c ∈ w.ledger.db.stepsForTask r.taskId, r.parentStepId = some c.stepId ∧
    w.files (reviewVerdictArtifactPath r.taskId c.seq r.reviewRound) ≠ none

instance (w : Office) (r : TeamStep) : Decidable (w.HasVerdict r) :=
  inferInstanceAs (Decidable (∃ c ∈ w.ledger.db.stepsForTask r.taskId, r.parentStepId = some c.stepId ∧
    w.files (reviewVerdictArtifactPath r.taskId c.seq r.reviewRound) ≠ none))

/-- The step and the lease of a call that records a step as done. -/
def OfficeCall.finished : OfficeCall → Option (String × String × Option AttemptId)
  | .store (.setStepStatus taskId stepId .done _ attemptId) => some (taskId, stepId, attemptId)
  | _ => none

/-- The task that a call mints a row for. -/
def OfficeCall.mintedFor : OfficeCall → Option String
  | .store (.insertStep taskId _) => some taskId
  | _ => none

/-- A review is recorded as done only with its verdict, and a row is minted only while those that were
minted before are still stored. -/
def VerdictFirst (pool : OfficePool) (_ : OfficeParty) (e : OfficeCall) : Prop :=
  (∀ key ∈ e.finished, ∀ r ∈ pool.world.ledger.db.steps.rows, Db.isAttempt key.1 key.2.1 key.2.2 r = true →
    r.stepType = .review → pool.world.HasVerdict r) ∧
  ∀ taskId ∈ e.mintedFor, ∀ i ∈ pool.world.ledger.ever, i.taskId = taskId → i.systemInserted = true →
    ∃ row ∈ pool.world.ledger.db.steps.rows, row.toStepIdent = i

instance (pool : OfficePool) (p : OfficeParty) (e : OfficeCall) : Decidable (VerdictFirst pool p e) :=
  inferInstanceAs (Decidable (
    (∀ key ∈ e.finished, ∀ r ∈ pool.world.ledger.db.steps.rows, Db.isAttempt key.1 key.2.1 key.2.2 r = true →
      r.stepType = .review → pool.world.HasVerdict r) ∧
    ∀ taskId ∈ e.mintedFor, ∀ i ∈ pool.world.ledger.ever, i.taskId = taskId → i.systemInserted = true →
      ∃ row ∈ pool.world.ledger.db.steps.rows, row.toStepIdent = i))

/-- One review a round, each finished one with its verdict, and so a bound on what was ever minted. -/
structure Office.Judged (w : Office) : Prop where
  verdicts : ∀ r ∈ w.ledger.db.steps.rows, r.stepType = .review → r.status = .done → w.HasVerdict r
  rounds : ∀ taskId c, ∀ r ∈ childrenOf (w.ledger.db.stepsForTask taskId) c .review,
    ∀ r' ∈ childrenOf (w.ledger.db.stepsForTask taskId) c .review, r.reviewRound = r'.reviewRound → r = r'
  bounded : ∀ taskId c, (w.ledger.minted taskId c).card ≤ 5

/-- The ticker finds the verdict of every review that its snapshot shows as done. -/
def VerdictLink (log : OfficeLog) (w : Office) : Prop :=
  ∀ task, Snap log task → ∀ r ∈ task.steps, r.stepType = .review → r.status = .done → ∃ c ∈ task.steps,
    r.parentStepId = some c.stepId ∧ w.files (reviewVerdictArtifactPath task.id c.seq r.reviewRound) ≠ none ∧
      ¬ log.Has (.readArtifact (reviewVerdictArtifactPath task.id c.seq r.reviewRound)) none

section Judged

variable {cfg : OfficeConfig} {staffOk : List (String × String) → Prop} {w w' : Office} {log : OfficeLog} {e : OfficeCall}
  {taskId : String}

/-! ### Counting -/

/-- Rows with different rounds below a bound are at most that many. -/
theorem length_le_of_rounds {rows : List TeamStep} {n : ℕ} (hnodup : rows.Nodup)
    (hdistinct : ∀ r ∈ rows, ∀ r' ∈ rows, r.reviewRound = r'.reviewRound → r = r')
    (hbound : ∀ r ∈ rows, r.reviewRound < n) : rows.length ≤ n := by
  have hrounds : (rows.map fun r => r.reviewRound).Nodup :=
    hnodup.map_on fun r hr r' hr' h => hdistinct r hr r' hr' h
  have hsub : (rows.map fun r => r.reviewRound) ⊆ List.range n := by
    intro k hk
    obtain ⟨r, hr, rfl⟩ := List.mem_map.1 hk
    exact List.mem_range.2 (hbound r hr)
  simpa using (hrounds.subperm hsub).length_le

theorem childrenOf_nodup {steps : List TeamStep} (h : Ordered steps) (c : String) (t : StepType) :
    (childrenOf steps c t).Nodup :=
  ((List.Nodup.of_map _ h.unique).filter _)

/-- With one review a round, a step has at most five reviews and reworks. -/
theorem Booked.children_le {files : ArtifactPath → Option Artifact} {steps : List TeamStep} (h : Booked files taskId steps)
    (hordered : Ordered steps) {c : String}
    (hrounds : ∀ r ∈ childrenOf steps c .review, ∀ r' ∈ childrenOf steps c .review,
      r.reviewRound = r'.reviewRound → r = r') :
    (childrenOf steps c .review).length + (childrenOf steps c .rework).length ≤ 5 := by
  have hreviews : (childrenOf steps c .review).length ≤ 3 := by
    refine length_le_of_rounds (childrenOf_nodup hordered c _) hrounds fun r hr => ?_
    obtain ⟨hmem, htype, -⟩ := mem_childrenOf.1 hr
    exact Nat.lt_succ_of_le (h.reviewRound r hmem htype)
  have hreworks : (childrenOf steps c .rework).length ≤ 2 := by
    refine length_le_of_rounds (childrenOf_nodup hordered c _) (fun r hr r' hr' hround => ?_) fun r hr => ?_
    · refine hordered.eq_of_id (mem_childrenOf.1 hr).1 (mem_childrenOf.1 hr').1 ?_
      rw [h.reworkIds c r hr, h.reworkIds c r' hr', hround]
    · obtain ⟨hmem, htype, -⟩ := mem_childrenOf.1 hr
      exact h.reworkRound r hmem htype
  omega

/-- While all minted rows are stored, there are no more of them than rows. -/
theorem Ledger.card_minted_le {rt : Runtime} {l : Ledger} (h : l.Inv rt) {c : String}
    (hstored : ∀ i ∈ l.ever, i.taskId = taskId → i.systemInserted = true → ∃ row ∈ l.db.steps.rows, row.toStepIdent = i) :
    (l.minted taskId c).card ≤ (childrenOf (l.db.stepsForTask taskId) c .review).length +
      (childrenOf (l.db.stepsForTask taskId) c .rework).length := by
  have hsub : l.minted taskId c ⊆ ((childrenOf (l.db.stepsForTask taskId) c .review ++
      childrenOf (l.db.stepsForTask taskId) c .rework).map fun s => s.toStepIdent).toFinset := by
    intro i hi
    simp only [Ledger.minted, List.mem_toFinset, List.mem_filter, Bool.and_eq_true, decide_eq_true_eq] at hi
    obtain ⟨hever, ⟨htask, hminted⟩, hparent⟩ := hi
    obtain ⟨row, hrow, rfl⟩ := hstored i hever htask hminted
    have hmem := Db.mem_stepsForTask.2 ⟨hrow, htask⟩
    rw [List.mem_toFinset, List.mem_map]
    refine ⟨row, ?_, rfl⟩
    rw [List.mem_append, mem_childrenOf, mem_childrenOf]
    rcases (h.tables.minted row hrow hminted).1 with htype | htype
    · exact .inl ⟨hmem, htype, hparent⟩
    · exact .inr ⟨hmem, htype, hparent⟩
  refine (Finset.card_le_card hsub).trans ((List.toFinset_card_le _).trans ?_)
  rw [List.length_map, List.length_append]

/-! ### Calls that mint nothing -/

/-- The step of a review that is stored: it is there and started. -/
theorem Booked.startedContent {files : ArtifactPath → Option Artifact} {steps : List TeamStep}
    (h : Booked files taskId steps) (hordered : Ordered steps) {r c : TeamStep} (hr : r ∈ steps) (htype : r.stepType = .review)
    (hc : c ∈ steps) (hparent : r.parentStepId = some c.stepId) : c.status ≠ .pending := by
  obtain ⟨c', hc', hparent', -, hstarted, -⟩ := h.content r hr (by rw [htype]; decide)
  rw [hparent] at hparent'
  rw [hordered.eq_of_id hc hc' (Option.some.inj hparent')]
  exact hstarted

/-- A verdict stays, wherever the rows of the task go on. -/
theorem Office.HasVerdict.carry {r r' : TeamStep} (h : w.HasVerdict r) (hbooks : w.Books)
    (hr : r ∈ w.ledger.db.steps.rows) (htype : r.stepType = .review) (hident : r'.toStepIdent = r.toStepIdent)
    (hcarries : ∀ s ∈ w.ledger.db.stepsForTask r.taskId, s.status ≠ .pending →
      ∃ s' ∈ w'.ledger.db.stepsForTask r.taskId, s'.toStepIdent = s.toStepIdent)
    (hfiles : ∀ path, w.files path ≠ none → w'.files path ≠ none) : w'.HasVerdict r' := by
  obtain ⟨c, hc, hparent, hfile⟩ := h
  have hstarted := (hbooks r.taskId).startedContent (w.ledger.db.ordered r.taskId) (Db.mem_stepsForTask.2 ⟨hr, rfl⟩) htype
    hc hparent
  obtain ⟨c', hc', hcident⟩ := hcarries c hc hstarted
  unfold Office.HasVerdict
  rw [congrArg StepIdent.taskId hident, congrArg StepIdent.reviewRound hident, congrArg StepIdent.parentStepId hident]
  refine ⟨c', hc', ?_, ?_⟩
  · rw [hparent, congrArg (fun i : StepIdent => i.stepId) hcident]
  · rw [congrArg StepIdent.seq hcident]
    exact hfiles _ hfile

/-- What is minted for a step after an operation that mints none. -/
theorem Ledger.minted_run (hinv : w.Inv cfg staffOk) {o : StoreOp} (hpre : o.Pre cfg.rt w.ledger)
    (hmint : (OfficeCall.store o).mints = false) (c : String) :
    (o.run cfg.rt w.ledger).2.minted taskId c ⊆ w.ledger.minted taskId c := by
  intro i hi
  simp only [Ledger.minted, List.mem_toFinset, List.mem_filter, Bool.and_eq_true, decide_eq_true_eq] at hi ⊢
  refine ⟨?_, hi.2⟩
  rcases hinv.ledger.everAfter hpre hi.1 with hold | hconfirmed | ⟨_, _, _, rfl, -⟩
  · exact hold
  · rw [hi.2.1.2] at hconfirmed
    cases hconfirmed
  · cases hmint

/-- The rounds after an operation that mints none. -/
theorem Office.Judged.carryRounds (h : w.Judged) {steps' : List TeamStep} (hordered : Ordered steps')
    (hcarries : Carries (w.ledger.db.stepsForTask taskId) steps') (c : String) :
    ∀ r ∈ childrenOf steps' c .review, ∀ r' ∈ childrenOf steps' c .review, r.reviewRound = r'.reviewRound → r = r' := by
  intro r' hr' s' hs' hround
  obtain ⟨r, hr, hident, -⟩ := hcarries.child (by decide) hr'
  obtain ⟨s, hs, hsident, -⟩ := hcarries.child (by decide) hs'
  have hsame : r = s := by
    refine h.rounds taskId c r hr s hs ?_
    rw [congrArg StepIdent.reviewRound hident, congrArg StepIdent.reviewRound hsident, hround]
  refine hordered.eq_of_seq (mem_childrenOf.1 hr').1 (mem_childrenOf.1 hs').1 ?_
  rw [← congrArg StepIdent.seq hident, ← congrArg StepIdent.seq hsident, hsame]

/-- An operation that mints nothing, and records no review as done without its verdict. -/
theorem Office.Judged.store (h : w.Judged) (hbooks : w.Books) (hinv : w.Inv cfg staffOk)
    (hsha : Function.Injective cfg.rt.sha256) {o : StoreOp} (hpre : o.Pre cfg.rt w.ledger)
    (hmint : (OfficeCall.store o).mints = false)
    (hdone : ∀ taskId stepId x attemptId, o = .setStepStatus taskId stepId .done x attemptId →
      ∀ r ∈ w.ledger.db.steps.rows, Db.isAttempt taskId stepId attemptId r = true → r.stepType = .review →
        w.HasVerdict r) : ((OfficeCall.store o).handle cfg.rt w).2.Judged where
  verdicts := by
    intro r' hr' htype hfinished
    rcases hinv.ledger.rowOrigin hpre hr' with ⟨r, hr, hident, hmoves⟩ | ⟨hpending, -⟩
    · rw [congrArg StepIdent.stepType hident] at htype
      have hverdict : w.HasVerdict r := by
        rcases hmoves with ⟨hstatus, -⟩ | ⟨_, _, -, -, -, hrunning, -⟩ | ⟨t, i, status, x, a, rfl, hattempt, hstatus, -⟩
        · exact h.verdicts r hr htype (hstatus ▸ hfinished)
        · rw [hrunning] at hfinished
          cases hfinished
        · rw [hstatus] at hfinished
          subst hfinished
          exact hdone t i x a rfl r hr hattempt htype
      refine hverdict.carry hbooks hr htype hident (fun s hs hstarted => ?_) fun _ hfile => hfile
      obtain ⟨s', hs', hsident, -⟩ := (hinv.carries hsha hpre hmint).forth s hs hstarted
      exact ⟨s', hs', hsident⟩
    · rw [hpending] at hfinished
      cases hfinished
  rounds := fun _ c => h.carryRounds (Db.ordered _ _) (hinv.carries hsha hpre hmint) c
  bounded := fun _ c => (Finset.card_le_card (Ledger.minted_run hinv hpre hmint c)).trans (h.bounded _ c)

/-- More files keep the verdicts. -/
theorem Office.Judged.filed (h : w.Judged) (hledger : w'.ledger = w.ledger)
    (hfiles : ∀ path, w.files path ≠ none → w'.files path ≠ none) : w'.Judged := by
  obtain ⟨hverdicts, hrounds, hbounded⟩ := h
  refine ⟨fun r hr htype hdone => ?_, fun taskId c => ?_, fun taskId c => ?_⟩
  · rw [hledger] at hr
    obtain ⟨c, hc, hparent, hfile⟩ := hverdicts r hr htype hdone
    exact ⟨c, by rwa [hledger], hparent, hfiles _ hfile⟩
  · rw [hledger]
    exact hrounds taskId c
  · rw [hledger]
    exact hbounded taskId c

/-! ### Minted rows -/

/-- A review that is minted is of a later round than the reviews of its step that are stored. -/
theorem VerdictLink.later (h : VerdictLink log w) (hbook : BookLink log w) {k : ℕ} {d : StepDict}
    (hobeys : TickObeys k staffOk log (.store (.insertStep taskId d))) {n : ℕ}
    (hreview : (mintedRow taskId d n).stepType = .review) {c : String} (hc : (mintedRow taskId d n).parentStepId = some c) :
    ∀ r ∈ childrenOf (w.ledger.db.stepsForTask taskId) c .review, r.reviewRound < (mintedRow taskId d n).reviewRound := by
  obtain ⟨hcalm, task, step, hsnap, rfl, hstep, hmints⟩ := hobeys
  obtain ⟨hdone, hminting⟩ := hmints.cases
  have hcarries := hbook.carries hcalm.unminted task hsnap
  intro r' hr'
  obtain ⟨r, hr, hident, -⟩ := hcarries.child (by decide) hr'
  rw [← congrArg StepIdent.reviewRound hident]
  cases hminting with
  | first hwork hneeds hnone hpeer =>
      obtain rfl : step.stepId = c := Option.some.inj hc
      rw [List.getLast?_eq_none_iff.1 hnone] at hr
      cases hr
  | @again content htype hcontent hnewest hverdict =>
      -- the snapshot shows the review as done, so its verdict was there to be read
      obtain ⟨c', hc', hparent, -, hmissed⟩ := h task hsnap step hstep htype hdone
      obtain ⟨id, hid, hfound⟩ := Option.bind_eq_some_iff.1 hcontent
      obtain ⟨hmem, rfl⟩ := step?_eq_some hfound
      rw [hid] at hparent
      rw [(hbook.ordered task hsnap).eq_of_id hmem hc' (Option.some.inj hparent)] at hverdict
      exact absurd hverdict hmissed
  | rework =>
      cases hreview
  | @next content reviewer htype hcontent hnone hpeer =>
      obtain rfl : content.stepId = c := Option.some.inj hc
      obtain ⟨newest, hnewest⟩ : ∃ newest, (childrenOf task.steps content.stepId .review).getLast? = some newest :=
        ⟨_, List.getLast?_eq_some_getLast (List.ne_nil_of_mem hr)⟩
      have hle := ((hbook.booked task hsnap).upTo (hbook.ordered task hsnap) hnewest hr).2.1
      simp only [reviewedInRound, reviewChild, hnewest, Option.any_some, decide_eq_false_iff_not, not_le] at hnone
      exact lt_of_le_of_lt hle hnone

/-- The rows of the other tasks, and what was minted for them, stay when a row is minted. -/
theorem Ledger.minted_other {d : StepDict} {t c : String} (hother : t ≠ taskId) (hinv : w.Inv cfg staffOk)
    (hpre : (StoreOp.insertStep taskId d).Pre cfg.rt w.ledger) :
    ((StoreOp.insertStep taskId d).run cfg.rt w.ledger).2.minted t c ⊆ w.ledger.minted t c := by
  intro i hi
  simp only [Ledger.minted, List.mem_toFinset, List.mem_filter, Bool.and_eq_true, decide_eq_true_eq] at hi ⊢
  refine ⟨?_, hi.2⟩
  rcases hinv.ledger.everAfter hpre hi.1 with hold | hconfirmed | ⟨_, _, _, ho, hident⟩
  · exact hold
  · rw [hi.2.1.2] at hconfirmed
    cases hconfirmed
  · cases ho
    rw [hident] at hi
    exact absurd hi.2.1.1.symm hother

/-- A minted row keeps one review a round, when it is of a later round than the others. -/
theorem Office.Judged.mint (h : w.Judged) (hbooks : w.Books) (hinv : w.Inv cfg staffOk)
    (hsha : Function.Injective cfg.rt.sha256) {d : StepDict} (hpre : (StoreOp.insertStep taskId d).Pre cfg.rt w.ledger)
    (hbooks' : ((OfficeCall.store (.insertStep taskId d)).handle cfg.rt w).2.Books)
    (hstored : ∀ i ∈ w.ledger.ever, i.taskId = taskId → i.systemInserted = true →
      ∃ row ∈ w.ledger.db.steps.rows, row.toStepIdent = i)
    (hlater : ∀ n c, (mintedRow taskId d n).stepType = .review → (mintedRow taskId d n).parentStepId = some c →
      ∀ r ∈ childrenOf (w.ledger.db.stepsForTask taskId) c .review, r.reviewRound < (mintedRow taskId d n).reviewRound) :
    ((OfficeCall.store (.insertStep taskId d)).handle cfg.rt w).2.Judged := by
  have hinv' : ((StoreOp.insertStep taskId d).run cfg.rt w.ledger).2.Inv cfg.rt := hinv.ledger.op hsha hpre
  have hafter : ((OfficeCall.store (.insertStep taskId d)).handle cfg.rt w).2 =
      { w with ledger := ((StoreOp.insertStep taskId d).run cfg.rt w.ledger).2 } := rfl
  cases hinsert : w.ledger.db.insertStep taskId d with
  | error msg =>
      have hsame : ((StoreOp.insertStep taskId d).run cfg.rt w.ledger).2 = w.ledger := by
        simp only [StoreOp.run, hinsert, StoreOp.checked]
      rw [hafter, hsame]
      exact h
  | ok db =>
      have hledger : ((StoreOp.insertStep taskId d).run cfg.rt w.ledger).2 = w.ledger.commit db := by
        simp only [StoreOp.run, hinsert, StoreOp.checked]
      have hrounds : ∀ t c, ∀ r ∈ childrenOf (db.stepsForTask t) c .review, ∀ r' ∈ childrenOf (db.stepsForTask t) c .review,
          r.reviewRound = r'.reviewRound → r = r' := by
        intro t c r hr r' hr' hround
        rw [Db.stepsForTask_insertStep hinsert] at hr hr'
        split at hr
        · rename_i ht
          subst ht
          rw [if_pos rfl] at hr'
          rcases mem_childrenOf_append hr with hold | ⟨rfl, htype, hc⟩ <;>
            rcases mem_childrenOf_append hr' with hold' | ⟨rfl, htype', hc'⟩
          · exact h.rounds taskId c r hold r' hold' hround
          · exact absurd hround (hlater _ c htype' hc' r hold).ne
          · exact absurd hround (hlater _ c htype hc r' hold').ne'
          · rfl
        · rename_i ht
          rw [if_neg ht, List.append_nil] at hr'
          rw [List.append_nil] at hr
          exact h.rounds t c r hr r' hr' hround
      rw [hledger] at hinv' hafter
      rw [hafter] at hbooks' ⊢
      refine ⟨fun r' hr' htype hdone => ?_, hrounds, fun t c => ?_⟩
      · have hr : r' ∈ w.ledger.db.steps.rows := by
          have hmem : r' ∈ db.steps.rows := hr'
          rw [(Db.insertStep_ok hinsert).1, List.mem_append, List.mem_singleton] at hmem
          rcases hmem with hmem | rfl
          · exact hmem
          · cases hdone
        refine (h.verdicts r' hr htype hdone).carry hbooks hr htype rfl (fun s hs _ => ⟨s, ?_, rfl⟩) fun _ hfile => hfile
        show s ∈ db.stepsForTask r'.taskId
        rw [Db.stepsForTask_insertStep hinsert]
        exact List.mem_append_left _ hs
      · by_cases ht : t = taskId
        · subst ht
          refine (Ledger.card_minted_le hinv' fun i hi htask hminted => ?_).trans
            ((hbooks' t).children_le (Db.ordered _ _) (hrounds t c))
          show ∃ row ∈ db.steps.rows, row.toStepIdent = i
          rcases Ledger.mem_ever_commit hi with hold | ⟨row, hrow, -, hident⟩
          · obtain ⟨row, hrow, hident⟩ := hstored i hold htask hminted
            rw [(Db.insertStep_ok hinsert).1]
            exact ⟨row, List.mem_append_left _ hrow, hident⟩
          · exact ⟨row, hrow, hident⟩
        · have hsub := Ledger.minted_other (c := c) ht hinv hpre
          rw [hledger] at hsub
          exact (Finset.card_le_card hsub).trans (h.bounded t c)

/-! ### What the ticker reads -/

theorem VerdictLink.kept (h : VerdictLink log w) (hfiles : ∀ path, w.files path ≠ none → w'.files path ≠ none) :
    VerdictLink log w' := by
  intro task hsnap r hr htype hdone
  obtain ⟨c, hc, hparent, hfile, hmissed⟩ := h task hsnap r hr htype hdone
  exact ⟨c, hc, hparent, hfiles _ hfile, hmissed⟩

/-- The ticker's own call keeps what it will find. -/
theorem VerdictLink.asked (h : VerdictLink log w) (hjudged : w.Judged) {k : ℕ} (hobeys : TickObeys k staffOk log e) :
    VerdictLink (log ++ [⟨e, (e.handle cfg.rt w).1⟩]) (e.handle cfg.rt w).2 := by
  intro task hsnap r hr htype hdone
  rcases hobeys.snap hsnap with hold | ⟨rfl, rfl, hsteps⟩
  · obtain ⟨c, hc, hparent, hfile, hmissed⟩ := h task hold r hr htype hdone
    refine ⟨c, hc, hparent, files_kept e w _ hfile, fun hread => ?_⟩
    rcases hread.of_append with hread | ⟨rfl, hnone⟩
    · exact hmissed hread
    · exact hfile hnone
  · rw [hsteps] at hr ⊢
    obtain ⟨hrow, htask⟩ := Db.mem_stepsForTask.1 hr
    obtain ⟨c, hc, hparent, hfile⟩ := hjudged.verdicts r hrow htype hdone
    rw [htask] at hc hfile
    refine ⟨c, hc, hparent, hfile, fun hread => ?_⟩
    rcases hread.of_append with hread | ⟨hfalse, -⟩
    · cases hread
    · cases hfalse

/-- A change from outside keeps one review a round. -/
theorem Office.Changes.judged (h : Office.Changes cfg staffOk w w') (hinv : w.Inv cfg staffOk) (hbooks : w.Books)
    (hsha : Function.Injective cfg.rt.sha256) (hjudged : w.Judged) :
    w'.Judged ∧ ∀ log, VerdictLink log w → VerdictLink log w' := by
  cases h with
  | env env hstaff =>
      exact ⟨⟨hjudged.verdicts, hjudged.rounds, hjudged.bounded⟩, fun log hlink => hlink⟩
  | time now =>
      exact ⟨⟨hjudged.verdicts, hjudged.rounds, hjudged.bounded⟩, fun log hlink => hlink⟩
  | client o hclient hpre =>
      refine ⟨hjudged.store hbooks hinv hsha hpre ?_ ?_, fun log hlink => hlink⟩
      · cases o with
        | insertStep =>
            cases hclient
        | _ =>
            rfl
      · rintro taskId stepId x attemptId rfl
        cases hclient

/-! ### The layer -/

variable (cfg staffOk)

/-- One review a round, as a layer on top of the book. -/
def verdictLayer (hsha : Function.Injective cfg.rt.sha256) :
    Layer (officeSpec cfg hsha staffOk VerdictFirst) fun pool =>
      (officeSpec cfg hsha staffOk VerdictFirst).PoolOk pool ∧ (bookLayer cfg staffOk hsha VerdictFirst).Ok pool where
  Inv := Office.Judged
  Link := fun p log w => p = .ticker → VerdictLink log w
  own := by
    intro pool q e turn
    obtain ⟨hok, hbook⟩ := turn.known
    obtain ⟨hinv, -, hobeys⟩ := hok.at_next turn.mem turn.next
    have hpre := pre_next hsha hok turn.mem turn.next
    have hbooks' := ((bookLayer cfg staffOk hsha VerdictFirst).own
      ⟨hok, turn.mem, turn.next, turn.allowed, hbook.inv, hbook.links q turn.mem⟩).1
    have hallowed := turn.allowed
    have hlinked := hbook.links q turn.mem
    obtain ⟨party, prog, log⟩ := q
    -- a call other than the minting of a row
    have hcalm : e.mints = false → (e.handle cfg.rt pool.world).2.Judged := by
      intro hmint
      by_cases hstore : ∃ o, e = .store o
      · obtain ⟨o, rfl⟩ := hstore
        refine turn.inv.store hbook.inv hinv hsha (hpre o rfl) hmint ?_
        rintro taskId stepId x attemptId rfl
        exact hallowed.1 (taskId, stepId, attemptId) rfl
      · push Not at hstore
        exact turn.inv.filed (ledger_handle hstore) (files_kept e pool.world)
    cases party with
    | worker s =>
        have hwork : WorkerObeys s log e := hobeys
        refine ⟨hcalm ?_, nofun⟩
        unfold OfficeCall.mints
        split
        · cases hwork
        · rfl
    | ticker =>
        have htick : TickObeys cfg.concurrency staffOk log e := hobeys
        have hlink : VerdictLink log pool.world := turn.link rfl
        refine ⟨?_, fun _ => hlink.asked turn.inv htick⟩
        by_cases hmint : ∃ taskId d, e = .store (.insertStep taskId d)
        · obtain ⟨taskId, d, rfl⟩ := hmint
          refine turn.inv.mint hbook.inv hinv hsha (hpre _ rfl) hbooks' (hallowed.2 taskId rfl) ?_
          exact fun n c hreview hc => hlink.later (hlinked rfl) htick hreview hc
        · refine hcalm ?_
          unfold OfficeCall.mints
          split
          · rename_i taskId d
            exact absurd ⟨taskId, d, rfl⟩ hmint
          · rfl
  others := by
    intro pool q q' e turn hapart _ hlink' hticker
    exact (hlink' hticker).kept (files_kept e pool.world)
  outside := by
    rintro w w' procs ⟨hok, hbook⟩ hjudged hchange
    obtain ⟨hjudged', hlinks⟩ := Office.Changes.judged hchange hok.inv hbook.inv hsha hjudged
    exact ⟨hjudged', fun q _ hlink hticker => hlinks _ (hlink hticker)⟩
  starting := by
    rintro pool p prog - - - - task ⟨tasks, hread, -⟩
    cases hread
  forking := by
    intro pool q e p' prog _ hforks hticker
    cases e with
    | spawnStep s =>
        cases hforks
        cases hticker
    | _ =>
        cases hforks

variable {cfg staffOk}

/-- One review a round in every state of every run in which verdicts come first. -/
theorem verdictOk (hsha : Function.Injective cfg.rt.sha256) {pool : OfficePool}
    (h : (officeSystem cfg staffOk VerdictFirst).Reach (officeInit staffOk) pool) :
    (verdictLayer cfg staffOk hsha).Ok pool := by
  refine Layer.ok_of_reach (fun _ => officeOk hsha) (fun _ hreach => ⟨officeOk hsha hreach, bookOk hsha hreach⟩) ?_ h
  rintro - ⟨now, env, -, rfl⟩
  refine ⟨?_, by simp⟩
  constructor
  · intro r hr
    cases hr
  · intro taskId c r hr
    cases hr
  · intro taskId c
    exact Nat.zero_le _

/-- In every run in which each finished review has left its verdict, and no minted row has been taken away when
the next one is minted, at most five rows are ever minted for a step: three reviews and two reworks. -/
theorem mints_bounded (hsha : Function.Injective cfg.rt.sha256) {pool : OfficePool}
    (hreach : (officeSystem cfg staffOk VerdictFirst).Reach (officeInit staffOk) pool) (taskId contentStepId : String) :
    (pool.world.ledger.minted taskId contentStepId).card ≤ 5 :=
  (verdictOk hsha hreach).inv.bounded taskId contentStepId

end Judged

/-! ### A draft that is rejected every time -/

/-- The draft is rejected in all three rounds, and each review leaves its verdict. -/
def rejectedPool : OfficePool :=
  execAll sampleConfig twoOnDuty VerdictFirst (fun pool p e => decide (VerdictFirst pool p e))
    (wholeTurn ++ wholeTick ++ wholeTurn ++ wholeTick ++ wholeTurn ++ wholeTick ++ wholeTurn ++ wholeTick ++ wholeTurn ++
      wholeTick ++ wholeTurn)
    ⟨.holding (sampleEnv "No sources") (.confirmed sampleConfig.rt reviewedPlan), []⟩

theorem rejectedPool_reach :
    (officeSystem sampleConfig twoOnDuty VerdictFirst).Reach (officeInit twoOnDuty) rejectedPool :=
  reach_exec (fun _ _ _ h => of_decide_eq_true h) _ (reach_confirmed reviewedPlan rfl)

/-- The bound is attained. -/
theorem mints_bounded_rejected : (rejectedPool.world.ledger.minted "t" "s1").card = 5 ∧
    (rejectedPool.world.ledger.minted "t" "s1").card ≤ 5 := by
  refine ⟨?_, mints_bounded Function.injective_id rejectedPool_reach "t" "s1"⟩
  decide +kernel

end ProjectManager
