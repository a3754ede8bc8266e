import ProjectManager.Lib.Layer
import ProjectManager.Office.Leases

/-!
# The file of a finished step

The row of a step is guarded by the lease, its file is not: a worker that has lost the lease can still
write it (`zombie_overwrites`).  In every run where a step's file is written only under the step's own
lease, and finished steps are not claimed again, the file of a finished step holds the version of the
attempt that finished it, from then on (`artifact_of_attempt`).
-/

namespace ProjectManager

open Process

/-- A worker writes the file of a step only while the step carries its lease. -/
def WritesLeased (pool : OfficePool) : OfficeParty → OfficeCall → Prop
  | .worker s, .writeArtifact path _ => ∀ row ∈ pool.world.ledger.db.steps.rows,
      path = stepArtifactPath row.taskId row.seq → row.attemptId = some s.attemptId
  | _, _ => True

instance (pool : OfficePool) (p : OfficeParty) (e : OfficeCall) : Decidable (WritesLeased pool p e) :=
  match p, e with
  | .worker s, .writeArtifact path _ => inferInstanceAs (Decidable (∀ row ∈ pool.world.ledger.db.steps.rows,
      path = stepArtifactPath row.taskId row.seq → row.attemptId = some s.attemptId))
  | .worker _, .store _ => isTrue trivial
  | .worker _, .now => isTrue trivial
  | .worker _, .readArtifact _ => isTrue trivial
  | .worker _, .getRetries _ => isTrue trivial
  | .worker _, .setRetries .. => isTrue trivial
  | .worker _, .spawnStep _ => isTrue trivial
  | .worker _, .ask _ => isTrue trivial
  | .worker _, .note _ => isTrue trivial
  | .ticker, _ => isTrue trivial

/-- Snapshots are current, and files are written under the lease of their step. -/
def LeaseCurrent (pool : OfficePool) (p : OfficeParty) (e : OfficeCall) : Prop :=
  SnapshotCurrent pool p e ∧ WritesLeased pool p e

instance (pool : OfficePool) (p : OfficeParty) (e : OfficeCall) : Decidable (LeaseCurrent pool p e) :=
  inferInstanceAs (Decidable (SnapshotCurrent pool p e ∧ WritesLeased pool p e))

/-- The file of the step holds this version. -/
def Office.Holds (w : Office) (taskId : String) (n : ℕ) (a : AttemptId) : Prop :=
  ∃ f, w.files (stepArtifactPath taskId n) = some f ∧ f.version = some a

/-- The file of every finished step is the one of the attempt that finished it. -/
def Office.Delivered (w : Office) : Prop :=
  ∀ row ∈ w.ledger.db.steps.rows, row.status = .done → row.stepType ≠ .review →
    ∃ a, row.attemptId = some a ∧ w.Holds row.taskId row.seq a

/-- What a worker's log says of the row that carries its lease. -/
structure RowLink (s : Spawn) (log : OfficeLog) (w : Office) : Prop where
  own : ∀ row ∈ w.ledger.db.steps.rows, row.attemptId = some s.attemptId → row.taskId = s.taskId ∧ row.stepId = s.stepId
  same : ∀ step, log.Has (.store (.getStep s.taskId s.stepId)) (some step) → ∀ row ∈ w.ledger.db.steps.rows,
    row.attemptId = some s.attemptId → row.toStepIdent = step.toStepIdent
  undone : Undone log → ∀ row ∈ w.ledger.db.steps.rows, row.attemptId = some s.attemptId → row.status ≠ .done
  stands : ∀ n, Standing s log n → ∀ row ∈ w.ledger.db.steps.rows, row.attemptId = some s.attemptId → row.seq = n →
    w.Holds s.taskId n s.attemptId

/-- What the ticker's log says of the row that it has just claimed. -/
def ClaimLink (log : OfficeLog) (w : Office) : Prop :=
  ∀ before taskId stepId a, log = before ++ [⟨.store (.reserveStep taskId stepId), .ok a⟩] →
    ∀ row ∈ w.ledger.db.steps.rows, row.attemptId = some a → row.taskId = taskId ∧ row.stepId = stepId

/-- What the log of a process says of the rows that carry leases. -/
def HolderLink : OfficeParty → OfficeLog → Office → Prop
  | .ticker => ClaimLink
  | .worker s => RowLink s

section Artifacts

variable {cfg : OfficeConfig} {staffOk : List (String × String) → Prop} {w w' : Office} {log : OfficeLog} {e : OfficeCall}
  {p : OfficeParty} {s : Spawn}

/-! ### Leases after a call -/

/-- The lease of a row after a call: the same row carried it before, or the call has just drawn it. -/
theorem Office.Inv.leaseOrigin (h : w.Inv cfg staffOk) (hpre : ∀ o, e = .store o → o.Pre cfg.rt w.ledger) {row' : TeamStep}
    (hrow' : row' ∈ (e.handle cfg.rt w).2.ledger.db.steps.rows) {a : AttemptId} (ha : row'.attemptId = some a) :
    (∃ row ∈ w.ledger.db.steps.rows, row.toStepIdent = row'.toStepIdent ∧ row.attemptId = some a) ∨
      e = .store (.reserveStep row'.taskId row'.stepId) ∧ a = w.ledger.nextAttempt := by
  by_cases hstore : ∃ o, e = .store o
  · obtain ⟨o, rfl⟩ := hstore
    rcases h.ledger.leaseOrigin (hpre o rfl) hrow' ha with hold | ⟨stepId, rfl, rfl, hnext⟩
    · exact .inl hold
    · exact .inr ⟨rfl, hnext⟩
  · push Not at hstore
    rw [ledger_handle hstore] at hrow'
    exact .inl ⟨row', hrow', rfl, ha⟩

/-- A lease that was drawn before the call stays with its row. -/
theorem Office.Inv.leaseKept (h : w.Inv cfg staffOk) (hpre : ∀ o, e = .store o → o.Pre cfg.rt w.ledger) {row' : TeamStep}
    (hrow' : row' ∈ (e.handle cfg.rt w).2.ledger.db.steps.rows) {a : AttemptId} (ha : row'.attemptId = some a)
    (hdrawn : a < w.ledger.nextAttempt) :
    ∃ row ∈ w.ledger.db.steps.rows, row.toStepIdent = row'.toStepIdent ∧ row.attemptId = some a := by
  rcases h.leaseOrigin hpre hrow' ha with hold | ⟨-, hnext⟩
  · exact hold
  · exact absurd hnext hdrawn.ne

/-! ### The links are kept -/

/-- A change that keeps leases with their rows, finishes nothing under the lease and spares the file. -/
theorem RowLink.kept (h : RowLink s log w)
    (hleases : ∀ row' ∈ w'.ledger.db.steps.rows, row'.attemptId = some s.attemptId →
      ∃ row ∈ w.ledger.db.steps.rows, row.toStepIdent = row'.toStepIdent ∧ row.attemptId = some s.attemptId)
    (hdone : ∀ row' ∈ w'.ledger.db.steps.rows, row'.status = .done → row'.attemptId = some s.attemptId →
      ∃ row ∈ w.ledger.db.steps.rows, row.attemptId = some s.attemptId ∧ row.status = .done)
    (hfiles : ∀ row ∈ w.ledger.db.steps.rows, row.attemptId = some s.attemptId → row.taskId = s.taskId →
      w'.files (stepArtifactPath s.taskId row.seq) = w.files (stepArtifactPath s.taskId row.seq)) :
    RowLink s log w' where
  own := by
    intro row' hrow' ha
    obtain ⟨row, hrow, hident, ha'⟩ := hleases row' hrow' ha
    rw [← congrArg StepIdent.taskId hident, ← congrArg (fun i : StepIdent => i.stepId) hident]
    exact h.own row hrow ha'
  same := by
    intro step hread row' hrow' ha
    obtain ⟨row, hrow, hident, ha'⟩ := hleases row' hrow' ha
    rw [← hident]
    exact h.same step hread row hrow ha'
  undone := by
    intro hundone row' hrow' ha hstatus
    obtain ⟨row, hrow, ha', hstatus'⟩ := hdone row' hrow' hstatus ha
    exact h.undone hundone row hrow ha' hstatus'
  stands := by
    intro n hstands row' hrow' ha hn
    obtain ⟨row, hrow, hident, ha'⟩ := hleases row' hrow' ha
    have hseq : row.seq = n := by rw [congrArg StepIdent.seq hident, hn]
    obtain ⟨f, hfile, hversion⟩ := h.stands n hstands row hrow ha' hseq
    refine ⟨f, ?_, hversion⟩
    rw [← hseq] at hfile ⊢
    rw [hfiles row hrow ha' (h.own row hrow ha').1, hfile]

/-- What stands after a call stood before it, or has just been written. -/
theorem Standing.of_append {n : ℕ} {r : e.Resp} (h : Standing s (log ++ [⟨e, r⟩]) n) :
    Standing s log n ∧ e.quiet = true ∨
      ∃ a, e = .writeArtifact (stepArtifactPath s.taskId n) a ∧ a.version = some s.attemptId := by
  obtain ⟨before, a, after, hlog, hversion, hquiet⟩ := h
  rcases List.eq_nil_or_concat after with rfl | ⟨after, x, rfl⟩
  · obtain ⟨-, hlast⟩ := List.append_inj' hlog rfl
    simp only [List.cons.injEq, and_true, Sigma.mk.injEq] at hlast
    exact .inr ⟨a, hlast.1, hversion⟩
  · rw [List.concat_eq_append, ← List.cons_append, ← List.append_assoc] at hlog
    obtain ⟨hfront, hlast⟩ := List.append_inj' hlog rfl
    rw [List.cons.injEq] at hlast
    refine .inl ⟨⟨before, a, after, hfront, hversion, fun y hy => hquiet y (by simp [hy])⟩, ?_⟩
    rw [← hlast.1] at hquiet
    exact hquiet ⟨e, r⟩ (by simp)

theorem files_of_quiet (h : e.quiet = true) : (e.handle cfg.rt w).2.files = w.files := by
  cases e with
  | writeArtifact =>
      cases h
  | _ =>
      rfl

/-- The worker's own call keeps its link. -/
theorem RowLink.asked (h : RowLink s log w) (hinv : w.Inv cfg staffOk) (hspawned : s ∈ w.spawned)
    (hpre : ∀ o, e = .store o → o.Pre cfg.rt w.ledger) :
    RowLink s (log ++ [⟨e, (e.handle cfg.rt w).1⟩]) (e.handle cfg.rt w).2 := by
  have hleases : ∀ row' ∈ (e.handle cfg.rt w).2.ledger.db.steps.rows, row'.attemptId = some s.attemptId →
      ∃ row ∈ w.ledger.db.steps.rows, row.toStepIdent = row'.toStepIdent ∧ row.attemptId = some s.attemptId :=
    fun row' hrow' ha => hinv.leaseKept hpre hrow' ha (hinv.drawn s hspawned)
  constructor
  case own =>
    intro row' hrow' ha
    obtain ⟨row, hrow, hident, ha'⟩ := hleases row' hrow' ha
    rw [← congrArg StepIdent.taskId hident, ← congrArg (fun i : StepIdent => i.stepId) hident]
    exact h.own row hrow ha'
  case same =>
    intro step hread row' hrow' ha
    obtain ⟨row, hrow, hident, ha'⟩ := hleases row' hrow' ha
    rw [← hident]
    rcases hread.of_append with hread | ⟨rfl, hstep⟩
    · exact h.same step hread row hrow ha'
    · obtain ⟨hstored, htask, hid⟩ := Db.getStep_eq_some.1 hstep
      obtain ⟨htask', hid'⟩ := h.own row hrow ha'
      rw [Db.step_unique hrow hstored (htask'.trans htask.symm) (hid'.trans hid.symm)]
  case undone =>
    intro hundone row' hrow' ha hstatus
    have hbefore : Undone log := fun taskId stepId x attemptId r hr =>
      hundone taskId stepId x attemptId r (hr.mono (List.prefix_append _ _))
    rcases hinv.doneOrigin hpre hrow' hstatus ha with ⟨row, hrow, ha', hstatus'⟩ | ⟨taskId, stepId, x, attemptId, rfl, -⟩
    · exact h.undone hbefore row hrow ha' hstatus'
    · exact hundone taskId stepId x attemptId _ (Log.has_last _ _ _)
  case stands =>
    intro n hstands row' hrow' ha hn
    obtain ⟨row, hrow, hident, ha'⟩ := hleases row' hrow' ha
    rcases hstands.of_append with ⟨hstands, hquiet⟩ | ⟨a, rfl, hversion⟩
    · unfold Office.Holds
      rw [files_of_quiet hquiet]
      exact h.stands n hstands row hrow ha' (by rw [congrArg StepIdent.seq hident, hn])
    · exact ⟨a, by simp [OfficeCall.handle], hversion⟩

theorem ClaimLink.kept (h : ClaimLink log w) (hlink : TickerLink log w)
    (hleases : ∀ row' ∈ w'.ledger.db.steps.rows, ∀ a, row'.attemptId = some a → a < w.ledger.nextAttempt →
      ∃ row ∈ w.ledger.db.steps.rows, row.toStepIdent = row'.toStepIdent ∧ row.attemptId = some a) :
    ClaimLink log w' := by
  intro before taskId stepId a hlog row' hrow' ha
  obtain ⟨row, hrow, hident, ha'⟩ := hleases row' hrow' a ha (hlink.leased before taskId stepId a hlog).1
  rw [← congrArg StepIdent.taskId hident, ← congrArg (fun i : StepIdent => i.stepId) hident]
  exact h before taskId stepId a hlog row hrow ha'

/-- The row that the ticker has just claimed is the only one with the lease. -/
theorem ClaimLink.asked (hinv : w.Inv cfg staffOk) (hpre : ∀ o, e = .store o → o.Pre cfg.rt w.ledger) :
    ClaimLink (log ++ [⟨e, (e.handle cfg.rt w).1⟩]) (e.handle cfg.rt w).2 := by
  intro before taskId stepId a hlog row' hrow' ha
  obtain ⟨-, hlast⟩ := List.append_inj' hlog rfl
  simp only [List.cons.injEq, and_true, Sigma.mk.injEq] at hlast
  obtain ⟨rfl, hanswer⟩ := hlast
  obtain ⟨rfl, -⟩ := reserveStep_ok (eq_of_heq hanswer)
  rcases hinv.leaseOrigin hpre hrow' ha with ⟨row, hrow, -, ha'⟩ | ⟨hcall, -⟩
  · exact absurd rfl (hinv.ledger.tables.issued row hrow _ ha').ne
  · cases hcall
    exact ⟨rfl, rfl⟩

/-- A change outside the rows and the files. -/
theorem HolderLink.undisturbed (h : HolderLink p log w) (hdb : w'.ledger.db = w.ledger.db) (hfiles : w'.files = w.files) :
    HolderLink p log w' := by
  cases p with
  | ticker =>
      intro before taskId stepId a hlog row hrow ha
      rw [hdb] at hrow
      exact h before taskId stepId a hlog row hrow ha
  | worker s =>
      refine RowLink.kept h (fun row hrow ha => ⟨row, ?_, rfl, ha⟩) (fun row hrow hdone ha => ⟨row, ?_, ha, hdone⟩)
        fun _ _ _ _ => by rw [hfiles]
      · rwa [hdb] at hrow
      · rwa [hdb] at hrow

/-! ### The files of finished steps -/

/-- A call of a worker keeps the files of finished steps. -/
theorem Office.Delivered.worker (h : w.Delivered) (hinv : w.Inv cfg staffOk) (hlink : RowLink s log w)
    (hobeys : WorkerObeys s log e) (hpre : ∀ o, e = .store o → o.Pre cfg.rt w.ledger)
    (hleased : ∀ path f, e = .writeArtifact path f → ∀ row ∈ w.ledger.db.steps.rows,
      path = stepArtifactPath row.taskId row.seq → row.attemptId = some s.attemptId) :
    (e.handle cfg.rt w).2.Delivered := by
  intro row' hrow' hdone htype
  cases e with
  | store o =>
      rcases hinv.ledger.rowOrigin (hpre o rfl) hrow' with ⟨row, hrow, hident, hmoves⟩ | ⟨hpending, -⟩
      · rw [congrArg StepIdent.stepType hident] at htype
        rw [congrArg StepIdent.taskId hident, congrArg StepIdent.seq hident]
        rcases hmoves with ⟨hstatus, hattempt⟩ | ⟨_, _, -, -, -, hrunning, -⟩ |
          ⟨taskId, stepId, status, x, attemptId, rfl, hwrites, hstatus, hattempt⟩
        · rw [hattempt]
          exact h row hrow (hstatus ▸ hdone) htype
        · rw [hdone] at hrunning
          cases hrunning
        · obtain ⟨rfl, rfl, rfl, hsettles⟩ := hobeys
          simp only [Db.isAttempt, Db.isStep, Bool.and_eq_true, decide_eq_true_eq] at hwrites
          have ha : row.attemptId = some s.attemptId := by simpa using hwrites.2
          obtain ⟨step, hread, hstands⟩ := hsettles.finished (hstatus ▸ hdone)
          have hsame := hlink.same step hread row hrow ha
          have hstands := hstands (by rw [← congrArg StepIdent.stepType hsame]; exact htype)
          refine ⟨s.attemptId, hattempt.trans ha, ?_⟩
          rw [hwrites.1.1]
          exact hlink.stands row.seq (by rw [congrArg StepIdent.seq hsame]; exact hstands) row hrow ha rfl
      · rw [hdone] at hpending
        cases hpending
  | writeArtifact path f =>
      obtain ⟨a, ha, f', hfile, hversion⟩ := h row' hrow' hdone htype
      refine ⟨a, ha, f', ?_, hversion⟩
      have hother : stepArtifactPath row'.taskId row'.seq ≠ path := by
        intro hpath
        have hown := hleased path f rfl row' hrow' hpath.symm
        exact hlink.undone hobeys.2 row' hrow' hown hdone
      simpa [OfficeCall.handle, Function.update_of_ne hother] using hfile
  | _ =>
      exact h row' hrow' hdone htype

/-- An operation that finishes nothing keeps the files of finished steps. -/
theorem Office.Delivered.store (h : w.Delivered) (hinv : w.Inv cfg staffOk) {o : StoreOp} (hpre : o.Pre cfg.rt w.ledger)
    (hunfinished : ∀ taskId stepId status x attemptId, o = .setStepStatus taskId stepId status x attemptId →
      status ≠ .done) : ((OfficeCall.store o).handle cfg.rt w).2.Delivered := by
  intro row' hrow' hdone htype
  rcases hinv.ledger.rowOrigin hpre hrow' with ⟨row, hrow, hident, hmoves⟩ | ⟨hpending, -⟩
  · rw [congrArg StepIdent.stepType hident] at htype
    rw [congrArg StepIdent.taskId hident, congrArg StepIdent.seq hident]
    rcases hmoves with ⟨hstatus, hattempt⟩ | ⟨_, _, -, -, -, hrunning, -⟩ |
      ⟨taskId, stepId, status, x, attemptId, ho, -, hstatus, -⟩
    · rw [hattempt]
      exact h row hrow (hstatus ▸ hdone) htype
    · rw [hdone] at hrunning
      cases hrunning
    · exact absurd (hstatus ▸ hdone) (hunfinished taskId stepId status x attemptId ho)
  · rw [hdone] at hpending
    cases hpending

/-- A call of the ticker keeps the files of finished steps. -/
theorem Office.Delivered.ticker (h : w.Delivered) (hinv : w.Inv cfg staffOk)
    (hobeys : TickObeys cfg.concurrency staffOk log e) (hpre : ∀ o, e = .store o → o.Pre cfg.rt w.ledger) :
    (e.handle cfg.rt w).2.Delivered := by
  cases e with
  | store o =>
      refine h.store hinv (hpre o rfl) ?_
      rintro taskId stepId status x attemptId rfl rfl
      obtain ⟨hstatus | hstatus, -⟩ := hobeys <;> cases hstatus
  | writeArtifact path f =>
      cases hobeys
  | _ =>
      exact h

/-! ### The layer -/

variable (cfg staffOk)

/-- The files of finished steps, on top of the office's invariant. -/
def artifactLayer (hsha : Function.Injective cfg.rt.sha256) (allows : OfficePool → OfficeParty → OfficeCall → Prop)
    (hallows : ∀ pool p e, allows pool p e → WritesLeased pool p e) :
    Layer (officeSpec cfg hsha staffOk allows) (officeSpec cfg hsha staffOk allows).PoolOk where
  Inv := Office.Delivered
  Link := HolderLink
  own := by
    intro pool q e turn
    obtain ⟨hinv, hlink, hobeys⟩ := turn.known.at_next turn.mem turn.next
    have hpre := pre_next hsha turn.known turn.mem turn.next
    have hallowed := hallows _ _ _ turn.allowed
    have hheld := turn.link
    obtain ⟨party, prog, log⟩ := q
    cases party with
    | ticker =>
        exact ⟨Office.Delivered.ticker turn.inv hinv hobeys hpre, ClaimLink.asked hinv hpre⟩
    | worker s =>
        refine ⟨Office.Delivered.worker turn.inv hinv hheld hobeys hpre ?_,
          RowLink.asked hheld hinv (WorkerLink.spawned hlink) hpre⟩
        rintro path f rfl
        exact hallowed
  others := by
    intro pool q q' e turn hapart hq' hheld
    obtain ⟨hinv, hlink, hobeys⟩ := turn.known.at_next turn.mem turn.next
    have hpre := pre_next hsha turn.known turn.mem turn.next
    have hallowed := hallows _ _ _ turn.allowed
    have hlink' := (turn.known.procs q' hq').2
    obtain ⟨party', prog', log'⟩ := q'
    cases party' with
    | ticker =>
        exact ClaimLink.kept hheld hlink' fun row' hrow' a ha hdrawn => hinv.leaseKept hpre hrow' ha hdrawn
    | worker s' =>
        have hspawned : s' ∈ pool.world.spawned := WorkerLink.spawned hlink'
        refine RowLink.kept hheld (fun row' hrow' ha => hinv.leaseKept hpre hrow' ha (hinv.drawn s' hspawned)) ?_ ?_
        · intro row' hrow' hdone ha
          rcases OfficeLink.doneOrigin hinv hlink hobeys hrow' hdone ha with hold | ⟨s, hparty, hsame, -⟩
          · exact hold
          · rw [hparty] at hapart
            exact absurd hsame hapart
        · intro row hrow ha htask
          obtain ⟨party, prog, log⟩ := q
          cases e with
          | writeArtifact path f =>
              have hother : stepArtifactPath s'.taskId row.seq ≠ path := by
                intro hpath
                cases party with
                | ticker =>
                    cases hobeys
                | worker s =>
                    have hown := hallowed row hrow (by rw [htask, hpath])
                    rw [ha] at hown
                    exact absurd (Option.some.inj hown).symm hapart
              exact Function.update_of_ne hother _ _
          | _ =>
              rfl
  outside := by
    intro w w' procs hok hdelivered hchange
    have hinv : w.Inv cfg staffOk := hok.inv
    cases hchange with
    | env env hstaff =>
        exact ⟨hdelivered, fun q _ hheld => hheld.undisturbed rfl rfl⟩
    | time now =>
        exact ⟨hdelivered, fun q _ hheld => hheld.undisturbed rfl rfl⟩
    | client o hclient hpre =>
        have hpre' : ∀ o', OfficeCall.store o = .store o' → o'.Pre cfg.rt w.ledger := by
          rintro o' ho
          cases ho
          exact hpre
        refine ⟨hdelivered.store hinv hpre ?_, fun q hq hheld => ?_⟩
        · rintro taskId stepId status x attemptId rfl
          cases hclient
        have hlink := (hok.procs q hq).2
        obtain ⟨party, prog, log⟩ := q
        cases party with
        | ticker =>
            exact ClaimLink.kept hheld hlink fun row' hrow' a ha hdrawn => hinv.leaseKept hpre' hrow' ha hdrawn
        | worker s =>
            refine RowLink.kept hheld
              (fun row' hrow' ha => hinv.leaseKept hpre' hrow' ha (hinv.drawn s (WorkerLink.spawned hlink))) ?_
              fun _ _ _ _ => rfl
            intro row' hrow' hdone ha
            rcases hinv.doneOrigin hpre' hrow' hdone ha with hold | ⟨taskId, stepId, x, attemptId, ho, -⟩
            · exact hold
            · cases ho
              cases hclient
  starting := by
    rintro pool p prog - - ⟨rfl, -, -⟩
    intro before taskId stepId a hlog
    simp at hlog
  forking := by
    intro pool q e p' prog turn hforks
    obtain ⟨-, hlink, hobeys⟩ := turn.known.at_next turn.mem turn.next
    have hheld := turn.link
    obtain ⟨party, prog', log⟩ := q
    cases e with
    | spawnStep s =>
        cases hforks
        cases party with
        | worker s' =>
            cases hobeys
        | ticker =>
            obtain ⟨task, step, hlaunch⟩ := hobeys
            obtain ⟨before, hlog⟩ := hlaunch.leased
            constructor
            · intro row hrow ha
              obtain ⟨htask, hid⟩ := hheld before _ _ _ hlog row hrow ha
              rw [hlaunch.taskId, hlaunch.stepId]
              exact ⟨htask, hid⟩
            · exact fun step hread => absurd hread List.not_mem_nil
            · exact fun _ => (TickerLink.leased hlink before _ _ _ hlog).2.2
            · rintro n ⟨before', a, after, hnil, -⟩
              simp at hnil
    | _ =>
        cases hforks

variable {cfg staffOk}

/-- The files of finished steps are right in every state of every run that writes them under their leases. -/
theorem deliveredOk (hsha : Function.Injective cfg.rt.sha256) {allows : OfficePool → OfficeParty → OfficeCall → Prop}
    (hallows : ∀ pool p e, allows pool p e → WritesLeased pool p e) {pool : OfficePool}
    (h : (officeSystem cfg staffOk allows).Reach (officeInit staffOk) pool) : pool.world.Delivered := by
  refine (Layer.ok_of_reach (L := artifactLayer cfg staffOk hsha allows hallows) (fun _ => officeOk hsha)
    (fun _ => officeOk hsha) ?_ h).inv
  rintro - ⟨now, env, -, rfl⟩
  refine ⟨?_, by simp⟩
  intro row hrow
  cases hrow

/-- In every run in which a step's file is written only under the step's lease, and no step that a worker
has finished is claimed by a tick that has not seen it finished: once a step other than a review is done
under an attempt, its file holds the version of that attempt, then and ever after. -/
theorem artifact_of_attempt {pool pool' : OfficePool} (hsha : Function.Injective cfg.rt.sha256)
    (hreach : (officeSystem cfg staffOk LeaseCurrent).Reach (officeInit staffOk) pool)
    (hrun : (officeSystem cfg staffOk LeaseCurrent).Reach (fun q => q = pool) pool') {row : TeamStep}
    (hrow : row ∈ pool.world.ledger.db.steps.rows) (hdone : row.status = .done) (htype : row.stepType ≠ .review)
    {a : AttemptId} (ha : row.attemptId = some a) :
    ∃ f, pool'.world.files (stepArtifactPath row.taskId row.seq) = some f ∧ f.version = some a := by
  obtain ⟨row', hrow', hident, hdone', hattempt⟩ :=
    finished_run hsha (fun _ _ _ h => h.1) hreach hrun hrow hdone
  have hfiles : pool'.world.Delivered := deliveredOk hsha (fun _ _ _ h => h.2) (hreach.trans hrun)
  obtain ⟨a', ha', f, hfile, hversion⟩ := hfiles row' hrow' hdone' (by
    rw [congrArg StepIdent.stepType hident]
    exact htype)
  rw [hattempt, ha] at ha'
  rw [congrArg StepIdent.taskId hident, congrArg StepIdent.seq hident] at hfile
  exact ⟨f, hfile, by rw [hversion, ← Option.some.inj ha']⟩

end Artifacts

/-! ### A file that is overwritten -/

/-- A schedule in which files are written under their leases. -/
def leasedRun (acts : List OfficeAct) : OfficePool :=
  execAll sampleConfig anyStaff LeaseCurrent (fun pool p e => decide (LeaseCurrent pool p e)) acts oneStepPool

theorem reach_leasedRun (acts : List OfficeAct) :
    (officeSystem sampleConfig anyStaff LeaseCurrent).Reach (officeInit anyStaff) (leasedRun acts) :=
  reach_exec (fun _ _ _ h => of_decide_eq_true h) acts (reach_confirmed Ledger.samplePlan trivial)

/-- In a run without a second attempt the file is the one of the first, through the tick that delivers the
task. -/
theorem artifact_of_attempt_delivered :
    ∃ row ∈ (leasedRun [.start, .call 0 100, .leave 0, .call 0 100]).world.ledger.db.steps.rows,
      row.status = .done ∧ row.attemptId = some 1 ∧
        ∃ f, (leasedRun [.start, .call 0 100, .leave 0, .call 0 100, .start, .call 1 100]).world.files
          (stepArtifactPath row.taskId row.seq) = some f ∧ f.version = some 1 := by
  obtain ⟨row, hrow, hdone, htype, ha⟩ : ∃ row ∈ (leasedRun [.start, .call 0 100, .leave 0, .call 0 100]).world.ledger.db.steps.rows,
      row.status = .done ∧ row.stepType ≠ .review ∧ row.attemptId = some 1 := by decide +kernel
  refine ⟨row, hrow, hdone, ha, artifact_of_attempt Function.injective_id (reach_leasedRun _) ?_ hrow hdone htype ha⟩
  exact reach_exec (fun _ _ _ h => of_decide_eq_true h) [.start, .call 1 100] (.init rfl)

/-- The second worker has finished the step. -/
def secondFinished : OfficePool :=
  sampleRun sampleConfig anyStaff [.call 1 100] zombiePool

/-- The first one goes on and delivers. -/
def firstDelivers : OfficePool :=
  sampleRun sampleConfig anyStaff [.call 0 100] secondFinished

/-- Without the condition a worker that has lost its lease overwrites the file of the finished step. -/
theorem zombie_overwrites :
    ¬ ∀ pool pool', (officeSystem sampleConfig anyStaff anyCall).Reach (officeInit anyStaff) pool →
      (officeSystem sampleConfig anyStaff anyCall).Reach (fun q => q = pool) pool' →
      ∀ row ∈ pool.world.ledger.db.steps.rows, row.status = .done → ∀ a, row.attemptId = some a →
        ∃ f, pool'.world.files (stepArtifactPath row.taskId row.seq) = some f ∧ f.version = some a := by
  intro hclaim
  obtain ⟨row, hrow, hdone, ha, htask, hseq⟩ : ∃ row ∈ secondFinished.world.ledger.db.steps.rows,
      row.status = .done ∧ row.attemptId = some 2 ∧ row.taskId = "t" ∧ row.seq = 1 := by decide +kernel
  have hreach : (officeSystem sampleConfig anyStaff anyCall).Reach (officeInit anyStaff) secondFinished :=
    reach_sampleRun _ zombiePool_reach
  obtain ⟨f, hfile, hversion⟩ := hclaim _ firstDelivers hreach (reach_sampleRun _ (.init rfl)) row hrow hdone 2 ha
  have hother : (firstDelivers.world.files (stepArtifactPath "t" 1)).map Artifact.version = some (some 1) := by
    decide +kernel
  rw [htask, hseq] at hfile
  rw [hfile, Option.map_some, hversion] at hother
  cases hother

end ProjectManager
