import ProjectManager.Lib.Layer
import ProjectManager.Office.Coupling

/-!
# What the ticker may conclude from its snapshot

A `Watch` is a layer about the store alone: an invariant of the store and a link of the ticker's log to it,
kept by the ticker's own calls and by the operations from elsewhere.  `Watch.ok_of_reach` is the rule for
whole runs.

`snapWatch` is the first one: no row ever carries an approval id, the ticker reads one snapshot, and what
the snapshot shows as waiting for an approval the tick neither claims nor starts nor fails.
-/

namespace ProjectManager

open Process

/-! ### Layers about the store -/

/-- The operations that reach the store from elsewhere than the ticker. -/
inductive Office.Elsewhere (w : Office) : StoreOp → Prop where
  | worker {s : Spawn} {log : OfficeLog} {o : StoreOp} (link : WorkerLink s log w)
      (obeys : WorkerObeys s log (.store o)) : Elsewhere w o
  | client {o : StoreOp} (h : o.client = true) : Elsewhere w o

/-- The ticker is about to issue a call that the run lets through. -/
structure TickerTurn (cfg : OfficeConfig) (staffOk : List (String × String) → Prop)
    (allows : OfficePool → OfficeParty → OfficeCall → Prop) (K : OfficePool → Prop) (log : OfficeLog)
    (e : OfficeCall) (pool : OfficePool) : Prop where
  known : K pool
  inv : pool.world.Inv cfg staffOk
  linked : TickerLink log pool.world
  obeys : TickObeys cfg.concurrency staffOk log e
  allowed : allows pool .ticker e
  present : ∃ q ∈ pool.procs, q.party = .ticker ∧ q.log = log ∧ q.next = some e

theorem TickerTurn.pre {cfg : OfficeConfig} {staffOk : List (String × String) → Prop}
    {allows : OfficePool → OfficeParty → OfficeCall → Prop} {K : OfficePool → Prop} {log : OfficeLog}
    {e : OfficeCall} {pool : OfficePool} (h : TickerTurn cfg staffOk allows K log e pool) :
    ∀ o, e = .store o → o.Pre cfg.rt pool.world.ledger := by
  rintro o rfl
  exact h.linked.pre h.inv h.obeys

/-- An invariant of the store and a link of the ticker's log to it. -/
structure Watch (cfg : OfficeConfig) (staffOk : List (String × String) → Prop)
    (allows : OfficePool → OfficeParty → OfficeCall → Prop) (K : OfficePool → Prop) where
  /-- what holds of the store at all times -/
  Inv : Ledger → Prop
  /-- what the ticker's log says of the store -/
  Link : OfficeLog → Ledger → Prop
  own : ∀ {pool : OfficePool} {log : OfficeLog} {e : OfficeCall}, TickerTurn cfg staffOk allows K log e pool →
    Inv pool.world.ledger → Link log pool.world.ledger →
      Inv (e.handle cfg.rt pool.world).2.ledger ∧
        Link (log ++ [⟨e, (e.handle cfg.rt pool.world).1⟩]) (e.handle cfg.rt pool.world).2.ledger
  others : ∀ {w : Office} {o : StoreOp}, w.Inv cfg staffOk → w.Elsewhere o → o.Pre cfg.rt w.ledger → Inv w.ledger →
    Inv (o.run cfg.rt w.ledger).2 ∧
      ∀ log, TickerLink log w → Link log w.ledger → Link log (o.run cfg.rt w.ledger).2
  time : ∀ {l : Ledger} (now : Time), Inv l →
    Inv { l with clock := now } ∧ ∀ log, Link log l → Link log { l with clock := now }
  start : ∀ {l : Ledger}, Inv l → Link [] l
  empty : ∀ now, Inv (.empty now)

namespace Watch

variable {cfg : OfficeConfig} {staffOk : List (String × String) → Prop}
  {allows : OfficePool → OfficeParty → OfficeCall → Prop} {K : OfficePool → Prop} (V : Watch cfg staffOk allows K)

/-- The link of the ticker; the workers need none. -/
def PartyLink : OfficeParty → OfficeLog → Office → Prop
  | .ticker, log, w => V.Link log w.ledger
  | .worker _, _, _ => True

variable {V}

theorem partyLink_others {p : OfficeParty} {log : OfficeLog} {w w' : Office} (hlink : OfficeLink p log w)
    (h : V.PartyLink p log w) (hkept : TickerLink log w → V.Link log w.ledger → V.Link log w'.ledger) :
    V.PartyLink p log w' := by
  cases p with
  | ticker =>
      exact hkept hlink h
  | worker s =>
      exact trivial

variable (V)

/-- A watch as a layer. -/
def layer (hsha : Function.Injective cfg.rt.sha256)
    (hK : ∀ pool, K pool → (officeSpec cfg hsha staffOk allows).PoolOk pool) :
    Layer (officeSpec cfg hsha staffOk allows) K where
  Inv := fun w => V.Inv w.ledger
  Link := V.PartyLink
  own := by
    intro pool q e turn
    obtain ⟨hinv, hlink, hobeys⟩ := (hK _ turn.known).at_next turn.mem turn.next
    have hpre := pre_next hsha (hK _ turn.known) turn.mem turn.next
    have hmem := turn.mem
    have hnext := turn.next
    have hallowed := turn.allowed
    have hheld := turn.link
    obtain ⟨party, prog, log⟩ := q
    cases party with
    | ticker =>
        exact V.own ⟨turn.known, hinv, hlink, hobeys, hallowed, _, hmem, rfl, rfl, hnext⟩ turn.inv hheld
    | worker s =>
        refine ⟨?_, trivial⟩
        by_cases hstore : ∃ o, e = .store o
        · obtain ⟨o, rfl⟩ := hstore
          exact (V.others hinv (.worker hlink hobeys) (hpre o rfl) turn.inv).1
        · push Not at hstore
          show V.Inv (e.handle cfg.rt pool.world).2.ledger
          rw [ledger_handle hstore]
          exact turn.inv
  others := by
    intro pool q q' e turn hapart hq' hheld
    obtain ⟨hinv, hlink, hobeys⟩ := (hK _ turn.known).at_next turn.mem turn.next
    have hpre := pre_next hsha (hK _ turn.known) turn.mem turn.next
    have hlink' := ((hK _ turn.known).procs q' hq').2
    obtain ⟨party', prog', log'⟩ := q'
    cases party' with
    | worker s' =>
        exact trivial
    | ticker =>
        show V.Link log' (e.handle cfg.rt pool.world).2.ledger
        by_cases hstore : ∃ o, e = .store o
        · obtain ⟨o, rfl⟩ := hstore
          obtain ⟨party, prog, log⟩ := q
          cases party with
          | ticker =>
              exact absurd hapart id
          | worker s =>
              exact (V.others hinv (.worker hlink hobeys) (hpre o rfl) turn.inv).2 _ hlink' hheld
        · push Not at hstore
          rw [ledger_handle hstore]
          exact hheld
  outside := by
    intro w w' procs hk hinv hchange
    have hoffice : w.Inv cfg staffOk := (hK _ hk).inv
    cases hchange with
    | env env hstaff =>
        exact ⟨hinv, fun q hq hheld => partyLink_others ((hK _ hk).procs q hq).2 hheld fun _ h => h⟩
    | time now =>
        refine ⟨(V.time now hinv).1, fun q hq hheld => ?_⟩
        exact partyLink_others ((hK _ hk).procs q hq).2 hheld fun _ h => (V.time now hinv).2 _ h
    | client o hclient hpre =>
        have hkept := V.others hoffice (.client hclient) hpre hinv
        exact ⟨hkept.1, fun q hq hheld => partyLink_others ((hK _ hk).procs q hq).2 hheld (hkept.2 _)⟩
  starting := by
    rintro pool p prog - hinv ⟨rfl, -, -⟩
    exact V.start hinv
  forking := by
    intro pool q e p' prog turn hforks
    cases e with
    | spawnStep s =>
        cases hforks
        exact trivial
    | _ =>
        cases hforks

variable {V}

/-- A watch holds in every pool of every run. -/
theorem ok_of_reach (hsha : Function.Injective cfg.rt.sha256)
    (hK : ∀ pool, K pool → (officeSpec cfg hsha staffOk allows).PoolOk pool)
    (hknown : ∀ pool, (officeSystem cfg staffOk allows).Reach (officeInit staffOk) pool → K pool) {pool : OfficePool}
    (h : (officeSystem cfg staffOk allows).Reach (officeInit staffOk) pool) :
    V.Inv pool.world.ledger ∧ ∀ q ∈ pool.procs, q.party = .ticker → V.Link q.log pool.world.ledger := by
  have hok : (V.layer hsha hK).Ok pool := by
    refine Layer.ok_of_reach (fun pool hpool => hK pool (hknown pool hpool)) hknown ?_ h
    rintro - ⟨now, env, -, rfl⟩
    exact ⟨V.empty now, by simp⟩
  refine ⟨hok.inv, fun q hq hparty => ?_⟩
  have hlink : V.PartyLink q.party q.log pool.world := hok.links q hq
  rw [hparty] at hlink
  exact hlink

end Watch

/-! ### One snapshot, without approvals -/

/-- No row waits for an approval that it names. -/
def Ledger.Ungated (l : Ledger) : Prop :=
  ∀ row ∈ l.db.steps.rows, row.approvalId = none

/-- The call claims, starts or fails the step. -/
def OfficeCall.acts : OfficeCall → String → String → Bool
  | .store (.reserveStep taskId stepId), t, i => decide (taskId = t) && decide (stepId = i)
  | .store (.setStepStatus taskId stepId _ _ _), t, i => decide (taskId = t) && decide (stepId = i)
  | .spawnStep s, t, i => decide (s.taskId = t) && decide (s.stepId = i)
  | _, _, _ => false

/-- What the ticker's log says of its snapshot. -/
structure SnapLink (log : OfficeLog) : Prop where
  listed : ∀ task, Snap log task → task.Listed
  once : ∀ task task', Snap log task → Snap log task' → task.id = task'.id → task = task'
  ungated : ∀ task, Snap log task → ∀ step ∈ task.steps, step.approvalId = none
  paused : ∀ task, Snap log task → ∀ step ∈ task.steps, step.status = .awaitingApproval →
    ∀ x ∈ log, x.1.acts task.id step.stepId = false

section Snapshots

variable {cfg : OfficeConfig} {staffOk : List (String × String) → Prop} {log : OfficeLog} {e : OfficeCall} {l : Ledger}
  {w : Office} {task : TeamTask} {step : TeamStep}

theorem Ledger.Ungated.op (h : l.Ungated) {rt : Runtime} (hinv : l.Inv rt) {o : StoreOp} (hpre : o.Pre rt l)
    (hnone : ∀ taskId stepId status x attemptId, o = .setStepStatus taskId stepId status x attemptId →
      x.approvalId = none) : (o.run rt l).2.Ungated := by
  intro row' hrow'
  rcases hinv.rowEdited hpre hrow' with ⟨row, hrow, hedits⟩ | hnew
  · have hrow := h row hrow
    cases hedits with
    | same =>
        exact hrow
    | reserve _ =>
        rfl
    | spawn _ =>
        exact hrow
    | beat =>
        exact hrow
    | @status taskId stepId status x attemptId _ _ =>
        simp [Db.withStatus, hnone taskId stepId status x attemptId rfl, hrow]
  · rw [hnew]
    rfl

/-- Neither the workers nor the store's other users name an approval. -/
theorem Office.Elsewhere.ungated {o : StoreOp} (h : w.Elsewhere o) {taskId stepId : String} {status : StepStatus}
    {x : Db.StatusExtras} {attemptId : Option AttemptId} (ho : o = .setStepStatus taskId stepId status x attemptId) :
    x.approvalId = none := by
  subst ho
  cases h with
  | worker _ hobeys =>
      exact hobeys.2.2.2.ungated
  | client hclient =>
      cases hclient

/-- Nor does the ticker. -/
theorem TickObeys.ungated {k : ℕ} {o : StoreOp} (h : TickObeys k staffOk log (.store o)) {taskId stepId : String}
    {status : StepStatus} {x : Db.StatusExtras} {attemptId : Option AttemptId}
    (ho : o = .setStepStatus taskId stepId status x attemptId) : x.approvalId = none := by
  subst ho
  obtain ⟨-, task, step, -, -, -, rfl⟩ := h
  rfl

/-- Two steps of the snapshot with one id are the same. -/
theorem SnapLink.same (h : SnapLink log) {task' : TeamTask} {step' : TeamStep} (hsnap : Snap log task)
    (hsnap' : Snap log task') (hstep : step ∈ task.steps) (hstep' : step' ∈ task'.steps) (hid : task'.id = task.id)
    (hstepId : step'.stepId = step.stepId) : task' = task ∧ step' = step := by
  obtain rfl := h.once task' task hsnap' hsnap hid
  exact ⟨rfl, List.inj_on_of_nodup_map (h.listed task' hsnap).unique hstep' hstep hstepId⟩

/-- The ticker does not act on a step that its snapshot shows as waiting for an approval. -/
theorem SnapLink.spares_paused {k : ℕ} (h : SnapLink log) (hobeys : TickObeys k staffOk log e) (hsnap : Snap log task)
    (hstep : step ∈ task.steps) (hpaused : step.status = .awaitingApproval) : e.acts task.id step.stepId = false := by
  have hpicked : ∀ task' step', Picked log task' step' →
      ¬ (task'.id = task.id ∧ step'.stepId = step.stepId) := by
    rintro task' step' hpicked ⟨hid, hstepId⟩
    obtain ⟨rfl, rfl⟩ := h.same hsnap hpicked.chosen.1 hstep hpicked.chosen.2.1 hid hstepId
    exact hpicked.polled hpaused (h.ungated _ hsnap _ hstep)
  unfold OfficeCall.acts
  split
  · obtain ⟨task', step', hclaim, rfl, rfl⟩ := hobeys
    simpa using hpicked task' step' hclaim.picked
  · obtain ⟨-, task', step', hpick, rfl, rfl, -⟩ := hobeys
    simpa using hpicked task' step' hpick
  · obtain ⟨task', step', hlaunch⟩ := hobeys
    obtain ⟨before, hlog⟩ := hlaunch.leased
    -- the claim just before the spawn was already one of this step
    have hclaimed := h.paused task hsnap step hstep hpaused ⟨.store (.reserveStep task'.id step'.stepId), _⟩ (by
      rw [hlog]
      exact List.mem_append_right _ (List.mem_singleton.2 rfl))
    rw [hlaunch.taskId, hlaunch.stepId]
    exact hclaimed
  · rfl

/-- The ticker's own call keeps what its log says of the snapshot. -/
theorem SnapLink.asked {k : ℕ} (h : SnapLink log) (hinv : w.Inv cfg staffOk) (hungated : w.ledger.Ungated)
    (hobeys : TickObeys k staffOk log e) : SnapLink (log ++ [⟨e, (e.handle cfg.rt w).1⟩]) := by
  by_cases hlist : e = .store .listDispatchable
  · subst hlist
    obtain rfl : log = [] := hobeys
    have hsnaps : ∀ task, Snap ([] ++ [⟨.store .listDispatchable, w.ledger.db.listDispatchable⟩]) task →
        task ∈ w.ledger.db.listDispatchable := by
      intro task hsnap
      rcases hsnap.of_append with ⟨_, hread, -⟩ | ⟨tasks, htask, -, htasks⟩
      · cases hread
      · rw [eq_of_heq htasks]
        exact htask
    constructor
    · intro task hsnap
      exact plausible_handle hinv (.store .listDispatchable) task (hsnaps task hsnap)
    · intro task task' hsnap hsnap' hid
      have hget := (Db.mem_listDispatchable.1 (hsnaps task hsnap)).1
      rw [hid, (Db.mem_listDispatchable.1 (hsnaps task' hsnap')).1] at hget
      exact (Option.some.inj hget).symm
    · intro task hsnap step hstep
      obtain ⟨-, -, hsteps⟩ := Db.get_eq_some.1 (Db.mem_listDispatchable.1 (hsnaps task hsnap)).1
      rw [hsteps] at hstep
      exact hungated step (Db.mem_stepsForTask.1 hstep).1
    · intro task hsnap step hstep hpaused x hx
      obtain rfl := List.mem_singleton.1 hx
      rfl
  · have hsnaps : ∀ task, Snap (log ++ [⟨e, (e.handle cfg.rt w).1⟩]) task → Snap log task := by
      intro task hsnap
      rcases hsnap.of_append with hsnap | ⟨_, -, rfl, -⟩
      · exact hsnap
      · exact absurd rfl hlist
    constructor
    · exact fun task hsnap => h.listed task (hsnaps task hsnap)
    · exact fun task task' hsnap hsnap' => h.once task task' (hsnaps task hsnap) (hsnaps task' hsnap')
    · exact fun task hsnap => h.ungated task (hsnaps task hsnap)
    · intro task hsnap step hstep hpaused x hx
      rcases List.mem_append.1 hx with hx | hx
      · exact h.paused task (hsnaps task hsnap) step hstep hpaused x hx
      · obtain rfl := List.mem_singleton.1 hx
        exact h.spares_paused hobeys (hsnaps task hsnap) hstep hpaused

theorem SnapLink.nil : SnapLink [] := by
  have hnone : ∀ task, ¬ Snap [] task := by
    rintro task ⟨tasks, hread, -⟩
    cases hread
  exact ⟨fun task hsnap => absurd hsnap (hnone task), fun task _ hsnap => absurd hsnap (hnone task),
    fun task hsnap => absurd hsnap (hnone task), fun task hsnap => absurd hsnap (hnone task)⟩

variable (cfg staffOk)

/-- Rows without approvals, and the one snapshot of a tick. -/
def snapWatch (allows : OfficePool → OfficeParty → OfficeCall → Prop) (K : OfficePool → Prop) :
    Watch cfg staffOk allows K where
  Inv := Ledger.Ungated
  Link := fun log _ => SnapLink log
  own := by
    intro pool log e turn hungated hlink
    refine ⟨?_, hlink.asked turn.inv hungated turn.obeys⟩
    by_cases hstore : ∃ o, e = .store o
    · obtain ⟨o, rfl⟩ := hstore
      exact hungated.op turn.inv.ledger (turn.pre o rfl) fun _ _ _ _ _ ho => turn.obeys.ungated ho
    · push Not at hstore
      rw [ledger_handle hstore]
      exact hungated
  others := fun hinv helse hpre hungated =>
    ⟨hungated.op hinv.ledger hpre fun _ _ _ _ _ ho => helse.ungated ho, fun _ _ hlink => hlink⟩
  time := fun _ hungated => ⟨hungated, fun _ hlink => hlink⟩
  start := fun _ => .nil
  empty := by
    intro now row hrow
    cases hrow

variable {cfg staffOk}

/-- In every run no row names an approval, and every tick has one snapshot. -/
theorem snapOk (hsha : Function.Injective cfg.rt.sha256) {allows : OfficePool → OfficeParty → OfficeCall → Prop}
    {pool : OfficePool} (h : (officeSystem cfg staffOk allows).Reach (officeInit staffOk) pool) :
    pool.world.ledger.Ungated ∧ ∀ q ∈ pool.procs, q.party = .ticker → SnapLink q.log :=
  Watch.ok_of_reach (V := snapWatch cfg staffOk allows _) hsha (fun _ hok => hok) (fun _ => officeOk hsha) h

end Snapshots

end ProjectManager
