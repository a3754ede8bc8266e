import ProjectManager.Office.Handoff
import ProjectManager.Office.Snapshots

/-!
# Stalled tasks

A tick hands out only tasks whose status is dispatchable, and only a tick writes the status of an opened
task.  A tick that stalls a task does not deliver it afterwards (`Gate`), and `confirm_amendment` writes the
steps and the hash, never the status.  So a stalled task stays stalled, whatever amendment is applied to it
(`amended_stays_stalled`).
-/

namespace ProjectManager

open Process

/-- The task is stalled. -/
def Ledger.Stalled (l : Ledger) (taskId : String) : Prop :=
  ∃ row ∈ l.db.tasks.rows, row.id = taskId ∧ row.status = .stalled

/-- The task is done. -/
def Ledger.Delivered (l : Ledger) (taskId : String) : Prop :=
  ∃ row ∈ l.db.tasks.rows, row.id = taskId ∧ row.status = .done

/-- While the ticker has only looked, the tasks of its snapshot are still dispatchable. -/
def StatusLink (log : OfficeLog) (l : Ledger) : Prop :=
  Calm log → ∀ task, Snap log task → ∀ row ∈ l.db.tasks.rows, row.id = task.id → row.status.dispatchable = true

section Stalled

variable {cfg : OfficeConfig} {staffOk : List (String × String) → Prop} {log : OfficeLog} {e : OfficeCall} {l : Ledger}
  {w : Office} {taskId : String} {pool pool' : OfficePool} {allows : OfficePool → OfficeParty → OfficeCall → Prop}

theorem Ledger.Stalled.not_delivered (h : l.Stalled taskId) : ¬ l.Delivered taskId := by
  rintro ⟨row', hrow', hid', hdone⟩
  obtain ⟨row, hrow, hid, hstalled⟩ := h
  rw [Table.eq_of_key l.db.tasks.nodup hrow hrow' (hid.trans hid'.symm), hdone] at hstalled
  cases hstalled

/-! ### Who writes the status of a task -/

/-- The status of an opened task after an operation that does not write it. -/
theorem Ledger.statusOrigin {rt : Runtime} {o : StoreOp} (hopened : l.Opened taskId)
    (hset : ∀ status, o ≠ .setTaskStatus taskId status) {row' : TaskRow} (hrow' : row' ∈ (o.run rt l).2.db.tasks.rows)
    (hid : row'.id = taskId) : ∃ row ∈ l.db.tasks.rows, row.id = taskId ∧ row'.status = row.status := by
  obtain ⟨opened, hstored, hopenedId, hever⟩ := hopened
  rcases Ledger.tasksAfter rt l o with ⟨g, hrows, hupdates⟩ | ⟨new, hrows, hfresh, -⟩
  · rw [hrows] at hrow'
    obtain ⟨row, hrow, rfl⟩ := List.mem_map.1 hrow'
    have hupdate := hupdates row hrow
    have hrowId : row.id = taskId := hupdate.id.symm.trans hid
    refine ⟨row, hrow, hrowId, ?_⟩
    rcases hupdate.status with hsame | hplanning | ho
    · exact hsame
    · rw [Table.eq_of_key l.db.tasks.nodup hrow hstored (hrowId.trans hopenedId.symm)] at hplanning
      rw [hplanning] at hever
      cases hever
    · rw [hrowId] at ho
      exact absurd ho (hset _)
  · rw [hrows] at hrow'
    rcases List.mem_append.1 hrow' with hrow' | hrow'
    · exact ⟨row', hrow', hid, rfl⟩
    · obtain rfl := List.mem_singleton.1 hrow'
      exact absurd (hopenedId.trans hid.symm) (hfresh opened hstored)

/-- Neither the workers nor the store's other users write the status of a task. -/
theorem Office.Elsewhere.statusless {o : StoreOp} (h : w.Elsewhere o) (taskId : String) (status : TaskStatus) :
    o ≠ .setTaskStatus taskId status := by
  rintro rfl
  cases h with
  | worker _ hobeys =>
      cases hobeys
  | client hclient =>
      cases hclient

theorem StatusLink.op (h : StatusLink log l) {o : StoreOp} {rt : Runtime}
    (hknown : ∀ task, Snap log task → l.Opened task.id) (hset : ∀ taskId status, o ≠ .setTaskStatus taskId status) :
    StatusLink log (o.run rt l).2 := by
  intro hcalm task hsnap row' hrow' hid
  obtain ⟨row, hrow, hrowId, hsame⟩ := Ledger.statusOrigin (hknown task hsnap) (hset task.id) hrow' hid
  rw [hsame]
  exact h hcalm task hsnap row hrow hrowId

/-- The ticker's own call keeps what its log says of the status. -/
theorem StatusLink.asked (h : StatusLink log w.ledger) (hinv : w.Inv cfg staffOk) (hlink : TickerLink log w) :
    StatusLink (log ++ [⟨e, (e.handle cfg.rt w).1⟩]) (e.handle cfg.rt w).2.ledger := by
  intro hcalm task hsnap row' hrow' hid
  have hcalm' : Calm log := fun x hx => hcalm x (List.mem_append_left _ hx)
  have he : e.calm = true := hcalm ⟨e, (e.handle cfg.rt w).1⟩ (by simp)
  rcases hsnap.of_append with hshown | ⟨tasks, htask, rfl, htasks⟩
  · by_cases hstore : ∃ o, e = .store o
    · obtain ⟨o, rfl⟩ := hstore
      have hset : ∀ taskId status, o ≠ .setTaskStatus taskId status := by
        rintro t status rfl
        cases he
      exact h.op (fun task hshown => (hlink.known task hshown).opened hinv) hset hcalm' task hshown row' hrow' hid
    · push Not at hstore
      rw [ledger_handle hstore] at hrow'
      exact h hcalm' task hshown row' hrow' hid
  · obtain rfl := eq_of_heq htasks
    obtain ⟨hget, hdispatchable⟩ := Db.mem_listDispatchable.1 htask
    have hrow : row' ∈ w.ledger.db.tasks.rows := hrow'
    rw [Table.eq_of_key w.ledger.db.tasks.nodup hrow (Db.get_eq_some.1 hget).1 hid]
    exact hdispatchable

variable (cfg staffOk)

/-- The status of the tasks that the ticker has found dispatchable. -/
def statusWatch (allows : OfficePool → OfficeParty → OfficeCall → Prop) (K : OfficePool → Prop) :
    Watch cfg staffOk allows K where
  Inv := fun _ => True
  Link := StatusLink
  own := fun turn _ hlink => ⟨trivial, hlink.asked turn.inv turn.linked⟩
  others := fun hinv helse _ _ => ⟨trivial, fun _ hticker hlink =>
    hlink.op (fun task hsnap => (hticker.known task hsnap).opened hinv) helse.statusless⟩
  time := fun _ _ => ⟨trivial, fun _ hlink => hlink⟩
  start := by
    rintro l - - task ⟨tasks, hread, -⟩
    cases hread
  empty := fun _ => trivial

variable {cfg staffOk}

/-! ### Stalled for good -/

/-- An operation that does not set the status to something else keeps a stalled task stalled. -/
theorem Ledger.Stalled.op (h : l.Stalled taskId) {rt : Runtime} {o : StoreOp}
    (hset : ∀ status, o = .setTaskStatus taskId status → status = .stalled) : (o.run rt l).2.Stalled taskId := by
  obtain ⟨row, hrow, rfl, hstalled⟩ := h
  rcases Ledger.tasksAfter rt l o with ⟨g, hrows, hupdates⟩ | ⟨new, hrows, -⟩
  · have hupdate := hupdates row hrow
    refine ⟨g row, ?_, hupdate.id, ?_⟩
    · rw [hrows]
      exact List.mem_map_of_mem hrow
    · rcases hupdate.status with hsame | hplanning | ho
      · exact hsame.trans hstalled
      · rw [hstalled] at hplanning
        cases hplanning
      · exact hset _ ho
  · refine ⟨row, ?_, rfl, hstalled⟩
    rw [hrows]
    exact List.mem_append_left _ hrow

/-- Every step keeps a stalled task stalled. -/
theorem Ledger.Stalled.step (hsha : Function.Injective cfg.rt.sha256)
    (hreach : (officeSystem cfg staffOk allows).Reach (officeInit staffOk) pool)
    (h : pool.world.ledger.Stalled taskId) (hstep : (officeSystem cfg staffOk allows).Step pool pool') :
    pool'.world.ledger.Stalled taskId := by
  have hok := officeOk hsha hreach
  cases hstep with
  | @run w before after p e k log hallowed =>
      have hmem : (⟨p, .call e k, log⟩ : Proc OfficeParty OfficeCall OfficeCall.Resp) ∈
          before ++ ⟨p, .call e k, log⟩ :: after := by simp
      obtain ⟨hinv, hlink, hobeys⟩ := hok.at_next hmem rfl
      show (e.handle cfg.rt w).2.ledger.Stalled taskId
      by_cases hstore : ∃ o, e = .store o
      · obtain ⟨o, rfl⟩ := hstore
        refine h.op ?_
        rintro status rfl
        cases p with
        | worker s =>
            cases hobeys
        | ticker =>
            obtain ⟨task, hsnap, rfl, rfl | ⟨rfl, hgate⟩⟩ := hobeys
            · rfl
            · -- the tick has found the task dispatchable, and has only looked since
              have hstatus := (Watch.ok_of_reach (V := statusWatch cfg staffOk allows _) hsha (fun _ hok => hok)
                (fun _ => officeOk hsha) hreach).2 _ hmem rfl
              obtain ⟨row, hrow, hid, hstalled⟩ := h
              have hdispatchable := hstatus hgate.calm task hsnap row hrow hid
              rw [hstalled] at hdispatchable
              cases hdispatchable
      · push Not at hstore
        rw [ledger_handle hstore]
        exact h
  | start _ =>
      exact h
  | leave =>
      exact h
  | ext hchange =>
      cases hchange with
      | env env hstaff =>
          exact h
      | time now =>
          exact h
      | client o hclient hpre =>
          refine h.op ?_
          rintro status rfl
          cases hclient

/-- A stalled task stays stalled in every continuation. -/
theorem Ledger.Stalled.run (hsha : Function.Injective cfg.rt.sha256)
    (hreach : (officeSystem cfg staffOk allows).Reach (officeInit staffOk) pool)
    (h : pool.world.ledger.Stalled taskId)
    (hrun : (officeSystem cfg staffOk allows).Reach (fun q => q = pool) pool') : pool'.world.ledger.Stalled taskId := by
  induction hrun with
  | init heq =>
      rw [heq]
      exact h
  | step hpool hstep ih =>
      exact ih.step hsha (hreach.trans hpool) hstep

/-- A stalled task is stalled when an amendment has been confirmed. -/
theorem Ledger.Stalled.amended (h : pool.world.ledger.Stalled taskId) {rt : Runtime} {amendmentId : ℕ} :
    (afterOp rt (.confirmAmendment taskId amendmentId) pool).world.ledger.Stalled taskId :=
  h.op nofun

/-- Whatever draft is confirmed for a stalled task, no continuation delivers the task. -/
theorem amended_stays_stalled (hsha : Function.Injective cfg.rt.sha256)
    (hreach : (officeSystem cfg staffOk anyCall).Reach (officeInit staffOk) pool)
    (hstalled : pool.world.ledger.Stalled taskId) (amendmentId : ℕ) :
    ¬ ∃ pool', (officeSystem cfg staffOk anyCall).Reach
        (fun q => q = afterOp cfg.rt (.confirmAmendment taskId amendmentId) pool) pool' ∧
      pool'.world.ledger.Delivered taskId := by
  rintro ⟨pool', hrun, hdelivered⟩
  exact (hstalled.amended.run hsha (reach_afterOp (.confirmAmendment taskId amendmentId) rfl trivial hreach)
    hrun).not_delivered hdelivered

end Stalled

/-! ### A replan that is confirmed -/

/-- A tick to its end, after which the worker that it has started dies. -/
def lostTurn : List OfficeAct :=
  [.start, .call 0 100, .leave 0, .leave 0]

/-- The worker of the first step dies twice, the step fails and the task stalls. -/
def deadEndPool : OfficePool :=
  sampleRun sampleConfig anyStaff (lostTurn ++ lostTurn ++ lostTurn ++ lostTurn)
    ⟨.holding (sampleEnv "pass") (.confirmed sampleConfig.rt dependentPlan), []⟩

theorem deadEndPool_reach : (officeSystem sampleConfig anyStaff anyCall).Reach (officeInit anyStaff) deadEndPool :=
  reach_sampleRun _ (reach_confirmed dependentPlan trivial)

/-- A user drafts a new second step. -/
def replannedPool : OfficePool :=
  afterDraft sampleConfig.rt [("dev", "Dev"), ("qa", "QA")] (fun _ _ => .ok ⟨"[report]", none⟩) deadEndPool

theorem replannedPool_reach : (officeSystem sampleConfig anyStaff anyCall).Reach (officeInit anyStaff) replannedPool :=
  reach_afterDraft _ _ deadEndPool_reach

/-- The task is stalled, and the draft can be confirmed. -/
theorem replannedPool_stalled : replannedPool.world.ledger.Stalled "t" ∧
    ((StoreOp.confirmAmendment "t" 1).run sampleConfig.rt replannedPool.world.ledger).1 = .ok { ok := true } := by
  unfold Ledger.Stalled
  decide +kernel

/-- The draft is confirmed, and the task stays stalled. -/
theorem amended_stays_stalled_confirmed :
    ((StoreOp.confirmAmendment "t" 1).run sampleConfig.rt replannedPool.world.ledger).1 = .ok { ok := true } ∧
      ¬ ∃ pool', (officeSystem sampleConfig anyStaff anyCall).Reach
          (fun q => q = afterOp sampleConfig.rt (.confirmAmendment "t" 1) replannedPool) pool' ∧
        pool'.world.ledger.Delivered "t" :=
  ⟨replannedPool_stalled.2,
    amended_stays_stalled Function.injective_id replannedPool_reach replannedPool_stalled.1 1⟩

/-- A confirmed replan does not bring the task back. -/
theorem replan_revives_nothing :
    ¬ ∀ pool taskId amendmentId r, (officeSystem sampleConfig anyStaff anyCall).Reach (officeInit anyStaff) pool →
      pool.world.ledger.Stalled taskId →
      ((StoreOp.confirmAmendment taskId amendmentId).run sampleConfig.rt pool.world.ledger).1 = .ok r → r.ok = true →
      ∃ pool', (officeSystem sampleConfig anyStaff anyCall).Reach
          (fun q => q = afterOp sampleConfig.rt (.confirmAmendment taskId amendmentId) pool) pool' ∧
        pool'.world.ledger.Delivered taskId := by
  intro hclaim
  obtain ⟨hstalled, hconfirmed⟩ := replannedPool_stalled
  obtain ⟨pool', hrun, hdelivered⟩ := hclaim _ "t" 1 _ replannedPool_reach hstalled hconfirmed rfl
  have hreach : (officeSystem sampleConfig anyStaff anyCall).Reach (officeInit anyStaff)
      (afterOp sampleConfig.rt (.confirmAmendment "t" 1) replannedPool) :=
    reach_afterOp (.confirmAmendment "t" 1) rfl trivial replannedPool_reach
  exact (hstalled.amended.run Function.injective_id hreach hrun).not_delivered hdelivered

end ProjectManager
