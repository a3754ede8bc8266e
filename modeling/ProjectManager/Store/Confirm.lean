import ProjectManager.Lib.Process
import ProjectManager.Store.Agreement

/-!
# Drafts under concurrent requests

`confirm_plan`, `cancel_draft` and `set_draft_plan` as the statements they issue, run by any number of
requests at once.  A `SELECT` is a read of its own and an `UPDATE` commits on its own; the statements of
`set_draft_plan` are one transaction.  `confirm_plan` reads and then writes without a guard, so a
statement of another request may fall in between.  `confirm_binds_of_quiet` says that a confirmation
binds what it was shown, and that a cancelled draft stays cancelled, in every run in which none does.
-/

namespace ProjectManager

open Table Process

/-! ### Statements -/

/-- The statements of the requests. -/
inductive Stmt where
  | insertTask (taskId title originalRequest assignedBy picId roomId : String) (now : Time)
  | replan (taskId : String) (steps : List StepDict) (planHash : String)
  | selectDraft (taskId : String)
  | updateOpen (taskId : String)
  | updateCancelled (taskId : String)

/-- What a statement answers. -/
@[reducible] def Stmt.Resp : Stmt → Type
  | insertTask .. => Except String Unit
  | replan .. => Except String Unit
  | selectDraft _ => Option (Option String × TaskStatus)
  | updateOpen _ => Unit
  | updateCancelled _ => Bool

/-- A transaction that an exception rolls back. -/
def Stmt.transaction (db : Db) : Except String Db → Except String Unit × Db
  | .ok db' => (.ok (), db')
  | .error msg => (.error msg, db)

/-- Runs a statement. -/
def Stmt.handle : (s : Stmt) → Db → s.Resp × Db
  | insertTask taskId title request assignedBy picId roomId now, db =>
      transaction db (db.createTask taskId title request assignedBy picId roomId now)
  | replan taskId steps planHash, db => transaction db (db.setDraftPlan taskId steps planHash)
  | selectDraft taskId, db => ((db.tasks.find? taskId).map fun row => (row.planHash, row.status), db)
  | updateOpen taskId, db => ((), db.setTaskStatus taskId .opened)
  | updateCancelled taskId, db => db.cancelDraft taskId

/-! ### Requests -/

/-- The request of `confirm_plan` after its `SELECT`. -/
def confirmUpdate (taskId : String) : Prog Stmt Stmt.Resp Bool :=
  .call (.updateOpen taskId) fun _ => .ret true

/-- `confirm_plan`. -/
def confirmPlan (taskId expectedHash : String) : Prog Stmt Stmt.Resp Bool :=
  .call (.selectDraft taskId) fun row =>
    match row with
    | none => .ret false
    | some (planHash, status) =>
        if status ≠ .planning ∨ planHash ≠ some expectedHash then
          .ret false
        else
          confirmUpdate taskId

/-- Run alone, the two statements are the atomic operation. -/
theorem confirmPlan_run (taskId expectedHash : String) (db : Db) :
    (confirmPlan taskId expectedHash).run Stmt.handle db =
      (.ok (db.confirmPlan taskId expectedHash).1, (db.confirmPlan taskId expectedHash).2) := by
  unfold confirmPlan Db.confirmPlan Db.confirmable
  simp only [Prog.run, Stmt.handle]
  cases db.tasks.find? taskId with
  | none =>
      rfl
  | some row =>
      by_cases htest : row.status = .planning ∧ row.planHash = some expectedHash
      · simp [htest.1, htest.2, confirmUpdate, Prog.run, Stmt.handle]
      · have hfail : row.status ≠ .planning ∨ row.planHash ≠ some expectedHash := by
          rwa [← not_and_or]
        have hno : (decide (row.status = .planning) && decide (row.planHash = some expectedHash)) = false := by
          simpa using htest
        simp [hfail, hno, Prog.run]

/-- The requests of the assign routes. -/
inductive AssignRequest where
  | create (taskId title originalRequest assignedBy picId roomId : String) (now : Time)
  | draft (taskId : String) (plan : DecomposedTask)
  | confirm (taskId expectedHash : String)
  | cancel (taskId : String)

/-- `decomposition_content_hash` of a validated plan. -/
def DecomposedTask.contentHash (rt : Runtime) (plan : DecomposedTask) : String :=
  decompositionContentHash rt (plan.steps.map fun s => s.toStepFields)

/-- What a request runs. -/
def AssignRequest.prog (rt : Runtime) : AssignRequest → Prog Stmt Stmt.Resp Unit
  | create taskId title request assignedBy picId roomId now =>
      .call (.insertTask taskId title request assignedBy picId roomId now) Prog.ofExcept
  | draft taskId plan =>
      .call (.replan taskId (plan.steps.map TeamStepPlan.toDict) (plan.contentHash rt)) Prog.ofExcept
  | confirm taskId expectedHash => (confirmPlan taskId expectedHash).bind fun _ => .ret ()
  | cancel taskId => .call (.updateCancelled taskId) fun _ => .ret ()

/-- The pool of requests over the store. -/
abbrev AssignPool :=
  Pool Db AssignRequest Stmt Stmt.Resp

/-- Any request may come at any time; `allows` restricts the statements that a run executes. -/
def assignSystem (rt : Runtime) (allows : AssignPool → AssignRequest → Stmt → Prop) :
    System Db AssignRequest Stmt Stmt.Resp where
  handle := Stmt.handle
  forks := fun _ => none
  starts := fun _ request prog => prog = request.prog rt
  ext := fun _ _ => False
  allows := allows

/-- The empty store, before the first request. -/
def assignInit (pool : AssignPool) : Prop :=
  pool = ⟨Db.empty, []⟩

/-! ### What is promised -/

/-- The task has been cancelled. -/
def Db.Cancelled (db : Db) (taskId : String) : Prop :=
  ∃ row ∈ db.tasks.rows, row.id = taskId ∧ row.status = .cancelled

/-- The task carries the hash, and its stored steps have it. -/
def Db.Bound (rt : Runtime) (db : Db) (taskId hash : String) : Prop :=
  ∃ row ∈ db.tasks.rows, row.id = taskId ∧ row.planHash = some hash ∧
    decompositionContentHash rt ((db.stepsForTask taskId).map fun s => s.toStepFields) = hash

/-- A request for this confirmation has passed its test and is about to open the task. -/
def AssignPool.Confirming (pool : AssignPool) (taskId hash : String) : Prop :=
  ∃ k log, ⟨.confirm taskId hash, .call (.updateOpen taskId) k, log⟩ ∈ pool.procs

/-- A successful cancellation leaves a cancelled task, a cancelled task stays so whatever happens next,
and the task is opened only with the plan that is being confirmed. -/
structure AssignPool.Faithful (rt : Runtime) (S : System Db AssignRequest Stmt Stmt.Resp)
    (pool : AssignPool) : Prop where
  cancels : ∀ taskId, (pool.world.cancelDraft taskId).1 = true →
    (pool.world.cancelDraft taskId).2.Cancelled taskId
  final : ∀ pool', S.Reach (· = pool) pool' → ∀ taskId, pool.world.Cancelled taskId →
    pool'.world.Cancelled taskId
  binds : ∀ taskId hash, pool.Confirming taskId hash → pool.world.Bound rt taskId hash

/-- No statement falls between the test and the write of a confirmation that changes what was tested: no
cancellation takes effect there, and no other plan is stored. -/
def assignQuiet (pool : AssignPool) (_ : AssignRequest) : Stmt → Prop
  | .updateCancelled taskId => (pool.world.cancelDraft taskId).1 = true →
      ∀ hash, ¬ pool.Confirming taskId hash
  | .replan taskId _ planHash => ∀ hash, pool.Confirming taskId hash → planHash = hash
  | _ => True

/-! ### One statement -/

section Statements

variable {rt : Runtime} {db : Db}

/-- Every stored hash is the hash of the stored steps. -/
def Db.PlanBound (rt : Runtime) (db : Db) : Prop :=
  ∀ row ∈ db.tasks.rows, ∀ hash, row.planHash = some hash →
    decompositionContentHash rt ((db.stepsForTask row.id).map fun s => s.toStepFields) = hash

/-- What the test of `confirm_plan` has seen still holds, unless the task was opened meanwhile. -/
def Db.Pending (db : Db) (taskId hash : String) : Prop :=
  ∃ row ∈ db.tasks.rows, row.id = taskId ∧ row.planHash = some hash ∧ row.status ≠ .cancelled

/-- A plan is stored with its own hash. -/
def Stmt.Proper (rt : Runtime) : Stmt → Prop
  | replan _ steps planHash => ∃ plan : DecomposedTask, steps = plan.steps.map TeamStepPlan.toDict ∧
      planHash = plan.contentHash rt
  | _ => True

/-- The statement does not touch what a pending confirmation relies on. -/
def Stmt.Spares (db : Db) (taskId hash : String) : Stmt → Prop
  | updateCancelled taskId' => (db.cancelDraft taskId').1 = true → taskId' ≠ taskId
  | replan taskId' _ planHash => taskId' = taskId → planHash = hash
  | _ => True

theorem createTask_ok {db' : Db} {taskId title request assignedBy picId roomId : String} {now : Time}
    (h : db.createTask taskId title request assignedBy picId roomId now = .ok db') :
    db'.steps = db.steps ∧ ∃ row : TaskRow, row.planHash = none ∧ db'.tasks.rows = db.tasks.rows ++ [row] := by
  unfold Db.createTask at h
  split at h
  · cases h
  split at h
  case h_1 tasks hinsert =>
    obtain rfl := Except.ok.inj h
    exact ⟨rfl, _, rfl, (Keyed.insert?_eq_some hinsert).2⟩
  case h_2 =>
    cases h

/-- The rows of a task after a plan was stored for it, and those of the other tasks. -/
theorem stepsForTask_replan {db' : Db} {taskId planHash : String} {plan : DecomposedTask}
    (h : db.setDraftPlan taskId (plan.steps.map TeamStepPlan.toDict) planHash = .ok db') (taskId' : String) :
    (db'.stepsForTask taskId').map (fun s => s.toStepFields) =
      if taskId = taskId' then plan.steps.map fun s => s.toStepFields
      else (db.stepsForTask taskId').map fun s => s.toStepFields := by
  obtain ⟨hrows, -⟩ := Db.setDraftPlan_ok h
  rw [Ledger.stepsForTask_change (by simp +contextual) hrows]
  split
  case isTrue htask =>
    have hnone : (db.steps.rows.filter fun s => decide (s.taskId = taskId')).filter
        (fun s => !decide (s.taskId = taskId)) = [] := by
      simp [htask]
    rw [hnone, List.nil_append, ← Ledger.toDict_fields]
    exact Auto.map_numbered (confirmedRow taskId) _ _ (confirmedRow_fields taskId) _ _
  case isFalse =>
    rfl

/-- Every statement of the requests keeps plans bound to their hashes. -/
theorem Db.PlanBound.handle (h : db.PlanBound rt) {s : Stmt} (hs : s.Proper rt) :
    (s.handle db).2.PlanBound rt := by
  cases s with
  | insertTask taskId title request assignedBy picId roomId now =>
      simp only [Stmt.handle]
      cases hok : db.createTask taskId title request assignedBy picId roomId now with
      | error msg =>
          exact h
      | ok db' =>
          obtain ⟨hsteps, row₀, hnone, hrows⟩ := createTask_ok hok
          intro row hrow hash hhash
          change row ∈ db'.tasks.rows at hrow
          change decompositionContentHash rt ((db'.stepsForTask row.id).map _) = hash
          rw [hrows, List.mem_append, List.mem_singleton] at hrow
          rcases hrow with hrow | rfl
          · unfold Db.stepsForTask
            rw [hsteps]
            exact h row hrow hash hhash
          · rw [hnone] at hhash
            cases hhash
  | replan taskId steps planHash =>
      obtain ⟨plan, rfl, rfl⟩ := hs
      simp only [Stmt.handle]
      cases hok : db.setDraftPlan taskId (plan.steps.map TeamStepPlan.toDict) (plan.contentHash rt) with
      | error msg =>
          exact h
      | ok db' =>
          intro row hrow hash hhash
          change row ∈ db'.tasks.rows at hrow
          change decompositionContentHash rt ((db'.stepsForTask row.id).map _) = hash
          rw [stepsForTask_replan hok]
          rw [(Db.setDraftPlan_ok hok).2.2.1] at hrow
          obtain ⟨old, hold, ⟨hid, rfl⟩ | ⟨hid, rfl⟩⟩ := Db.mem_updateTask hrow
          · rw [if_pos hid.symm]
            exact Option.some.inj hhash
          · rw [if_neg (Ne.symm hid)]
            exact h row hold hash hhash
  | selectDraft taskId =>
      exact h
  | updateOpen taskId =>
      intro row hrow hash hhash
      obtain ⟨old, hold, ⟨-, rfl⟩ | ⟨-, rfl⟩⟩ := Db.mem_updateTask hrow
      · exact h old hold hash hhash
      · exact h row hold hash hhash
  | updateCancelled taskId =>
      intro row hrow hash hhash
      have hmem : row ∈ (db.tasks.updateWhere
          (fun r => decide (r.id = taskId) && decide (r.status = .planning))
          (fun r => { r with status := .cancelled }) fun _ => rfl).rows := hrow
      obtain ⟨old, hold, heq⟩ := Keyed.mem_updateWhere.1 hmem
      split at heq
      · subst heq
        exact h old hold hash hhash
      · subst heq
        exact h row hold hash hhash

/-- A row after a statement: its id stays, and what a statement may change is its hash by a new plan and
its status by the two updates. -/
theorem Stmt.handle_row (s : Stmt) {row : TaskRow} (hrow : row ∈ db.tasks.rows) :
    ∃ row' ∈ (s.handle db).2.tasks.rows, row'.id = row.id ∧
      (row'.planHash = row.planHash ∨ ∃ steps hash, s = .replan row.id steps hash ∧ row'.planHash = some hash) ∧
      (row'.status = row.status ∨ (s = .updateOpen row.id ∧ row'.status = .opened) ∨
        s = .updateCancelled row.id ∧ row.status = .planning ∧ row'.status = .cancelled) := by
  cases s with
  | insertTask taskId title request assignedBy picId roomId now =>
      simp only [Stmt.handle]
      cases hok : db.createTask taskId title request assignedBy picId roomId now with
      | error msg =>
          exact ⟨row, hrow, rfl, .inl rfl, .inl rfl⟩
      | ok db' =>
          obtain ⟨-, row₀, -, hrows⟩ := createTask_ok hok
          have hmem : row ∈ db'.tasks.rows := by simp [hrows, hrow]
          exact ⟨row, hmem, rfl, .inl rfl, .inl rfl⟩
  | replan taskId steps planHash =>
      simp only [Stmt.handle]
      cases hok : db.setDraftPlan taskId steps planHash with
      | error msg =>
          exact ⟨row, hrow, rfl, .inl rfl, .inl rfl⟩
      | ok db' =>
          have hmem := Db.mem_updateTask_of_mem taskId (fun r => { r with planHash := some planHash })
            (fun _ => rfl) hrow
          have htasks : db'.tasks = (db.setPlanHash taskId planHash).tasks := (Db.setDraftPlan_ok hok).2.2.1
          refine ⟨_, by rw [show (Stmt.transaction db (.ok db')).2 = db' from rfl, htasks]; exact hmem, ?_⟩
          by_cases hid : row.id = taskId
          · rw [if_pos hid]
            exact ⟨rfl, .inr ⟨steps, planHash, by rw [hid], rfl⟩, .inl rfl⟩
          · rw [if_neg hid]
            exact ⟨rfl, .inl rfl, .inl rfl⟩
  | selectDraft taskId =>
      exact ⟨row, hrow, rfl, .inl rfl, .inl rfl⟩
  | updateOpen taskId =>
      have hmem := Db.mem_updateTask_of_mem taskId (fun r => { r with status := .opened }) (fun _ => rfl) hrow
      refine ⟨_, hmem, ?_⟩
      by_cases hid : row.id = taskId
      · rw [if_pos hid]
        exact ⟨rfl, .inl rfl, .inr (.inl ⟨by rw [hid], rfl⟩)⟩
      · rw [if_neg hid]
        exact ⟨rfl, .inl rfl, .inl rfl⟩
  | updateCancelled taskId =>
      have hmem : _ ∈ (db.tasks.updateWhere
          (fun r => decide (r.id = taskId) && decide (r.status = .planning))
          (fun r => { r with status := .cancelled }) fun _ => rfl).rows :=
        Keyed.mem_updateWhere.2 ⟨row, hrow, rfl⟩
      refine ⟨_, hmem, ?_⟩
      split
      case isTrue hdraft =>
        simp only [Bool.and_eq_true, decide_eq_true_eq] at hdraft
        exact ⟨rfl, .inl rfl, .inr (.inr ⟨by rw [hdraft.1], hdraft.2, rfl⟩)⟩
      case isFalse =>
        exact ⟨rfl, .inl rfl, .inl rfl⟩

theorem cancelDraft_true {taskId : String} :
    (db.cancelDraft taskId).1 = true ↔ ∃ row ∈ db.tasks.rows, row.id = taskId ∧ row.status = .planning := by
  simp [Db.cancelDraft]

theorem Db.Pending.handle {taskId hash : String} (h : db.Pending taskId hash) {s : Stmt}
    (hs : s.Spares db taskId hash) : (s.handle db).2.Pending taskId hash := by
  obtain ⟨row, hrow, rfl, hhash, hlive⟩ := h
  obtain ⟨row', hrow', hid, hplan, hstatus⟩ := s.handle_row hrow
  refine ⟨row', hrow', hid, ?_, ?_⟩
  · rcases hplan with hplan | ⟨steps, hash', rfl, hplan⟩
    · rw [hplan, hhash]
    · rw [hplan, hs rfl]
  · rcases hstatus with hstatus | ⟨-, hstatus⟩ | ⟨rfl, hdraft, -⟩
    · rwa [hstatus]
    · simp [hstatus]
    · exact absurd rfl (hs (cancelDraft_true.2 ⟨row, hrow, rfl, hdraft⟩))

theorem Db.Cancelled.handle {taskId : String} (h : db.Cancelled taskId) {s : Stmt}
    (hs : s ≠ .updateOpen taskId) : (s.handle db).2.Cancelled taskId := by
  obtain ⟨row, hrow, rfl, hcancelled⟩ := h
  obtain ⟨row', hrow', hid, -, hstatus⟩ := s.handle_row hrow
  refine ⟨row', hrow', hid, ?_⟩
  rcases hstatus with hstatus | ⟨hopen, -⟩ | ⟨-, -, hstatus⟩
  · rw [hstatus, hcancelled]
  · exact absurd hopen hs
  · exact hstatus

end Statements

/-! ### Runs -/

/-- A request is at its beginning, has passed the test of `confirm_plan`, or issues nothing more. -/
def RequestAt (rt : Runtime) (db : Db) (p : Proc AssignRequest Stmt Stmt.Resp) : Prop :=
  p.prog = p.party.prog rt ∨
    (∃ taskId hash, p.party = .confirm taskId hash ∧
      p.prog = (confirmUpdate taskId).bind (fun _ => .ret ()) ∧ db.Pending taskId hash) ∨
    ∀ s k, p.prog ≠ .call s k

/-- What holds in every pool of a quiet run. -/
structure AssignInv (rt : Runtime) (pool : AssignPool) : Prop where
  plans : pool.world.PlanBound rt
  requests : ∀ p ∈ pool.procs, RequestAt rt pool.world p

section Runs

variable {rt : Runtime}

theorem ofExcept_done {r : Except String Unit} (s : Stmt) (k : s.Resp → Prog Stmt Stmt.Resp Unit) :
    Prog.ofExcept r ≠ .call s k := by
  cases r <;> simp [Prog.ofExcept]

/-- A request at a statement: the statement is proper, and what comes after it is again one of the three. -/
theorem RequestAt.call {db : Db} {party : AssignRequest} {s : Stmt} {k : s.Resp → Prog Stmt Stmt.Resp Unit}
    {log : Log Stmt Stmt.Resp} (h : RequestAt rt db ⟨party, .call s k, log⟩) :
    s.Proper rt ∧
      (∀ taskId, s = .updateOpen taskId → ∃ hash, party = .confirm taskId hash ∧ db.Pending taskId hash) ∧
      ∀ log', RequestAt rt (s.handle db).2 ⟨party, k (s.handle db).1, log'⟩ := by
  rcases h with hstart | ⟨taskId, hash, hparty, hprog, hpending⟩ | hdone
  · cases party with
    | create taskId title request assignedBy picId roomId now =>
        obtain ⟨rfl, hk⟩ := Prog.call.inj hstart
        obtain rfl := eq_of_heq hk
        exact ⟨trivial, by simp, fun _ => .inr (.inr ofExcept_done)⟩
    | draft taskId plan =>
        obtain ⟨rfl, hk⟩ := Prog.call.inj hstart
        obtain rfl := eq_of_heq hk
        exact ⟨⟨plan, rfl, rfl⟩, by simp, fun _ => .inr (.inr ofExcept_done)⟩
    | confirm taskId hash =>
        obtain ⟨rfl, hk⟩ := Prog.call.inj hstart
        obtain rfl := eq_of_heq hk
        refine ⟨trivial, by simp, fun log' => ?_⟩
        simp only [Stmt.handle]
        cases hfind : db.tasks.find? taskId with
        | none =>
            exact .inr (.inr (by simp))
        | some row =>
            simp only [Option.map_some]
            by_cases htest : row.status ≠ .planning ∨ row.planHash ≠ some hash
            · exact .inr (.inr (by simp [htest]))
            · rw [if_neg htest]
              rw [not_or, not_not, not_not] at htest
              obtain ⟨hmem, hid⟩ := Keyed.find?_eq_some.1 hfind
              exact .inr (.inl ⟨taskId, hash, rfl, rfl, row, hmem, hid, htest.2, by simp [htest.1]⟩)
    | cancel taskId =>
        obtain ⟨rfl, hk⟩ := Prog.call.inj hstart
        obtain rfl := eq_of_heq hk
        exact ⟨trivial, by simp, fun _ => .inr (.inr (by simp))⟩
  · obtain rfl : party = .confirm taskId hash := hparty
    obtain ⟨rfl, hk⟩ := Prog.call.inj hprog
    obtain rfl := eq_of_heq hk
    refine ⟨trivial, ?_, fun _ => .inr (.inr (by simp [Prog.bind]))⟩
    intro taskId' hopen
    obtain rfl := Stmt.updateOpen.inj hopen
    exact ⟨hash, rfl, hpending⟩
  · exact absurd rfl (hdone s k)

/-- A quiet statement spares every confirmation under way. -/
theorem spares_of_quiet {pool : AssignPool} {party : AssignRequest} {s : Stmt}
    (hquiet : assignQuiet pool party s) {taskId hash : String} (h : pool.Confirming taskId hash) :
    s.Spares pool.world taskId hash := by
  cases s with
  | updateCancelled taskId' =>
      rintro hcancels rfl
      exact hquiet hcancels hash h
  | replan taskId' steps planHash =>
      rintro rfl
      exact hquiet hash h
  | _ =>
      exact trivial

/-- A request keeps its place while others run quiet statements. -/
theorem RequestAt.other {pool : AssignPool} {p : Proc AssignRequest Stmt Stmt.Resp} (hp : p ∈ pool.procs)
    (h : RequestAt rt pool.world p) (party : AssignRequest) {s : Stmt} (hquiet : assignQuiet pool party s) :
    RequestAt rt (s.handle pool.world).2 p := by
  rcases h with hstart | ⟨taskId, hash, hparty, hprog, hpending⟩ | hdone
  · exact .inl hstart
  · have hconfirming : pool.Confirming taskId hash := by
      obtain ⟨party, prog, log⟩ := p
      obtain rfl : party = .confirm taskId hash := hparty
      obtain rfl : prog = (confirmUpdate taskId).bind (fun _ => .ret ()) := hprog
      exact ⟨_, log, hp⟩
    exact .inr (.inl ⟨taskId, hash, hparty, hprog, hpending.handle (spares_of_quiet hquiet hconfirming)⟩)
  · exact .inr (.inr hdone)

/-- One step of a quiet run keeps the invariant, and keeps cancelled tasks cancelled. -/
theorem AssignInv.step {pool pool' : AssignPool} (h : AssignInv rt pool)
    (hstep : (assignSystem rt assignQuiet).Step pool pool') :
    AssignInv rt pool' ∧ ∀ taskId, pool.world.Cancelled taskId → pool'.world.Cancelled taskId := by
  cases hstep with
  | @run w before after party s k log hquiet =>
      have hself := h.requests ⟨party, .call s k, log⟩ (by simp)
      obtain ⟨hproper, hopens, hnext⟩ := hself.call
      refine ⟨⟨h.plans.handle hproper, ?_⟩, ?_⟩
      · intro p hp
        have hp' : p ∈ before ∨ p = ⟨party, k (s.handle w).1, log ++ [⟨s, (s.handle w).1⟩]⟩ ∨ p ∈ after := by
          simpa [assignSystem] using hp
        rcases hp' with hp | rfl | hp
        · exact (h.requests p (by simp [hp])).other (by simp [hp]) party hquiet
        · exact hnext _
        · exact (h.requests p (by simp [hp])).other (by simp [hp]) party hquiet
      · intro taskId hcancelled
        refine hcancelled.handle ?_
        rintro rfl
        obtain ⟨hash, -, row, hrow, hid, -, hlive⟩ := hopens taskId rfl
        obtain ⟨row', hrow', hid', hstatus⟩ := hcancelled
        rw [eq_of_key w.tasks.nodup hrow hrow' (hid.trans hid'.symm)] at hlive
        exact hlive hstatus
  | start hstart =>
      refine ⟨⟨h.plans, ?_⟩, fun _ hcancelled => hcancelled⟩
      intro p hp
      rcases List.mem_append.1 hp with hp | hp
      · exact h.requests p hp
      · obtain rfl := List.mem_singleton.1 hp
        exact .inl hstart
  | leave =>
      refine ⟨⟨h.plans, ?_⟩, fun _ hcancelled => hcancelled⟩
      intro p hp
      rcases List.mem_append.1 hp with hp | hp
      · exact h.requests p (by simp [hp])
      · exact h.requests p (by simp [hp])
  | ext hext =>
      exact hext.elim

/-- The invariant holds along a quiet run, and what was cancelled at its beginning is cancelled at its
end. -/
theorem AssignInv.run {init : AssignPool → Prop} {pool : AssignPool} (hinit : ∀ pool, init pool → AssignInv rt pool)
    (h : (assignSystem rt assignQuiet).Reach init pool) :
    AssignInv rt pool ∧ ∀ taskId, (∀ pool, init pool → pool.world.Cancelled taskId) →
      pool.world.Cancelled taskId := by
  induction h with
  | init h =>
      exact ⟨hinit _ h, fun taskId hall => hall _ h⟩
  | step _ hstep ih =>
      obtain ⟨hinv, hcancelled⟩ := ih.1.step hstep
      exact ⟨hinv, fun taskId hall => hcancelled taskId (ih.2 taskId hall)⟩

theorem AssignInv.empty : AssignInv rt ⟨Db.empty, []⟩ where
  plans := by
    simp [Db.PlanBound, Db.empty, Keyed.empty]
  requests := by
    simp

/-- In every run whose statements all spare the confirmations under way, a confirmation binds the plan it
was shown and a cancelled draft stays cancelled. -/
theorem confirm_binds_of_quiet {pool : AssignPool} (h : (assignSystem rt assignQuiet).Reach assignInit pool) :
    pool.Faithful rt (assignSystem rt assignQuiet) := by
  have hinit : ∀ pool, assignInit pool → AssignInv rt pool := by
    rintro pool rfl
    exact .empty
  obtain ⟨hinv, -⟩ := AssignInv.run hinit h
  constructor
  case cancels =>
    intro taskId hcancels
    obtain ⟨row, hrow, rfl, hdraft⟩ := cancelDraft_true.1 hcancels
    refine ⟨{ row with status := .cancelled }, ?_, rfl, rfl⟩
    exact List.mem_map.2 ⟨row, hrow, by simp [hdraft]⟩
  case final =>
    intro pool' hreach taskId hcancelled
    refine (AssignInv.run ?_ hreach).2 taskId ?_
    · rintro _ rfl
      exact hinv
    · rintro _ rfl
      exact hcancelled
  case binds =>
    rintro taskId hash ⟨k, log, hmem⟩
    obtain ⟨-, hopens, -⟩ := (hinv.requests _ hmem).call
    obtain ⟨hash', hparty, row, hrow, hid, hhash, -⟩ := hopens taskId rfl
    obtain ⟨-, rfl⟩ := AssignRequest.confirm.inj hparty
    refine ⟨row, hrow, hid, hhash, ?_⟩
    rw [← hid]
    exact hinv.plans row hrow hash hhash

/-- A stored draft. -/
def raceDraft : Db :=
  (Stmt.handle (.replan "t" (Ledger.samplePlan.steps.map TeamStepPlan.toDict) Ledger.sampleHash)
    (Stmt.handle (.insertTask "t" "Title" "Request" "ceo" "" "" 0) Db.empty).2).2

/-- Its confirmation after the test. -/
def raceConfirm : Proc AssignRequest Stmt Stmt.Resp where
  party := .confirm "t" Ledger.sampleHash
  prog := (confirmUpdate "t").bind fun _ => .ret ()
  log := [⟨.selectDraft "t", some (some Ledger.sampleHash, .planning)⟩]

/-- A quiet run up to the test of a confirmation: what it is about to open is what it was shown. -/
theorem raceConfirm_bound :
    (assignSystem Ledger.sampleRuntime assignQuiet).Reach assignInit ⟨raceDraft, [raceConfirm]⟩ ∧
      raceDraft.Bound Ledger.sampleRuntime "t" Ledger.sampleHash := by
  have hempty : (assignSystem Ledger.sampleRuntime assignQuiet).Reach assignInit ⟨Db.empty, []⟩ := .init rfl
  have hcreate := ((hempty.step (.start (p := .create "t" "Title" "Request" "ceo" "" "" 0) rfl)).runLast
    trivial rfl).leaveLast
  have hdraft : (assignSystem Ledger.sampleRuntime assignQuiet).Reach assignInit ⟨raceDraft, []⟩ := by
    refine ((hcreate.step (.start (p := .draft "t" Ledger.samplePlan) rfl)).runLast ?_ rfl).leaveLast
    rintro hash ⟨k, log, hmem⟩
    cases List.mem_singleton.1 hmem
  have hstart : (assignSystem Ledger.sampleRuntime assignQuiet).Step ⟨raceDraft, []⟩ _ :=
    .start (p := .confirm "t" Ledger.sampleHash) rfl
  have hreach : (assignSystem Ledger.sampleRuntime assignQuiet).Reach assignInit ⟨raceDraft, [raceConfirm]⟩ :=
    (hdraft.step hstart).runLast trivial rfl
  exact ⟨hreach, (confirm_binds_of_quiet hreach).binds "t" Ledger.sampleHash
    ⟨_, _, List.mem_singleton.2 rfl⟩⟩

/-- Requests in any order, without restriction. -/
def raceSystem : System Db AssignRequest Stmt Stmt.Resp :=
  assignSystem Ledger.sampleRuntime fun _ _ _ => True

theorem raceSystem_free (pool : AssignPool) (p : AssignRequest) (s : Stmt) : raceSystem.allows pool p s :=
  trivial

theorem raceConfirm_reach : raceSystem.Reach assignInit ⟨raceDraft, [raceConfirm]⟩ := by
  have hempty : raceSystem.Reach assignInit ⟨Db.empty, []⟩ := .init rfl
  have hcreate := hempty.serve raceSystem_free (fun _ => rfl) (p := .create "t" "Title" "Request" "ceo" "" "" 0) rfl
  have hdraft : raceSystem.Reach assignInit ⟨raceDraft, []⟩ :=
    hcreate.serve raceSystem_free (fun _ => rfl) (p := .draft "t" Ledger.samplePlan) rfl
  have hstart : raceSystem.Step ⟨raceDraft, []⟩ _ := .start (p := .confirm "t" Ledger.sampleHash) rfl
  exact (hdraft.step hstart).runLast trivial rfl

/-- A draft confirmed and cancelled at once: the cancellation falls between the test and the write, it
reports success, and the task is opened all the same. -/
theorem confirm_not_binding :
    ¬ ∀ pool : AssignPool, raceSystem.Reach assignInit pool →
      AssignPool.Faithful Ledger.sampleRuntime raceSystem pool := by
  intro hall
  have hcancel : raceSystem.Reach assignInit ⟨(raceDraft.cancelDraft "t").2, [raceConfirm]⟩ :=
    raceConfirm_reach.serve raceSystem_free (fun _ => rfl) (p := .cancel "t") rfl
  have hsame : raceSystem.Reach (· = ⟨(raceDraft.cancelDraft "t").2, [raceConfirm]⟩)
      ⟨(raceDraft.cancelDraft "t").2, [] ++ [raceConfirm]⟩ := .init rfl
  have hopen := hsame.runLast trivial rfl
  have hcancelled := (hall _ raceConfirm_reach).cancels "t" (by decide)
  obtain ⟨row, hrow, -, hstatus⟩ := (hall _ hcancel).final _ hopen "t" hcancelled
  obtain rfl := List.mem_singleton.1 hrow
  cases hstatus

end Runs

end ProjectManager
