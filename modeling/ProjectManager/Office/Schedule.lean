import ProjectManager.Office.Coupling
import ProjectManager.Store.Agreement

/-!
# Schedules of the office

An `OfficeAct` is one decision of a schedule: a tick starts, a process goes on for some calls, a process
leaves.  `reach_exec` says that every schedule is a run, whatever it decides, and `reach_confirmed` that a
run can begin with any plan.  A decision that is not possible changes nothing.
-/

namespace ProjectManager

open Process

/-! ### Schedules -/

/-- One decision of a schedule. -/
inductive OfficeAct where
  /-- a tick starts -/
  | start
  /-- the process at place `i` issues up to `n` calls -/
  | call (i n : ℕ)
  /-- the process at place `i` leaves -/
  | leave (i : ℕ)

section Schedules

variable (cfg : OfficeConfig) (staffOk : List (String × String) → Prop)
  (allows : OfficePool → OfficeParty → OfficeCall → Prop) (ok : OfficePool → OfficeParty → OfficeCall → Bool)

/-- Carries out one decision; the test stands for what the run allows. -/
def OfficeAct.exec : OfficeAct → OfficePool → OfficePool
  | start, pool =>
      if pool.procs.all fun q => decide (q.party ≠ .ticker) then
        ⟨pool.world, pool.procs ++ [System.fresh (.ticker, tickerProg cfg)]⟩
      else
        pool
  | call i n, pool => (officeSystem cfg staffOk allows).runAt ok i n pool
  | leave i, pool => ⟨pool.world, pool.procs.eraseIdx i⟩

/-- Carries out a schedule. -/
def execAll (acts : List OfficeAct) (pool : OfficePool) : OfficePool :=
  acts.foldl (fun pool act => act.exec cfg staffOk allows ok pool) pool

variable {cfg staffOk allows ok}

theorem reach_act (hok : ∀ pool p e, ok pool p e = true → allows pool p e) (act : OfficeAct)
    {init : OfficePool → Prop} {pool : OfficePool} (h : (officeSystem cfg staffOk allows).Reach init pool) :
    (officeSystem cfg staffOk allows).Reach init (act.exec cfg staffOk allows ok pool) := by
  cases act with
  | start =>
      by_cases hfree : (pool.procs.all fun q => decide (q.party ≠ .ticker)) = true
      · rw [OfficeAct.exec, if_pos hfree]
        refine h.step (.start ⟨rfl, rfl, fun q hq => ?_⟩)
        simpa using List.all_eq_true.1 hfree q hq
      · rw [OfficeAct.exec, if_neg hfree]
        exact h
  | call i n =>
      exact h.runAt hok i n
  | leave i =>
      exact h.leaveAt i

/-- Every schedule is a run. -/
theorem reach_exec (hok : ∀ pool p e, ok pool p e = true → allows pool p e) (acts : List OfficeAct)
    {init : OfficePool → Prop} {pool : OfficePool} (h : (officeSystem cfg staffOk allows).Reach init pool) :
    (officeSystem cfg staffOk allows).Reach init (execAll cfg staffOk allows ok acts pool) := by
  induction acts generalizing pool with
  | nil =>
      exact h
  | cons act acts ih =>
      exact ih (reach_act hok act h)

/-- The answers to questions change only from outside. -/
theorem env_handle (e : OfficeCall) (w : Office) : (e.handle cfg.rt w).2.env = w.env := by
  cases e <;> rfl

theorem env_runAt (i n : ℕ) (pool : OfficePool) :
    ((officeSystem cfg staffOk allows).runAt ok i n pool).world.env = pool.world.env := by
  induction n generalizing pool with
  | zero =>
      rfl
  | succ n ih =>
      unfold System.runAt
      split
      · split
        · rw [ih]
          exact env_handle _ _
        · rfl
      · rfl

/-- A schedule leaves the answers to questions as they are. -/
theorem env_execAll (acts : List OfficeAct) (pool : OfficePool) :
    (execAll cfg staffOk allows ok acts pool).world.env = pool.world.env := by
  induction acts generalizing pool with
  | nil =>
      rfl
  | cons act acts ih =>
      refine (ih _).trans ?_
      cases act with
      | start =>
          simp only [OfficeAct.exec]
          split <;> rfl
      | call i n =>
          exact env_runAt i n pool
      | leave i =>
          rfl

/-! ### Beginnings -/

/-- The store with one task `t` that is being planned. -/
def Ledger.created (rt : Runtime) : Ledger :=
  ((StoreOp.createTask "t" "Title" "Request" "ceo" "" "").run rt (.empty 0)).2

/-- The hash of a plan. -/
def DecomposedTask.hash (rt : Runtime) (plan : DecomposedTask) : String :=
  decompositionContentHash rt (plan.steps.map fun s => s.toStepFields)

/-- The store after the plan of `t` was drafted. -/
def Ledger.drafted (rt : Runtime) (plan : DecomposedTask) : Ledger :=
  ((StoreOp.setDraftPlan "t" (plan.steps.map TeamStepPlan.toDict) (plan.hash rt)).run rt (.created rt)).2

/-- The store after the plan of `t` was confirmed. -/
def Ledger.confirmed (rt : Runtime) (plan : DecomposedTask) : Ledger :=
  ((StoreOp.confirmPlan "t" (plan.hash rt)).run rt (.drafted rt plan)).2

/-- The office with a store and nothing else. -/
def Office.holding (env : (q : Query) → q.Resp) (l : Ledger) : Office :=
  { Office.opening 0 env with ledger := l }

/-- An operation of a user of the store. -/
theorem reach_client {init : OfficePool → Prop} {w : Office} {procs : List (Proc OfficeParty OfficeCall OfficeCall.Resp)}
    (o : StoreOp) (hclient : o.client = true) (hpre : o.Pre cfg.rt w.ledger)
    (h : (officeSystem cfg staffOk allows).Reach init ⟨w, procs⟩) :
    (officeSystem cfg staffOk allows).Reach init
      ⟨{ w with ledger := (o.run cfg.rt w.ledger).2 }, procs⟩ :=
  h.step (.ext (.client o hclient hpre))

/-- The office after an operation of a user of the store. -/
def afterOp (rt : Runtime) (o : StoreOp) (pool : OfficePool) : OfficePool :=
  ⟨{ pool.world with ledger := (o.run rt pool.world.ledger).2 }, pool.procs⟩

theorem reach_afterOp {init : OfficePool → Prop} {pool : OfficePool} (o : StoreOp) (hclient : o.client = true)
    (hpre : o.Pre cfg.rt pool.world.ledger) (h : (officeSystem cfg staffOk allows).Reach init pool) :
    (officeSystem cfg staffOk allows).Reach init (afterOp cfg.rt o pool) :=
  h.step (.ext (.client o hclient hpre))

/-- `preview_adjust_team_task`, with the task that it has read: the draft is stored, or nothing is. -/
def draftOp (rt : Runtime) (staff : List (String × String)) (complete : ℕ → String → Except String LlmResult) :
    Option TeamTask → StoreOp
  | none => .cleanupStaleDrafts
  | some task =>
      match previewAdjust rt task staff complete with
      | .error _ => .cleanupStaleDrafts
      | .ok p => .setAmendmentDraft task.id p.basePlanHash p.newPlanHash p.newPendingSteps p.oldPendingStepIds

/-- A user reads the task `t` and drafts an amendment. -/
def afterDraft (rt : Runtime) (staff : List (String × String)) (complete : ℕ → String → Except String LlmResult)
    (pool : OfficePool) : OfficePool :=
  afterOp rt (draftOp rt staff complete (pool.world.ledger.db.get "t")) (afterOp rt (.get "t") pool)

theorem reach_afterDraft {init : OfficePool → Prop} {pool : OfficePool} (staff : List (String × String))
    (complete : ℕ → String → Except String LlmResult) (h : (officeSystem cfg staffOk allows).Reach init pool) :
    (officeSystem cfg staffOk allows).Reach init (afterDraft cfg.rt staff complete pool) := by
  refine reach_afterOp _ ?_ ?_ (reach_afterOp (.get "t") rfl trivial h)
  · unfold draftOp
    split
    · rfl
    · split <;> rfl
  · unfold draftOp
    split
    · exact trivial
    · rename_i task hget
      split
      · exact trivial
      · rename_i p hpreview
        refine ⟨task, List.mem_append_right _ ?_, rfl, staff, complete, p, hpreview, rfl, rfl, rfl, rfl⟩
        rw [hget]
        exact List.mem_singleton.2 rfl

theorem Ledger.created_unopened (rt : Runtime) : (Ledger.created rt).Unopened "t" :=
  ⟨_, List.mem_singleton.2 rfl, rfl, rfl⟩

/-- A run can begin with any plan and any environment. -/
theorem reach_confirmed (plan : DecomposedTask) {env : (q : Query) → q.Resp}
    (hstaff : staffOk (env .assignableStaff)) :
    (officeSystem cfg staffOk allows).Reach (officeInit staffOk) ⟨.holding env (.confirmed cfg.rt plan), []⟩ := by
  have hopening : (officeSystem cfg staffOk allows).Reach (officeInit staffOk) ⟨.opening 0 env, []⟩ :=
    .init ⟨0, env, hstaff, rfl⟩
  have hcreate : (officeSystem cfg staffOk allows).Reach (officeInit staffOk) ⟨.holding env (.created cfg.rt), []⟩ :=
    reach_client (.createTask "t" "Title" "Request" "ceo" "" "") rfl trivial hopening
  have hpre : (StoreOp.setDraftPlan "t" (plan.steps.map TeamStepPlan.toDict) (plan.hash cfg.rt)).Pre cfg.rt
      (.created cfg.rt) := ⟨Ledger.created_unopened cfg.rt, plan, rfl, rfl⟩
  have hdraft : (officeSystem cfg staffOk allows).Reach (officeInit staffOk)
      ⟨.holding env (.drafted cfg.rt plan), []⟩ := reach_client _ rfl hpre hcreate
  exact reach_client (.confirmPlan "t" (plan.hash cfg.rt)) rfl trivial hdraft

end Schedules

/-! ### A small office -/

/-- Two employees, and a language model that writes the same draft every time and reviews it with `review`. -/
def sampleEnv (review : String) : (q : Query) → q.Resp
  | .pidAlive _ => false
  | .nextPid => 7
  | .assignableStaff => [("dev", "Dev"), ("qa", "QA")]
  | .approvalStatus _ => none
  | .complete (.review ..) => .ok ⟨review, none⟩
  | .complete _ => .ok ⟨"draft", some 1⟩
  | .search .. => .ok ""
  | .proposeConsults .. => .ok []
  | .askColleague .. => .ok ("", 0)
  | .externalWrite .. => .ok true

/-- Nothing is assumed of the roster. -/
def anyStaff (_ : List (String × String)) : Prop :=
  True

/-- A schedule under which every call is let through. -/
def sampleRun (cfg : OfficeConfig) (staffOk : List (String × String) → Prop) (acts : List OfficeAct)
    (pool : OfficePool) : OfficePool :=
  execAll cfg staffOk anyCall (fun _ _ _ => true) acts pool

theorem reach_sampleRun {cfg : OfficeConfig} {staffOk : List (String × String) → Prop} {init : OfficePool → Prop}
    (acts : List OfficeAct) {pool : OfficePool} (h : (officeSystem cfg staffOk anyCall).Reach init pool) :
    (officeSystem cfg staffOk anyCall).Reach init (sampleRun cfg staffOk acts pool) :=
  reach_exec (fun _ _ _ _ => trivial) acts h

/-- Settings with a cap of ten and two workers at a time. -/
def sampleConfig : OfficeConfig where
  rt := Ledger.sampleRuntime
  costCapUsd := 10
  concurrency := 2
  hasApiKey := false
  external := fun _ => false
  parseCheckVerdict := fun _ => .ok ⟨true, [], 1⟩
  parseReviewVerdict := fun text => .ok (if text = "pass" then ⟨true, []⟩ else ⟨false, [text]⟩)

/-- A task of one step, before its first tick. -/
def oneStepPool : OfficePool :=
  ⟨.holding (sampleEnv "pass") (.confirmed sampleConfig.rt Ledger.samplePlan), []⟩

end ProjectManager
