import ProjectManager.Office.TickerContract

/-!
# When the ticker retries

`tickerProg_retries`: the ticker counts a retry of a step that its snapshot shows as running, once it has read the counter
and found it below the limit; it clears the counter only right after it has failed such a step; and it starts a worker at
most once for a step, which waits, or whose retry it has counted, or whose approval was given.
-/

namespace ProjectManager

open Process Process.Prog

/-! ### The contract -/

/-- The call starts a worker for the step. -/
def OfficeCall.spawns : OfficeCall → String → String → Bool
  | .spawnStep s, taskId, stepId => decide (s.taskId = taskId) && decide (s.stepId = stepId)
  | _, _, _ => false

/-- The tick has started no worker for the step. -/
def Unspawned (log : OfficeLog) (taskId stepId : String) : Prop :=
  ∀ x ∈ log, x.1.spawns taskId stepId = false

/-- The tick has cleared no counter. -/
def Uncleared (log : OfficeLog) : Prop :=
  ∀ key, ¬ log.Has (.setRetries key 0) ()

/-- When the counter of a running step is set, and to what. -/
inductive Recount (log : OfficeLog) (task : TeamTask) (step : TeamStep) : ℕ → Prop where
  | retry {retries : ℕ} (hcalm : Calm log) (hread : log.Has (.getRetries (retryKey task step)) retries)
      (hfew : retries < maxStepRetries) : Recount log task step (retries + 1)
  | clear {before : OfficeLog} {written : Bool} (hcalm : Calm before)
      (hlog : log = before ++ [⟨.store (.markFailed task.id step.stepId step.attemptId), written⟩]) :
      Recount log task step 0

/-- Why a worker is started for a step. -/
inductive Due (log : OfficeLog) (task : TeamTask) (step : TeamStep) : Prop where
  | waits (hpending : step.status = .pending)
  | retried {count : ℕ} (hrunning : step.status = .running)
      (hcounted : log.Has (.setRetries (retryKey task step) (count + 1)) ())
  | approved {id : ℕ} (hawaiting : step.status = .awaitingApproval) (hid : step.approvalId = some id)
      (hgiven : log.Has (.ask (.approvalStatus id)) (some .approved))

/-- What the ticker keeps to about the counters. -/
def RetryObeys (log : OfficeLog) : OfficeCall → Prop
  | .setRetries key count => ∃ task step, Snap log task ∧ step ∈ task.steps ∧ step.status = .running ∧
      key = retryKey task step ∧ Recount log task step count
  | .store (.reserveStep taskId stepId) => Uncleared log ∧ Unspawned log taskId stepId
  | .spawnStep s => Unspawned log s.taskId s.stepId ∧ ∃ task step, Snap log task ∧ step ∈ task.steps ∧
      s.taskId = task.id ∧ s.stepId = step.stepId ∧ Due log task step
  | _ => True

/-- The calls that the contract is about. -/
def OfficeCall.launches : OfficeCall → Bool
  | .setRetries .. => true
  | .store (.reserveStep ..) => true
  | .spawnStep _ => true
  | _ => false

theorem RetryObeys.of_idle {log : OfficeLog} {e : OfficeCall} (h : e.launches = false) : RetryObeys log e := by
  unfold RetryObeys
  split
  · cases h
  · cases h
  · cases h
  · exact trivial

theorem CalmCall.idle {e : OfficeCall} (h : CalmCall e) : e.launches = false := by
  unfold OfficeCall.launches
  split
  · cases h
  · cases h
  · cases h
  · rfl

/-- A part of the tick keeps to the contract; `Q` says what its result means. -/
abbrev Retries {α : Type} (staffOk : List (String × String) → Prop) (p : OfficeProg α) (log : OfficeLog)
    (Q : OfficeLog → α → Prop) : Prop :=
  p.Follows (Plausible staffOk) RetryObeys Q (fun _ _ => True) log

/-- A part of the tick that neither counts, claims nor starts anything. -/
abbrev Inactive {α : Type} (p : OfficeProg α) : Prop :=
  p.Only (fun e => e.launches = false) fun _ => True

section Parts

variable {α : Type} {staffOk : List (String × String) → Prop} {tasks : List TeamTask} {task : TeamTask} {step : TeamStep}
  {log log' : OfficeLog}

theorem Inactive.retries {p : OfficeProg α} (h : Inactive p) : Retries staffOk p log fun _ _ => True :=
  (h.follows (fun _ _ he => .of_idle he) log).mono (fun _ _ _ => trivial) fun _ _ _ => trivial

/-- A calm program, wherever it stands. -/
theorem retries_of_calm {p : OfficeProg α} {R : α → Prop} (hp : p.Only CalmCall R) :
    Retries staffOk p log fun log' a => Added CalmCall log log' ∧ R a :=
  (hp.follows (fun _ _ he => .of_idle he.idle) log).mono (fun _ _ h => h) fun _ _ _ => trivial

theorem Calm.unspawned (h : Calm log) (taskId stepId : String) : Unspawned log taskId stepId := by
  intro x hx
  have hcalm := h x hx
  unfold OfficeCall.spawns
  split
  · rename_i hx'
    rw [hx'] at hcalm
    cases hcalm
  · rfl

theorem Calm.uncounted (h : Calm log) (key : String) (count : ℕ) : ¬ log.Has (.setRetries key count) () := by
  intro hset
  have hcalm : (OfficeCall.setRetries key count).calm = true := h _ hset
  cases hcalm

/-! ### Parts that leave the counters alone -/

theorem idle_insertStep (d : StepDict) : Inactive (insertStep task d) :=
  ⟨rfl, fun r => Only.ofExcept r⟩

theorem idle_escalate (task : TeamTask) (step : Option TeamStep) (kind message : String) :
    Inactive (escalate task step kind message) :=
  (only_escalate task step kind message).mono fun _ => CalmCall.idle

theorem idle_milestone (task : TeamTask) (kind message : String) : Inactive (milestone task kind message) :=
  (only_milestone task kind message).mono fun _ => CalmCall.idle

theorem idle_maybeInsertReview (task : TeamTask) (step : TeamStep) : Inactive (maybeInsertReview task step) := by
  unfold maybeInsertReview
  split
  · trivial
  split
  · trivial
  refine ⟨rfl, fun staff => ?_⟩
  simp only [ret_bind]
  split
  · exact (idle_milestone ..).bind fun _ _ => trivial
  · exact (idle_insertStep _).bind fun _ _ => trivial

theorem idle_actOnVerdict (task : TeamTask) (content step : TeamStep) (verdict : Option Artifact) :
    Inactive (actOnVerdict task content step verdict) := by
  cases verdict with
  | none =>
      simp only [actOnVerdict]
      split
      · exact (idle_insertStep _).bind fun _ _ => trivial
      · trivial
  | some verdict =>
      simp only [actOnVerdict]
      split
      · trivial
      split
      · exact ⟨rfl, fun _ => (idle_escalate ..).bind fun _ _ => trivial⟩
      split
      · trivial
      · exact (idle_insertStep _).bind fun _ _ => trivial

theorem idle_maybeHandleReviewDone (task : TeamTask) (step : TeamStep) : Inactive (maybeHandleReviewDone task step) := by
  unfold maybeHandleReviewDone
  split
  · split
    · trivial
    · exact ⟨rfl, fun verdict => idle_actOnVerdict ..⟩
  · trivial

theorem idle_maybeInsertReviewAfterRework (task : TeamTask) (step : TeamStep) :
    Inactive (maybeInsertReviewAfterRework task step) := by
  unfold maybeInsertReviewAfterRework
  split
  · split
    · trivial
    · simp only
      split
      · trivial
      refine ⟨rfl, fun staff => ?_⟩
      simp only [ret_bind]
      split
      · exact (idle_milestone ..).bind fun _ _ => trivial
      · exact (idle_insertStep _).bind fun _ _ => trivial
  · trivial

theorem idle_reviewRule (task : TeamTask) (step : TeamStep) : Inactive (reviewRule task step) := by
  unfold reviewRule
  split
  · trivial
  refine (idle_maybeInsertReview task step).bind fun inserted _ => ?_
  split
  · trivial
  refine (idle_maybeHandleReviewDone task step).bind fun handled _ => ?_
  split
  · exact ⟨rfl, fun _ => trivial⟩
  refine (idle_maybeInsertReviewAfterRework task step).bind fun inserted _ => ?_
  split <;> trivial

theorem idle_expire (task : TeamTask) (step : TeamStep) : Inactive (expire task step) := by
  refine ((only_killStep step).mono fun _ => CalmCall.idle).bind fun _ _ => ⟨rfl, fun _ => ⟨rfl, fun _ => ?_⟩⟩
  exact (idle_escalate ..).bind fun _ _ => trivial

theorem idle_finish (cfg : OfficeConfig) (task : TeamTask) : Inactive (finish cfg task) := by
  unfold finish
  split
  · refine ((only_aggregate cfg task).mono fun _ => CalmCall.idle).bind fun summary _ => ?_
    refine ((only_recordAggregateCost task summary.2).mono fun _ => CalmCall.idle).bind fun _ _ => ?_
    exact (idle_milestone ..).bind fun _ _ => ⟨rfl, fun _ => trivial⟩
  have hdead : Inactive (deadEndResult task) := by
    unfold deadEndResult
    split
    · trivial
    · exact ⟨rfl, fun _ => (idle_escalate ..).bind fun _ _ => trivial⟩
  exact hdead.bind fun _ _ => trivial

/-! ### Claims and starts -/

/-- A call of an action on one step: it starts workers for this step only, and sets no counter. -/
def StartsOnly (taskId stepId : String) (e : OfficeCall) : Prop :=
  (∀ key count, e ≠ .setRetries key count) ∧ ∀ t i, e.spawns t i = true → t = taskId ∧ i = stepId

theorem StartsOnly.of_idle {taskId stepId : String} {e : OfficeCall} (h : e.launches = false) :
    StartsOnly taskId stepId e := by
  constructor
  · rintro key count rfl
    cases h
  · intro t i hspawns
    unfold OfficeCall.spawns at hspawns
    split at hspawns
    · cases h
    · cases hspawns

theorem only_reserveAndSpawn (task : TeamTask) (step : TeamStep) :
    (reserveAndSpawn task step).Only (StartsOnly task.id step.stepId) fun _ => True := by
  unfold reserveAndSpawn
  refine Only.bind (F := fun _ => True) ⟨.of_idle rfl, fun _ => trivial⟩ fun rosterOk _ => ?_
  split
  · refine ⟨⟨by simp, by simp [OfficeCall.spawns]⟩, fun r => ?_⟩
    refine (Only.ofExcept r).bind fun attemptId _ => ⟨⟨by simp, fun t i hspawns => ?_⟩, fun pid => ?_⟩
    · simp only [OfficeCall.spawns, Bool.and_eq_true, decide_eq_true_eq] at hspawns
      exact ⟨hspawns.1.symm, hspawns.2.symm⟩
    · exact ⟨.of_idle rfl, fun _ => ⟨.of_idle rfl, fun _ => trivial⟩⟩
  · exact ⟨.of_idle rfl, fun _ => ((idle_escalate ..).mono fun _ => .of_idle).bind fun _ _ => trivial⟩

theorem Unspawned.added {taskId stepId : String} (h : Unspawned log task.id step.stepId)
    (hadd : Added (StartsOnly taskId stepId) log log') (hne : step.stepId ≠ stepId) : Unspawned log' task.id step.stepId := by
  obtain ⟨more, rfl, hmore⟩ := hadd
  intro x hx
  rcases List.mem_append.1 hx with hx | hx
  · exact h x hx
  · by_contra hspawns
    exact hne ((hmore x hx).2 _ _ (by simpa using hspawns)).2

theorem Uncleared.added {taskId stepId : String} (h : Uncleared log) (hadd : Added (StartsOnly taskId stepId) log log') :
    Uncleared log' := by
  obtain ⟨more, rfl, hmore⟩ := hadd
  intro key hset
  rcases List.mem_append.1 hset with hset | hset
  · exact h key hset
  · exact (hmore _ hset).1 key 0 rfl

theorem Uncleared.asked {e : OfficeCall} (h : Uncleared log) (he : ∀ key, e ≠ .setRetries key 0) (r : e.Resp) :
    Uncleared (log ++ [⟨e, r⟩]) := by
  intro key hclear
  obtain hclear | ⟨heq, -⟩ := hclear.of_append
  · exact h key hclear
  · exact he key heq

theorem Due.mono (h : Due log task step) (hpre : log <+: log') : Due log' task step := by
  cases h with
  | waits hpending =>
      exact .waits hpending
  | retried hrunning hcounted =>
      exact .retried hrunning (hcounted.mono hpre)
  | approved hawaiting hid hgiven =>
      exact .approved hawaiting hid (hgiven.mono hpre)

theorem Unspawned.asked {e : OfficeCall} {taskId stepId : String} (h : Unspawned log taskId stepId)
    (he : e.spawns taskId stepId = false) (r : e.Resp) : Unspawned (log ++ [⟨e, r⟩]) taskId stepId := by
  intro x hx
  rcases List.mem_append.1 hx with hx | hx
  · exact h x hx
  · obtain rfl := List.mem_singleton.1 hx
    exact he

theorem retries_reserveAndSpawn (hsnap : Snap log task) (hstep : step ∈ task.steps)
    (hunspawned : Unspawned log task.id step.stepId) (huncleared : Uncleared log) (hdue : Due log task step) :
    Retries staffOk (reserveAndSpawn task step) log fun log' _ => Added (StartsOnly task.id step.stepId) log log' := by
  refine Follows.mono (Q := fun log' (_ : TickResult) => (Added (StartsOnly task.id step.stepId) log log' ∧ True) ∧ True) ?_
    (fun _ _ h => h.1.1) fun _ _ h => h
  refine Follows.and ((only_reserveAndSpawn task step).follows (P := fun _ _ => True) (fun _ _ _ => trivial) log) ?_
  unfold reserveAndSpawn
  refine ⟨trivial, fun staff _ => ?_⟩
  have hunspawned₁ := hunspawned.asked (e := .ask .assignableStaff) rfl staff
  have hpre₁ : log <+: log ++ [⟨.ask .assignableStaff, staff⟩] := List.prefix_append _ _
  have huncleared₁ := huncleared.asked (e := .ask .assignableStaff) (fun _ => nofun) staff
  simp only [ret_bind, pure_eq]
  split
  · refine ⟨⟨huncleared₁, hunspawned₁⟩, fun r _ => ?_⟩
    have hunspawned₂ := hunspawned₁.asked (e := .store (.reserveStep task.id step.stepId)) rfl r
    have hpre₂ := hpre₁.trans (List.prefix_append _ [⟨.store (.reserveStep task.id step.stepId), r⟩])
    cases r with
    | error msg =>
        trivial
    | ok attemptId =>
        refine ⟨⟨hunspawned₂, task, step, hsnap.mono hpre₂, hstep, rfl, rfl, hdue.mono hpre₂⟩, fun pid _ => ?_⟩
        exact ⟨trivial, fun _ _ => ⟨trivial, fun _ _ => trivial⟩⟩
  · exact ⟨trivial, fun _ _ => (idle_escalate ..).retries.bind fun _ _ _ => trivial⟩

/-! ### The polls -/

theorem retries_retryOrFail (hlook : Looking tasks log) (htask : task ∈ tasks) (hstep : step ∈ task.steps)
    (hrunning : step.status = .running) : Retries staffOk (retryOrFail task step) log fun _ _ => True := by
  refine ⟨trivial, fun retries _ => ?_⟩
  have hlook₁ := hlook.asked (e := .getRetries (retryKey task step)) rfl retries
  have hsnap₁ := hlook₁.snap htask
  simp only [ret_bind]
  split
  · refine ⟨trivial, fun written _ => ⟨?_, fun _ _ => ?_⟩⟩
    · exact ⟨task, step, hsnap₁.mono (List.prefix_append _ _), hstep, hrunning, rfl, .clear hlook₁.1 rfl⟩
    · exact (idle_escalate ..).retries.bind fun _ _ _ => trivial
  · rename_i hfew
    refine ⟨⟨task, step, hsnap₁, hstep, hrunning, rfl, .retry hlook₁.1 (Log.has_last _ _ _) (by omega)⟩, fun r _ => ?_⟩
    have hcounted := Log.has_last (log ++ [⟨.getRetries (retryKey task step), retries⟩])
      (.setRetries (retryKey task step) (retries + 1)) r
    refine (retries_reserveAndSpawn (hsnap₁.mono (List.prefix_append _ _)) hstep ?_ ?_ (.retried hrunning hcounted)).mono
      (fun _ _ _ => trivial) fun _ _ h => h
    · exact (hlook₁.1.unspawned _ _).asked (e := .setRetries _ _) rfl r
    · exact Uncleared.asked (hlook₁.1.uncounted · 0) (by simp) r

theorem retries_pollRunningStep (hlook : Looking tasks log) (htask : task ∈ tasks) (hstep : step ∈ task.steps)
    (hrunning : step.status = .running) : Retries staffOk (pollRunningStep task step) log fun _ _ => True := by
  refine (retries_of_calm (only_pidDead step)).bind fun log₁ dead h₁ => ?_
  refine ⟨trivial, fun now _ => ⟨trivial, fun leaseExpired _ => ?_⟩⟩
  have hadd := (h₁.1.asked (e := .now) rfl now).asked
    (e := .store (.leaseExpired task.id step.stepId now)) rfl leaseExpired
  simp only [ret_bind]
  split
  · exact retries_retryOrFail (hlook.added hadd) htask hstep hrunning
  split
  · exact (idle_expire task step).retries
  · trivial

theorem retries_pollAwaitingApprovalStep (hlook : Looking tasks log) (htask : task ∈ tasks) (hstep : step ∈ task.steps)
    (hawaiting : step.status = .awaitingApproval) {approvalId : ℕ} (hid : step.approvalId = some approvalId) :
    Retries staffOk (pollAwaitingApprovalStep task step approvalId) log fun _ _ => True := by
  refine ⟨trivial, fun decision _ => ?_⟩
  have hlook₁ := hlook.asked (e := .ask (.approvalStatus approvalId)) rfl decision
  simp only [ret_bind]
  split
  · refine (retries_reserveAndSpawn (hlook₁.snap htask) hstep (hlook₁.1.unspawned _ _) (hlook₁.1.uncounted · 0)
      (.approved hawaiting hid (Log.has_last _ _ _))).mono (fun _ _ _ => trivial) fun _ _ h => h
  · exact ⟨trivial, fun _ _ => (idle_escalate ..).retries.bind fun _ _ _ => trivial⟩
  · trivial

/-! ### Loops -/

/-- The result of one member of a loop over steps or tasks. -/
theorem retries_acting {k : ℕ} {p : OfficeProg TickResult} (h : Ticks k staffOk p log (ActsOrLooks tasks log))
    (h' : Retries staffOk p log fun _ _ => True) :
    Retries staffOk (p.bind fun r => ret r.acting) log (Outcome (Looking tasks) fun _ _ => True) := by
  refine (h.and h').bind fun log' r hr => ?_
  show Outcome _ _ log' r.acting
  unfold TickResult.acting
  split
  · rename_i hnone
    exact (hr.1 hnone).2
  · trivial

/-- A loop over steps or tasks that stops at the first action. -/
theorem retries_firstSome {γ : Type} {f : γ → OfficeProg (Option TickResult)} {xs : List γ} (hlook : Looking tasks log)
    (hmember : ∀ x ∈ xs, ∀ log', Looking tasks log' → Retries staffOk (f x) log' (Outcome (Looking tasks) fun _ _ => True)) :
    Retries staffOk (Prog.firstSome f xs) log (Outcome (Looking tasks) fun _ _ => True) := by
  induction xs generalizing log with
  | nil =>
      exact hlook
  | cons x xs ih =>
      refine (hmember x (by simp) log hlook).bind fun log' r hr => ?_
      cases r with
      | none =>
          exact ih hr fun y hy => hmember y (by simp [hy])
      | some r =>
          trivial

theorem retries_pollSteps (htask : task ∈ tasks) (hlook : Looking tasks log)
    (hreviewed : Staffed staffOk → UnderReview task) : Retries staffOk (pollSteps task) log fun _ _ => True := by
  refine Follows.bind (retries_firstSome hlook fun s hs log' hlook' => ?_) fun log₁ polled hpolled => ?_
  · obtain ⟨hmem, hrunning⟩ := mem_withStatus hs
    have hclaim := hlook'.claimable htask hreviewed hs (by decide) (by decide) (by simp)
    exact retries_acting (k := 0) (ticks_pollRunningStep hlook' hclaim hrunning)
      (retries_pollRunningStep hlook' htask hmem hrunning)
  · cases polled with
    | some r =>
        trivial
    | none =>
        have hlook₁ : Looking tasks log₁ := hpolled
        refine (retries_firstSome hlook₁ fun s hs log' hlook' => ?_).mono (fun _ _ _ => trivial) fun _ _ h => h
        obtain ⟨hmem, hawaiting⟩ := mem_withStatus hs
        split
        · rename_i hid
          split
          · exact hlook'
          · have hclaim := hlook'.claimable htask hreviewed hs (by decide) (by decide) fun _ => by simp [hid]
            exact retries_acting (k := 0) (ticks_pollAwaitingApprovalStep hlook' hclaim hawaiting hid)
              (retries_pollAwaitingApprovalStep hlook' htask hmem hawaiting hid)
        · exact hlook'

/-- Each step of the snapshot that is ready is started once. -/
theorem retries_dispatchLoop (capUsd estimate : ℚ) (slots : ℕ) (hsnap : Snap log task) (huncleared : Uncleared log)
    (ready : List TeamStep) (spawned : List TickResult) (hready : ∀ s ∈ ready, s ∈ task.steps ∧ s.status = .pending)
    (hnodup : (ready.map fun s => s.stepId).Nodup) (hunspawned : ∀ s ∈ ready, Unspawned log task.id s.stepId) :
    Retries staffOk (dispatchLoop task capUsd estimate slots ready spawned) log fun _ _ => True := by
  induction ready generalizing spawned log with
  | nil =>
      trivial
  | cons s ready ih =>
      unfold dispatchLoop
      split
      · trivial
      refine ⟨trivial, fun spent _ => ?_⟩
      have hpre := List.prefix_append log [⟨.store (.sumCost task.id), spent⟩]
      have huncleared₁ := huncleared.asked (e := .store (.sumCost task.id)) (by simp) spent
      have hunspawned₁ := fun x hx => (hunspawned x hx).asked (e := .store (.sumCost task.id)) rfl spent
      simp only [ret_bind, pure_eq]
      split
      · trivial
      obtain ⟨hmem, hpending⟩ := hready s (by simp)
      refine (retries_reserveAndSpawn (hsnap.mono hpre) hmem (hunspawned₁ s (by simp)) huncleared₁ (.waits hpending)).bind
        fun log₁ r hadd => ?_
      rw [List.map_cons, List.nodup_cons] at hnodup
      refine ih ((hsnap.mono hpre).mono hadd.grows) (huncleared₁.added hadd) _ (fun x hx => hready x (by simp [hx]))
        hnodup.2 fun x hx => ?_
      refine (hunspawned₁ x (by simp [hx])).added hadd fun heq => hnodup.1 ?_
      rw [← heq]
      exact List.mem_map_of_mem hx

theorem retries_dispatchOrFinish (cfg : OfficeConfig) (htask : task ∈ tasks) (hlisted : task.Listed)
    (hlook : Looking tasks log) : Retries staffOk (dispatchOrFinish cfg task) log fun _ _ => True := by
  unfold dispatchOrFinish
  split
  · exact (idle_finish cfg task).retries
  have hdispatch : Retries staffOk (dispatchReadySteps cfg task (readyPendingSteps task)) log fun _ _ => True := by
    unfold dispatchReadySteps
    dsimp only
    split
    · trivial
    refine retries_dispatchLoop _ _ _ (hlook.snap htask) (hlook.1.uncounted · 0) _ _ (fun s hs => ?_) ?_
      fun s _ => hlook.1.unspawned _ _
    · simp only [readyPendingSteps, List.mem_filter, Bool.and_eq_true, decide_eq_true_eq] at hs
      exact ⟨hs.1, hs.2.1⟩
    · exact hlisted.unique.sublist (List.filter_sublist.map _)
  refine hdispatch.bind fun log₁ spawned _ => ?_
  split
  · exact (idle_finish cfg task).retries
  · trivial

/-! ### The tick -/

theorem retries_actWithinCap (cfg : OfficeConfig) (htask : task ∈ tasks) (hlisted : task.Listed)
    (hlook : Looking tasks log) : Retries staffOk (actWithinCap cfg task) log fun _ _ => True := by
  have hrule : Inactive (maybeInsertReviewRows task) := Only.firstSome (idle_reviewRule task) _
  refine (Follows.and (ticks_maybeInsertReviewRows (k := 0) hlisted htask hlook) hrule.retries).bind fun log₁ reviewed h₁ => ?_
  cases reviewed with
  | some r =>
      trivial
  | none =>
      obtain ⟨⟨-, hlook₁, hreviewed⟩, -⟩ := h₁
      have hunder := underReview_of_reviewed hreviewed
      refine (Follows.and (ticks_pollSteps (k := 0) htask hlook₁ hunder) (retries_pollSteps htask hlook₁ hunder)).bind
        fun log₂ polled h₂ => ?_
      cases polled with
      | some r =>
          trivial
      | none =>
          exact retries_dispatchOrFinish cfg htask hlisted h₂.1.2

theorem retries_actOnTask (cfg : OfficeConfig) (htask : task ∈ tasks) (hlisted : task.Listed)
    (hlook : Looking tasks log) : Retries staffOk (actOnTask cfg task) log fun _ _ => True := by
  unfold actOnTask
  split
  · refine ⟨trivial, fun spent _ => ?_⟩
    have hlook₁ := hlook.asked (e := .store (.sumCost task.id)) rfl spent
    simp only [ret_bind]
    split
    · refine (retries_of_calm (only_maybeWarnCostCap cfg task spent)).bind fun log₁ _ h₁ => ?_
      exact retries_actWithinCap cfg htask hlisted (hlook₁.added h₁.1)
    · exact ⟨trivial, fun _ _ => (idle_escalate ..).retries.bind fun _ _ _ => trivial⟩
  · exact ⟨trivial, fun _ _ => (idle_escalate ..).retries.bind fun _ _ _ => trivial⟩

/-- The ticker keeps to the contract about the counters. -/
theorem tickerProg_retries (cfg : OfficeConfig) : Retries staffOk (tickerProg cfg) [] fun _ _ => True := by
  refine Follows.bind (Q := fun _ _ => True) ?_ fun _ _ _ => trivial
  refine Follows.bind (Q := fun _ _ => True) ?_ fun log _ _ => ⟨trivial, fun _ _ => trivial⟩
  refine ⟨trivial, fun openTasks hopen => ?_⟩
  have hlook : Looking openTasks [⟨.store .listDispatchable, openTasks⟩] := by
    refine ⟨fun x hx => ?_, List.mem_singleton.2 rfl⟩
    rw [List.mem_singleton.1 hx]
    rfl
  simp only [ret_bind, List.nil_append]
  refine Follows.bind (retries_firstSome hlook fun task htask log' hlook' => ?_) fun _ _ _ => trivial
  exact retries_acting (ticks_actOnTask cfg htask (hopen task htask) hlook')
    (retries_actOnTask cfg htask (hopen task htask) hlook')

end Parts

end ProjectManager
