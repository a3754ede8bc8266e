import Mathlib.Data.List.Dedup
import ProjectManager.Office.System

/-!
# The contract of the ticker

`tickerProg_follows`: whatever it is answered, the ticker claims and fails only steps that its snapshot
does not show as done, spawns only under the lease it has just drawn, and delivers a task only when its
snapshot is all done and the review rule has found nothing left to do.  A part of the tick that takes no
action has only looked (`Looking`), so the next part starts from the same place.
-/

namespace ProjectManager

open Process Process.Prog

/-- The call is calm. -/
def CalmCall (e : OfficeCall) : Prop :=
  e.idle = true

theorem CalmCall.calm {e : OfficeCall} (h : CalmCall e) : e.calm = true := by
  unfold CalmCall OfficeCall.idle at h
  split at h
  · cases h
  · exact h

/-- The call mints nothing. -/
def MintsNothing (e : OfficeCall) : Prop :=
  e.mints = false

theorem CalmCall.mintsNothing {e : OfficeCall} (h : CalmCall e) : MintsNothing e := by
  unfold MintsNothing OfficeCall.mints
  split
  · cases h
  · rfl

/-- A part of the tick keeps to the contract; `Q` says what its result means. -/
abbrev Ticks {α : Type} (k : ℕ) (staffOk : List (String × String) → Prop) (p : OfficeProg α) (log : OfficeLog)
    (Q : OfficeLog → α → Prop) : Prop :=
  p.Follows (Plausible staffOk) (TickObeys k staffOk) Q (fun _ _ => True) log

/-- The ticker has read its snapshots and only looked since. -/
def Looking (tasks : List TeamTask) (log : OfficeLog) : Prop :=
  Calm log ∧ log.Has (.store .listDispatchable) tasks

section Parts

variable {k : ℕ} {staffOk : List (String × String) → Prop} {tasks : List TeamTask} {task : TeamTask} {step : TeamStep}
  {log log' : OfficeLog}

theorem TickObeys.of_calm (log : OfficeLog) (e : OfficeCall) (h : CalmCall e) : TickObeys k staffOk log e := by
  unfold TickObeys
  split
  · cases h
  · cases h
  · cases h
  · cases h
  · cases h
  · cases h
  · exact trivial
  · exact trivial
  · exact h.calm

theorem Looking.added (h : Looking tasks log) (hadd : Added CalmCall log log') : Looking tasks log' := by
  refine ⟨?_, h.2.mono hadd.grows⟩
  obtain ⟨more, rfl, hmore⟩ := hadd
  intro x hx
  rcases List.mem_append.1 hx with hx | hx
  · exact h.1 x hx
  · exact (hmore x hx).calm

theorem Looking.asked (h : Looking tasks log) {e : OfficeCall} (he : CalmCall e) (r : e.Resp) :
    Looking tasks (log ++ [⟨e, r⟩]) :=
  h.added (.one he)

theorem Looking.snap (h : Looking tasks log) (htask : task ∈ tasks) : Snap log task :=
  ⟨tasks, h.2, htask⟩

theorem Snap.mono (h : Snap log task) (hpre : log <+: log') : Snap log' task := by
  obtain ⟨tasks, htasks, htask⟩ := h
  exact ⟨tasks, htasks.mono hpre, htask⟩

theorem Chosen.mono (h : Chosen log task step) (hpre : log <+: log') : Chosen log' task step :=
  ⟨h.1.mono hpre, h.2⟩

/-- A calm program, wherever it stands. -/
theorem ticks_of_calm {α : Type} {p : OfficeProg α} {R : α → Prop} (hp : p.Only CalmCall R) :
    Ticks k staffOk p log fun log' a => Added CalmCall log log' ∧ R a :=
  (hp.follows (fun log e he => .of_calm log e he) log).mono (fun _ _ h => h) fun _ _ _ => trivial

/-! ### The review rule -/

/-- What the review rule has found out about a finished step when it does nothing. -/
structure Reviewed (staffOk : List (String × String) → Prop) (log : OfficeLog) (task : TeamTask)
    (step : TeamStep) : Prop where
  /-- a step that is up for review has a review -/
  minted : Staffed staffOk → step.stepType = .work → step.needsReview = true →
    (reviewChild task step.stepId .review).isSome = true
  /-- the verdict of a review has been read and calls for nothing -/
  verdict : step.stepType = .review → ∀ id content, step.parentStepId = some id → task.step? id = some content →
    ∃ verdict, log.Has (.readArtifact (reviewVerdictArtifactPath task.id content.seq step.reviewRound)) verdict ∧
      (verdict = none → reviewChild task content.stepId .review ≠ some step) ∧
      ∀ v, verdict = some v → v.isPassed = true ∨ reworkThisRound task content.stepId step.reviewRound = true
  /-- a rework has been reviewed again -/
  again : Staffed staffOk → step.stepType = .rework → ∀ id content, step.parentStepId = some id →
    task.step? id = some content → reviewedInRound task id (step.reviewRound + 1) = true

theorem ticks_insertStep (hlook : Looking tasks log) (htask : task ∈ tasks) (hstep : step ∈ task.steps) {d : StepDict}
    (hd : Mints log task step d) : Ticks k staffOk (insertStep task d) log fun _ _ => True := by
  refine ⟨⟨hlook.1, task, step, hlook.snap htask, rfl, hstep, hd⟩, fun r _ => ?_⟩
  cases r <;> exact trivial

/-- A step that is no review is decided on without a verdict. -/
theorem Mints.of_decision {d : StepDict} (staff : List (String × String)) (hreview : step.stepType ≠ .review)
    (h : reviewDecision staff (fun _ => none) task step = some (.mint d)) : Mints log task step d :=
  ⟨staff, fun _ => none, h, fun _ htype => absurd htype hreview⟩

theorem only_milestone (task : TeamTask) (kind message : String) :
    (milestone task kind message).Only CalmCall fun _ => True :=
  ⟨rfl, fun _ => trivial⟩

theorem only_escalate (task : TeamTask) (step : Option TeamStep) (kind message : String) :
    (escalate task step kind message).Only CalmCall fun _ => True :=
  ⟨rfl, fun _ => trivial⟩

theorem ticks_maybeInsertReview (hlook : Looking tasks log) (htask : task ∈ tasks) (hstep : step ∈ task.steps)
    (hdone : step.status = .done) :
    Ticks k staffOk (maybeInsertReview task step) log fun log' inserted => inserted = false →
      Added CalmCall log log' ∧ (Staffed staffOk → step.stepType = .work → step.needsReview = true →
        (reviewChild task step.stepId .review).isSome = true) := by
  unfold maybeInsertReview
  split
  · rename_i hskip
    refine fun _ => ⟨.refl log, fun _ hwork hneeds => ?_⟩
    rcases hskip with hskip | hskip
    · exact absurd hwork hskip
    · rw [hneeds] at hskip
      cases hskip
  rename_i hdue
  push Not at hdue
  split
  · rename_i hchild
    exact fun _ => ⟨.refl log, fun _ _ _ => hchild⟩
  rename_i hchild
  refine ⟨.of_calm _ _ rfl, fun staff hstaff => ?_⟩
  simp only [ret_bind]
  split
  · rename_i hnone
    refine (ticks_of_calm (only_milestone task _ _)).bind fun log' _ hlog' => ?_
    exact fun _ => ⟨hlog'.1.after rfl, fun hstaffed => absurd hnone (hstaffed staff hstaff _)⟩
  · rename_i reviewer hreviewer
    have hmints : Mints (log ++ [⟨.ask .assignableStaff, staff⟩]) task step (reviewDict task step reviewer 0 none) := by
      refine Mints.of_decision staff (by rw [hdue.1]; decide) ?_
      have hchild : (reviewChild task step.stepId .review).isSome = false := by simpa using hchild
      simp [reviewDecision, decideWork, hdone, hdue.1, hdue.2, hchild, hreviewer]
    refine (ticks_insertStep (hlook.asked (e := .ask .assignableStaff) rfl staff) htask hstep hmints).bind fun log' _ _ => ?_
    exact nofun

theorem step?_eq_some {id : String} {content : TeamStep} (h : task.step? id = some content) :
    content ∈ task.steps ∧ content.stepId = id := by
  refine ⟨List.mem_of_find?_eq_some h, ?_⟩
  simpa using List.find?_some h

/-- The verdict asks for nothing, or something is done about it. -/
theorem ticks_actOnVerdict (hlook : Looking tasks log) (htask : task ∈ tasks) (hstep : step ∈ task.steps)
    (content : TeamStep) (verdict : Option Artifact)
    (hmints : ∀ d, decideVerdict task content step verdict = some (.mint d) → Mints log task step d) :
    Ticks k staffOk (actOnVerdict task content step verdict) log fun log' handled => handled = false →
      Added CalmCall log log' ∧ (verdict = none → reviewChild task content.stepId .review ≠ some step) ∧
        ∀ v, verdict = some v → v.isPassed = true ∨ reworkThisRound task content.stepId step.reviewRound = true := by
  cases verdict with
  | none =>
      simp only [actOnVerdict]
      split
      · rename_i hnewest
        refine (ticks_insertStep hlook htask hstep (hmints _ (by simp [decideVerdict, hnewest]))).bind fun log' _ _ => ?_
        exact fun hhandled => absurd hhandled (by decide)
      · rename_i hnewest
        exact fun _ => ⟨.refl log, fun _ => hnewest, fun v hv => absurd hv (by simp)⟩
  | some v =>
      simp only [actOnVerdict]
      split
      · rename_i hpassed
        refine fun _ => ⟨.refl log, fun hnone => absurd hnone (Option.some_ne_none _), fun v' hv' => .inl ?_⟩
        obtain rfl := Option.some.inj hv'
        exact hpassed
      rename_i hfailed
      split
      · refine ⟨⟨task, hlook.snap htask, rfl, .inl rfl⟩, fun _ _ => ?_⟩
        refine (ticks_of_calm (only_escalate task _ _ _)).bind fun log' _ _ => ?_
        exact fun hhandled => absurd hhandled (by decide)
      rename_i hround
      split
      · rename_i hrework
        exact fun _ => ⟨.refl log, fun hnone => absurd hnone (Option.some_ne_none _), fun _ _ => .inr hrework⟩
      · rename_i hrework
        have hdecided : decideVerdict task content step (some v) =
            some (.mint (reworkDict task content step.reviewRound)) := by
          simp [decideVerdict, hfailed, hround, hrework]
        refine (ticks_insertStep hlook htask hstep (hmints _ hdecided)).bind fun log' _ _ => ?_
        exact fun hhandled => absurd hhandled (by decide)

theorem ticks_maybeHandleReviewDone (hlook : Looking tasks log) (htask : task ∈ tasks) (hstep : step ∈ task.steps)
    (hdone : step.status = .done) :
    Ticks k staffOk (maybeHandleReviewDone task step) log fun log' handled => handled = false →
      Added CalmCall log log' ∧ (step.stepType = .review → ∀ id content, step.parentStepId = some id →
        task.step? id = some content →
        ∃ verdict, log'.Has (.readArtifact (reviewVerdictArtifactPath task.id content.seq step.reviewRound)) verdict ∧
          (verdict = none → reviewChild task content.stepId .review ≠ some step) ∧
          ∀ v, verdict = some v →
            v.isPassed = true ∨ reworkThisRound task content.stepId step.reviewRound = true) := by
  unfold maybeHandleReviewDone
  split
  · rename_i id htype hparent
    split
    · rename_i hnone
      refine fun _ => ⟨.refl log, fun _ id' content hparent' hcontent => ?_⟩
      rw [hparent] at hparent'
      obtain rfl := Option.some.inj hparent'
      rw [hnone] at hcontent
      cases hcontent
    · rename_i content hcontent
      refine ⟨.of_calm _ _ rfl, fun verdict _ => ?_⟩
      have hfound : step.parentStepId.bind task.step? = some content := by rw [hparent, Option.bind_some, hcontent]
      refine (ticks_actOnVerdict (hlook.asked (e := .readArtifact _) rfl verdict) htask hstep content verdict
        fun d hd => ?_).mono ?_ fun _ _ h => h
      · refine ⟨[], fun _ => verdict, ?_, fun content' _ hcontent' => ?_⟩
        · simpa [reviewDecision, hdone, htype, hfound] using hd
        · rw [hfound] at hcontent'
          obtain rfl := Option.some.inj hcontent'
          exact Log.has_last _ _ _
      intro log' handled hhandled hfalse
      obtain ⟨hadd, hnone, hsome⟩ := hhandled hfalse
      refine ⟨hadd.after rfl, fun _ id' content' hparent' hcontent' => ?_⟩
      rw [hparent] at hparent'
      obtain rfl := Option.some.inj hparent'
      rw [hcontent] at hcontent'
      obtain rfl := Option.some.inj hcontent'
      exact ⟨verdict, (Log.has_last _ _ _).mono hadd.grows, hnone, hsome⟩
  · rename_i hnot
    refine fun _ => ⟨.refl log, fun htype id content hparent _ => ?_⟩
    exact absurd hparent (hnot id htype)

theorem ticks_maybeInsertReviewAfterRework (hlook : Looking tasks log) (htask : task ∈ tasks)
    (hstep : step ∈ task.steps) (hdone : step.status = .done) :
    Ticks k staffOk (maybeInsertReviewAfterRework task step) log fun log' inserted => inserted = false →
      Added CalmCall log log' ∧ (Staffed staffOk → step.stepType = .rework → ∀ id content,
        step.parentStepId = some id → task.step? id = some content →
          reviewedInRound task id (step.reviewRound + 1) = true) := by
  unfold maybeInsertReviewAfterRework
  split
  · rename_i id htype hparent
    split
    · rename_i hnone
      refine fun _ => ⟨.refl log, fun _ _ id' content hparent' hcontent => ?_⟩
      rw [hparent] at hparent'
      obtain rfl := Option.some.inj hparent'
      rw [hnone] at hcontent
      cases hcontent
    · rename_i content hcontent
      dsimp only
      split
      · rename_i hround
        refine fun _ => ⟨.refl log, fun _ _ id' content' hparent' _ => ?_⟩
        rw [hparent] at hparent'
        obtain rfl := Option.some.inj hparent'
        exact hround
      · rename_i hround
        refine ⟨.of_calm _ _ rfl, fun staff hstaff => ?_⟩
        simp only [ret_bind]
        split
        · rename_i hnone
          refine (ticks_of_calm (only_milestone task _ _)).bind fun log' _ hlog' => ?_
          exact fun _ => ⟨hlog'.1.after rfl, fun hstaffed => absurd hnone (hstaffed staff hstaff _)⟩
        · rename_i reviewer hreviewer
          have hmints : Mints (log ++ [⟨.ask .assignableStaff, staff⟩]) task step
              (reviewDict task content reviewer (step.reviewRound + 1) (some step.stepId)) := by
            refine Mints.of_decision staff (by rw [htype]; decide) ?_
            rw [← (step?_eq_some hcontent).2] at hround
            simp [reviewDecision, decideRework, hdone, htype, hparent, hcontent, hround, hreviewer]
          refine (ticks_insertStep (hlook.asked (e := .ask .assignableStaff) rfl staff) htask hstep hmints).bind fun log' _ _ => ?_
          exact nofun
  · rename_i hnot
    refine fun _ => ⟨.refl log, fun _ htype id content hparent _ => ?_⟩
    exact absurd hparent (hnot id htype)

theorem reviewHandled_acts (hlisted : task.Listed) (step : TeamStep) (refreshed : Option TeamTask) :
    ∃ r, reviewHandled task step refreshed = some r ∧ r.action ≠ .none := by
  have hstatus : task.status ≠ .stalled := by
    intro hstalled
    have hdispatchable := hlisted.dispatchable
    rw [hstalled] at hdispatchable
    cases hdispatchable
  refine ⟨_, by simp only [reviewHandled, hstatus, decide_false, Bool.and_false]; rfl, ?_⟩
  dsimp only
  split <;> decide

theorem Reviewed.mono (h : Reviewed staffOk log task step) (hpre : log <+: log') : Reviewed staffOk log' task step where
  minted := h.minted
  verdict := by
    intro htype id content hparent hcontent
    obtain ⟨verdict, hread, hrest⟩ := h.verdict htype id content hparent hcontent
    exact ⟨verdict, hread.mono hpre, hrest⟩
  again := h.again

theorem ticks_reviewRule (hlisted : task.Listed) (htask : task ∈ tasks) (hstep : step ∈ task.steps)
    (hlook : Looking tasks log) :
    Ticks k staffOk (reviewRule task step) log (Outcome
      (fun log' => log <+: log' ∧ Looking tasks log' ∧ (step.status = .done → Reviewed staffOk log' task step))
      fun _ r => r.action ≠ .none) := by
  unfold reviewRule
  split
  · rename_i hstatus
    exact ⟨List.prefix_rfl, hlook, fun hdone => absurd hdone hstatus⟩
  rename_i hstatus
  have hdone : step.status = .done := by simpa using hstatus
  refine (ticks_maybeInsertReview hlook htask hstep hdone).bind fun log₁ inserted h₁ => ?_
  cases inserted with
  | true =>
      exact fun h => by cases h
  | false =>
      obtain ⟨hadd₁, hminted⟩ := h₁ rfl
      have hlook₁ := hlook.added hadd₁
      refine (ticks_maybeHandleReviewDone hlook₁ htask hstep hdone).bind fun log₂ handled h₂ => ?_
      cases handled with
      | true =>
          refine ⟨.of_calm _ _ rfl, fun refreshed _ => ?_⟩
          obtain ⟨r, hr, hacts⟩ := reviewHandled_acts hlisted step refreshed
          simp only [ret_bind, hr]
          exact hacts
      | false =>
          obtain ⟨hadd₂, hverdict⟩ := h₂ rfl
          have hlook₂ := hlook₁.added hadd₂
          refine (ticks_maybeInsertReviewAfterRework hlook₂ htask hstep hdone).bind fun log₃ again h₃ => ?_
          cases again with
          | true =>
              exact fun h => by cases h
          | false =>
              obtain ⟨hadd₃, hagain⟩ := h₃ rfl
              refine ⟨((hadd₁.trans hadd₂).trans hadd₃).grows, hlook₂.added hadd₃, fun _ => ⟨hminted, ?_, hagain⟩⟩
              intro htype id content hparent hcontent
              obtain ⟨verdict, hread, hrest⟩ := hverdict htype id content hparent hcontent
              exact ⟨verdict, hread.mono hadd₃.grows, hrest⟩

/-- After the review rule: it has acted, or every finished step is reviewed. -/
theorem ticks_maybeInsertReviewRows (hlisted : task.Listed) (htask : task ∈ tasks) (hlook : Looking tasks log) :
    Ticks k staffOk (maybeInsertReviewRows task) log (Outcome
      (fun log' => log <+: log' ∧ Looking tasks log' ∧
        ∀ s ∈ task.steps, s.status = .done → Reviewed staffOk log' task s)
      fun _ r => r.action ≠ .none) :=
  Follows.firstSome (F := fun s log => s.status = .done → Reviewed staffOk log task s) hlook
    (by
      intro s log log' h hpre hdone
      exact (h hdone).mono hpre)
    fun _ hs _ hlook => ticks_reviewRule hlisted htask hs hlook

theorem underReview_of_reviewed (h : ∀ s ∈ task.steps, s.status = .done → Reviewed staffOk log task s)
    (hstaffed : Staffed staffOk) : UnderReview task :=
  fun c hc hdone hwork hneeds => (h c hc hdone).minted hstaffed hwork hneeds

/-! ### Actions on one step -/

/-- Calm calls claim nothing. -/
theorem claims_added (taskId : String) (h : Added CalmCall log log') : claims log' taskId = claims log taskId := by
  obtain ⟨more, rfl, hmore⟩ := h
  have hnone : claims more taskId = 0 := by
    simp only [claims, List.countP_eq_zero]
    intro x hx
    have hcalm := hmore x hx
    split
    · rename_i hx'
      rw [hx'] at hcalm
      cases hcalm
    · simp
  rw [claims, List.countP_append]
  exact congrArg _ hnone

/-- What must hold before a step is claimed or given up. -/
structure Claimable (staffOk : List (String × String) → Prop) (log : OfficeLog) (task : TeamTask)
    (step : TeamStep) : Prop where
  picked : Picked log task step
  underReview : Staffed staffOk → UnderReview task

theorem Unminted.added (h : Unminted log) (hadd : Added MintsNothing log log') : Unminted log' := by
  obtain ⟨more, rfl, hmore⟩ := hadd
  intro x hx
  rcases List.mem_append.1 hx with hx | hx
  · exact h x hx
  · exact hmore x hx

theorem Looking.unminted (h : Looking tasks log) : Unminted log := by
  intro x hx
  have hcalm := h.1 x hx
  unfold OfficeCall.mints
  split
  · rename_i hx'
    rw [hx'] at hcalm
    cases hcalm
  · rfl

theorem Picked.added (h : Picked log task step) (hadd : Added MintsNothing log log') : Picked log' task step :=
  ⟨h.chosen.mono hadd.grows, h.ready, h.polled, h.unminted.added hadd⟩

theorem Claimable.added (h : Claimable staffOk log task step) (hadd : Added MintsNothing log log') :
    Claimable staffOk log' task step :=
  ⟨h.picked.added hadd, h.underReview⟩

/-- A step that does not wait for a slot: it runs, or it has got its approval. -/
def Resumed (log : OfficeLog) (step : TeamStep) : Prop :=
  step.status = .running ∨ step.status = .awaitingApproval ∧
    ∃ id, step.approvalId = some id ∧ log.Has (.ask (.approvalStatus id)) (some .approved)

theorem Resumed.mono (h : Resumed log step) (hpre : log <+: log') : Resumed log' step := by
  rcases h with h | ⟨hstatus, id, hid, hread⟩
  · exact .inl h
  · exact .inr ⟨hstatus, id, hid, hread.mono hpre⟩

theorem Resumed.started (h : Resumed log step) : step.status ≠ .pending := by
  rcases h with h | ⟨h, -⟩ <;> rw [h] <;> decide

/-- Claiming a step, for a free slot or to go on with it. -/
theorem ticks_reserveAndSpawn (h : Claimable staffOk log task step)
    (hslot : step.status = .pending → runningCount task + claims log task.id < k)
    (hresumed : step.status ≠ .pending → Resumed log step) :
    Ticks k staffOk (reserveAndSpawn task step) log fun log' r =>
      Added MintsNothing log log' ∧ claims log' task.id ≤ claims log task.id + 1 ∧ r.action ≠ .none := by
  refine ⟨.of_calm _ _ rfl, fun staff _ => ?_⟩
  have hadd : Added CalmCall log (log ++ [⟨.ask .assignableStaff, staff⟩]) := .one rfl
  have hadd' : Added MintsNothing log _ := hadd.mono fun _ => CalmCall.mintsNothing
  have hclaims := claims_added task.id hadd
  have hpicked := h.picked.added hadd'
  simp only [ret_bind, pure_eq]
  cases hroster : staff.any fun x => decide (x.1 = step.assignedTo) with
  | false =>
      refine ⟨⟨.inl rfl, task, step, hpicked, rfl, rfl, rfl⟩, fun r _ => ?_⟩
      refine (ticks_of_calm (only_escalate task _ _ _)).bind fun log₂ _ h₂ => ?_
      refine ⟨?_, ?_, by simp⟩
      · exact (hadd'.asked (e := .store (.markFailed task.id step.stepId none)) rfl r).trans
          (h₂.1.mono fun _ => CalmCall.mintsNothing)
      rw [claims_added _ h₂.1, ← hclaims, claims, List.countP_append]
      exact Nat.le_succ_of_le (le_of_eq rfl)
  | true =>
      have hclaim : Claim k (log ++ [⟨.ask .assignableStaff, staff⟩]) task step :=
        { picked := hpicked
          roster := by
            refine ⟨staff, Log.has_last _ _ _, ?_⟩
            simpa [List.any_eq_true] using hroster
          slot := by
            rw [hclaims]
            exact hslot
          resumed := fun hstarted => (hresumed hstarted).mono hadd.grows }
      refine ⟨⟨task, step, hclaim, rfl, rfl⟩, fun r _ => ?_⟩
      cases r with
      | error msg =>
          exact trivial
      | ok attemptId =>
          refine ⟨⟨task, step, ?_⟩, fun pid _ => ?_⟩
          · exact
              { chosen := hpicked.chosen.mono (List.prefix_append _ _)
                taskId := rfl
                stepId := rfl
                agent := rfl
                leased := ⟨_, rfl⟩
                ready := h.picked.ready
                underReview := h.underReview }
          · refine ⟨trivial, fun _ _ => ⟨.of_calm _ _ rfl, fun _ _ => ⟨?_, ?_, by simp⟩⟩⟩
            · refine hadd'.trans ⟨_, by simp only [List.append_assoc]; rfl, ?_⟩
              intro x hx
              simp only [List.cons_append, List.nil_append, List.mem_cons, List.not_mem_nil, or_false] at hx
              rcases hx with rfl | rfl | rfl | rfl <;> rfl
            · rw [← hclaims]
              simp [claims]

theorem ticks_retryOrFail (h : Claimable staffOk log task step) (hrunning : step.status = .running) :
    Ticks k staffOk (retryOrFail task step) log fun _ r => r.action ≠ .none := by
  refine ⟨.of_calm _ _ rfl, fun retries _ => ?_⟩
  have hadd : Added MintsNothing log (log ++ [⟨.getRetries (retryKey task step), retries⟩]) := .one rfl
  simp only [ret_bind]
  split
  · refine ⟨⟨.inl rfl, task, step, h.picked.added hadd, rfl, rfl, rfl⟩, fun _ _ => ⟨trivial, fun _ _ => ?_⟩⟩
    refine (ticks_of_calm (only_escalate task _ _ _)).bind fun _ _ _ => ?_
    exact fun h => by cases h
  · refine ⟨trivial, fun _ _ => ?_⟩
    refine (ticks_reserveAndSpawn ?_ ?_ fun _ => .inl hrunning).mono (fun _ _ h => h.2.2) fun _ _ h => h
    · exact h.added (hadd.asked (e := .setRetries _ _) rfl _)
    · exact fun hpending => absurd hpending (by rw [hrunning]; decide)

theorem only_killStep (step : TeamStep) : (killStep step).Only CalmCall fun _ => True := by
  unfold killStep
  split
  · exact ⟨rfl, fun _ => trivial⟩
  · exact trivial

theorem ticks_expire (h : Picked log task step) :
    Ticks k staffOk (expire task step) log fun _ r => r.action ≠ .none := by
  refine (ticks_of_calm (only_killStep step)).bind fun log₁ _ h₁ => ?_
  refine ⟨⟨.inr rfl, task, step, h.added (h₁.1.mono fun _ => CalmCall.mintsNothing), rfl, rfl, rfl⟩,
    fun _ _ => ⟨.of_calm _ _ rfl, fun _ _ => ?_⟩⟩
  refine (ticks_of_calm (only_escalate task _ _ _)).bind fun _ _ _ => ?_
  exact fun h => by cases h

theorem only_pidDead (step : TeamStep) : (pidDead step).Only CalmCall fun _ => True := by
  unfold pidDead
  split
  · exact trivial
  · exact ⟨rfl, fun _ => trivial⟩

/-- A part of the tick that acts or has only looked. -/
abbrev ActsOrLooks (tasks : List TeamTask) (log log' : OfficeLog) (r : TickResult) : Prop :=
  r.action = .none → log <+: log' ∧ Looking tasks log'

theorem ticks_pollRunningStep (hlook : Looking tasks log) (h : Claimable staffOk log task step)
    (hrunning : step.status = .running) :
    Ticks k staffOk (pollRunningStep task step) log (ActsOrLooks tasks log) := by
  refine (ticks_of_calm (only_pidDead step)).bind fun log₁ dead h₁ => ?_
  refine ⟨.of_calm _ _ rfl, fun now _ => ⟨.of_calm _ _ rfl, fun leaseExpired _ => ?_⟩⟩
  have hadd := (h₁.1.asked (e := .now) rfl now).asked
    (e := .store (.leaseExpired task.id step.stepId now)) rfl leaseExpired
  have hclaim := h.added (hadd.mono fun _ => CalmCall.mintsNothing)
  simp only [ret_bind]
  split
  · exact (ticks_retryOrFail hclaim hrunning).mono (fun _ _ hr hnone => absurd hnone hr) fun _ _ h => h
  split
  · exact (ticks_expire hclaim.picked).mono (fun _ _ hr hnone => absurd hnone hr) fun _ _ h => h
  · exact fun _ => ⟨hadd.grows, hlook.added hadd⟩

theorem ticks_pollAwaitingApprovalStep (hlook : Looking tasks log) (h : Claimable staffOk log task step)
    (hawaiting : step.status = .awaitingApproval) {approvalId : ℕ} (hid : step.approvalId = some approvalId) :
    Ticks k staffOk (pollAwaitingApprovalStep task step approvalId) log (ActsOrLooks tasks log) := by
  refine ⟨.of_calm _ _ rfl, fun decision _ => ?_⟩
  have hadd := (Added.refl log).asked (H := CalmCall) (e := .ask (.approvalStatus approvalId)) rfl decision
  have hclaim := h.added (hadd.mono fun _ => CalmCall.mintsNothing)
  simp only [ret_bind]
  split
  · refine (ticks_reserveAndSpawn hclaim ?_ fun _ => .inr ⟨hawaiting, approvalId, hid, Log.has_last _ _ _⟩).mono
      (fun _ _ hr hnone => absurd hnone hr.2.2) fun _ _ h => h
    exact fun hpending => absurd hpending (by rw [hawaiting]; decide)
  · refine ⟨⟨.inl rfl, task, step, hclaim.picked, rfl, rfl, rfl⟩, fun _ _ => ?_⟩
    refine (ticks_of_calm (only_escalate task _ _ _)).bind fun _ _ _ => ?_
    exact fun h => by cases h
  · exact fun _ => ⟨hadd.grows, hlook.added hadd⟩

/-! ### The polls -/

theorem mem_withStatus {status : StepStatus} (h : step ∈ task.withStatus status) :
    step ∈ task.steps ∧ step.status = status := by
  simpa [TeamTask.withStatus] using h

/-- The result of one member of a loop over steps or tasks. -/
theorem ticks_acting {p : OfficeProg TickResult} (h : Ticks k staffOk p log (ActsOrLooks tasks log)) :
    Ticks k staffOk (p.bind fun r => ret r.acting) log
      (Outcome (fun log' => log <+: log' ∧ Looking tasks log' ∧ True) fun _ r => r.action ≠ .none) := by
  refine h.bind fun log' r hr => ?_
  show Outcome _ _ log' r.acting
  unfold TickResult.acting
  split
  · rename_i hnone
    exact ⟨(hr hnone).1, (hr hnone).2, trivial⟩
  · rename_i hsome
    exact hsome

/-- A loop over steps or tasks that stops at the first action. -/
theorem ticks_firstSome {γ : Type} {f : γ → OfficeProg (Option TickResult)} {xs : List γ} (hlook : Looking tasks log)
    (hstep : ∀ x ∈ xs, ∀ log', log <+: log' → Looking tasks log' → Ticks k staffOk (f x) log'
      (Outcome (fun log'' => log' <+: log'' ∧ Looking tasks log'' ∧ True) fun _ r => r.action ≠ .none)) :
    Ticks k staffOk (Prog.firstSome f xs) log
      (Outcome (fun log' => log <+: log' ∧ Looking tasks log') fun _ r => r.action ≠ .none) := by
  refine Follows.mono (Q := Outcome (fun log' => log <+: log' ∧ (log <+: log' ∧ Looking tasks log') ∧
    ∀ x ∈ xs, True) fun _ r => r.action ≠ .none) (X := fun _ _ => True) ?_ ?_ fun _ _ h => h
  · refine Follows.firstSome (J := fun log' => log <+: log' ∧ Looking tasks log') (F := fun _ _ => True)
      ⟨List.prefix_rfl, hlook⟩ (fun _ _ _ h _ => h) fun x hx log' hlog' => ?_
    refine (hstep x hx log' hlog'.1 hlog'.2).mono (fun log'' r hr => ?_) fun _ _ h => h
    cases r with
    | none =>
        exact ⟨hr.1, ⟨hlog'.1.trans hr.1, hr.2.1⟩, trivial⟩
    | some r =>
        exact hr
  · intro log' r hr
    cases r with
    | none =>
        exact hr.2.1
    | some r =>
        exact hr

/-- A step that the polls look at. -/
theorem Looking.claimable (hlook : Looking tasks log) (htask : task ∈ tasks) (hreviewed : Staffed staffOk → UnderReview task)
    {s : TeamStep} {status : StepStatus} (hs : s ∈ task.withStatus status) (hdone : status ≠ .done)
    (hpending : status ≠ .pending) (hpolled : status = .awaitingApproval → s.approvalId ≠ none) :
    Claimable staffOk log task s := by
  obtain ⟨hmem, rfl⟩ := mem_withStatus hs
  exact ⟨⟨⟨hlook.snap htask, hmem, hdone⟩, fun h => absurd h hpending, hpolled, hlook.unminted⟩, hreviewed⟩

theorem ticks_pollSteps (htask : task ∈ tasks) (hlook : Looking tasks log)
    (hreviewed : Staffed staffOk → UnderReview task) :
    Ticks k staffOk (pollSteps task) log
      (Outcome (fun log' => log <+: log' ∧ Looking tasks log') fun _ r => r.action ≠ .none) := by
  refine Follows.bind (ticks_firstSome hlook ?_) ?_
  · intro s hs log' _ hlook'
    exact ticks_acting (ticks_pollRunningStep hlook' (hlook'.claimable htask hreviewed hs (by decide) (by decide) (by simp))
      (mem_withStatus hs).2)
  · intro log₁ polled hpolled
    cases polled with
    | some r =>
        exact hpolled
    | none =>
        obtain ⟨hpre, hlook₁⟩ := hpolled
        refine (ticks_firstSome hlook₁ ?_).mono (fun log₂ r hr => ?_) fun _ _ h => h
        · intro s hs log' _ hlook'
          split
          · split
            · exact ⟨List.prefix_rfl, hlook', trivial⟩
            · rename_i hid _
              refine ticks_acting (ticks_pollAwaitingApprovalStep hlook' ?_ (mem_withStatus hs).2 hid)
              exact hlook'.claimable htask hreviewed hs (by decide) (by decide) fun _ => by simp [hid]
          · exact ⟨List.prefix_rfl, hlook', trivial⟩
        · cases r with
          | none =>
              exact ⟨hpre.trans hr.1, hr.2⟩
          | some r =>
              exact hr

/-! ### Dispatch -/

/-- What the dispatch loop leaves behind: it has acted at every result and claimed no more steps than
there are results, and without result it has only looked. -/
structure Dispatched (tasks : List TeamTask) (task : TeamTask) (log log' : OfficeLog) (spawned : List TickResult) :
    Prop where
  added : Added MintsNothing log log'
  looking : spawned = [] → Looking tasks log'
  acted : ∀ r ∈ spawned, r.action ≠ .none
  claims : claims log' task.id ≤ spawned.length

theorem ticks_dispatchLoop (capUsd estimate : ℚ) {slots : ℕ} (hslots : runningCount task + slots ≤ k)
    (ready : List TeamStep) (spawned : List TickResult) (hclaim : ∀ s ∈ ready, Claimable staffOk log task s)
    (hpending : ∀ s ∈ ready, s.status = .pending) (hlog' : Dispatched tasks task log log' spawned) :
    Ticks k staffOk (dispatchLoop task capUsd estimate slots ready spawned) log' (Dispatched tasks task log) := by
  induction ready generalizing spawned log' with
  | nil =>
      exact hlog'
  | cons s ready ih =>
      unfold dispatchLoop
      split
      · exact hlog'
      rename_i hfree
      refine ⟨.of_calm _ _ rfl, fun spent _ => ?_⟩
      have hadd := (Added.refl log').asked (H := CalmCall) (e := .store (.sumCost task.id)) rfl spent
      have hadd' := hlog'.added.trans (hadd.mono fun _ => CalmCall.mintsNothing)
      have hclaims := claims_added task.id hadd
      have hbound := hlog'.claims
      simp only [ret_bind, pure_eq]
      split
      · exact ⟨hadd', fun hnil => (hlog'.looking hnil).added hadd, hlog'.acted, hclaims ▸ hbound⟩
      refine (ticks_reserveAndSpawn ((hclaim s (by simp)).added hadd') (fun _ => ?_) fun hstarted => ?_).bind
        fun log₁ r hr => ?_
      · rw [hclaims]
        omega
      · exact absurd (hpending s (by simp)) hstarted
      refine ih _ (fun x hx => hclaim x (by simp [hx])) (fun x hx => hpending x (by simp [hx])) ?_
      refine ⟨hadd'.trans hr.1, fun hnil => ?_, fun x hx => ?_, ?_⟩
      · simp at hnil
      · rcases List.mem_append.1 hx with hx | hx
        · exact hlog'.acted x hx
        · rw [List.mem_singleton.1 hx]
          exact hr.2.2
      · have hone := hr.2.1
        rw [List.length_append, List.length_singleton]
        omega

theorem claims_looking (hlook : Looking tasks log) (taskId : String) : claims log taskId = 0 := by
  simp only [claims, List.countP_eq_zero]
  intro x hx
  have hcalm := hlook.1 x hx
  split
  · rename_i hx'
    rw [hx'] at hcalm
    cases hcalm
  · simp

theorem ticks_dispatchReadySteps (cfg : OfficeConfig) (htask : task ∈ tasks) (hlook : Looking tasks log)
    (hreviewed : Staffed staffOk → UnderReview task) :
    Ticks cfg.concurrency staffOk (dispatchReadySteps cfg task (readyPendingSteps task)) log
      (Dispatched tasks task log) := by
  have hstart : Dispatched tasks task log log [] :=
    ⟨.refl log, fun _ => hlook, by simp, (claims_looking hlook _).le⟩
  have hready : ∀ s ∈ readyPendingSteps task, s ∈ task.steps ∧ s.status = .pending := by
    intro s hs
    simp only [readyPendingSteps, List.mem_filter, Bool.and_eq_true, decide_eq_true_eq] at hs
    exact ⟨hs.1, hs.2.1⟩
  unfold dispatchReadySteps
  dsimp only
  split
  · exact hstart
  refine ticks_dispatchLoop _ _ (by omega) _ _ (fun s hs => ?_) (fun s hs => (hready s hs).2) hstart
  refine ⟨⟨⟨hlook.snap htask, (hready s hs).1, ?_⟩, fun _ => hs, ?_, hlook.unminted⟩, hreviewed⟩
  · rw [(hready s hs).2]
    decide
  · simp [(hready s hs).2]

theorem combineSpawnResults_acts {first : TickResult} {rest : List TickResult} (h : first.action ≠ .none) :
    (combineSpawnResults task first rest).action ≠ .none := by
  unfold combineSpawnResults
  dsimp only
  split
  · decide
  · exact h

/-! ### Completion -/

theorem only_aggregateParts (task : TeamTask) (steps : List TeamStep) :
    (aggregateParts task steps).Only CalmCall fun _ => True := by
  induction steps with
  | nil =>
      exact trivial
  | cons s steps ih =>
      exact ⟨rfl, fun _ => ih.bind fun _ _ => trivial⟩

theorem only_aggregate (cfg : OfficeConfig) (task : TeamTask) :
    (aggregate cfg task).Only CalmCall fun _ => True := by
  refine (only_aggregateParts task _).bind fun parts _ => ?_
  dsimp only
  split
  · refine ⟨rfl, fun result => ?_⟩
    cases result <;> exact trivial
  · exact trivial

theorem only_recordAggregateCost (task : TeamTask) (cost : Option ℚ) :
    (recordAggregateCost task cost).Only CalmCall fun _ => True := by
  cases cost with
  | none =>
      exact trivial
  | some cost =>
      exact ⟨rfl, fun _ => trivial⟩

theorem reviewChild_eq_some {id : String} {t : StepType} {r : TeamStep} (h : reviewChild task id t = some r) :
    r ∈ task.steps ∧ r.stepType = t ∧ r.parentStepId = some id := by
  have hmem := List.mem_of_getLast? h
  simpa [childrenOf] using hmem

theorem step?_of_mem (hlisted : task.Listed) (hstep : step ∈ task.steps) : task.step? step.stepId = some step := by
  have hfound : (task.step? step.stepId).isSome = true := by
    simp only [TeamTask.step?, List.find?_isSome, decide_eq_true_eq]
    exact ⟨step, hstep, rfl⟩
  obtain ⟨found, hfound⟩ := Option.isSome_iff_exists.1 hfound
  obtain ⟨hmem, hid⟩ := step?_eq_some hfound
  rw [hfound, Table.eq_of_key hlisted.unique hmem hstep hid]

/-- When all is done and the review rule has nothing to do, the newest review of a step has passed: a
rejected one would have a rework of its round, and that rework a newer review. -/
theorem gate_of_reviewed (hlisted : task.Listed) (hcalm : Calm log) (hdone : task.allDone = true)
    (hreviewed : ∀ s ∈ task.steps, s.status = .done → Reviewed staffOk log task s) : Gate staffOk log task where
  allDone := hdone
  calm := hcalm
  passed := by
    have hall : ∀ s ∈ task.steps, s.status = .done := by
      simp only [TeamTask.allDone, Bool.and_eq_true, List.all_eq_true, decide_eq_true_eq] at hdone
      exact hdone.2
    intro hstaffed c hc hwork hneeds
    obtain ⟨r, hr⟩ := Option.isSome_iff_exists.1 ((hreviewed c hc (hall c hc)).minted hstaffed hwork hneeds)
    obtain ⟨hmem, htype, hparent⟩ := reviewChild_eq_some hr
    obtain ⟨verdict, hread, hnewest, hverdict⟩ :=
      (hreviewed r hmem (hall r hmem)).verdict htype _ c hparent (step?_of_mem hlisted hc)
    cases verdict with
    | none =>
        exact absurd hr (hnewest rfl)
    | some v =>
        refine ⟨r, v, hr, hread, ?_⟩
        rcases hverdict v rfl with hpassed | hrework
        · exact hpassed
        simp only [reworkThisRound, List.any_eq_true, Bool.and_eq_true, decide_eq_true_eq] at hrework
        obtain ⟨s, hs, ⟨hstype, hsparent⟩, hround⟩ := hrework
        have hnext := (hreviewed s hs (hall s hs)).again hstaffed hstype _ c hsparent (step?_of_mem hlisted hc)
        simp only [reviewedInRound, hr, Option.any_some, decide_eq_true_eq] at hnext
        omega

theorem ticks_aggregateAndDeliver (cfg : OfficeConfig) (htask : task ∈ tasks) (hlisted : task.Listed)
    (hlook : Looking tasks log) (hdone : task.allDone = true)
    (hreviewed : ∀ s ∈ task.steps, s.status = .done → Reviewed staffOk log task s) :
    Ticks cfg.concurrency staffOk (aggregateAndDeliver cfg task) log fun _ r => r.action ≠ .none := by
  refine (ticks_of_calm (only_aggregate cfg task)).bind fun log₁ summary h₁ => ?_
  refine (ticks_of_calm (only_recordAggregateCost task summary.2)).bind fun log₂ _ h₂ => ?_
  refine (ticks_of_calm (only_milestone task _ _)).bind fun log₃ _ h₃ => ?_
  have hadd := (h₁.1.trans h₂.1).trans h₃.1
  have hlook₃ := hlook.added hadd
  refine ⟨⟨task, hlook₃.snap htask, rfl, .inr ⟨rfl, ?_⟩⟩, fun _ _ => ?_⟩
  · exact gate_of_reviewed hlisted hlook₃.1 hdone fun s hs h => (hreviewed s hs h).mono hadd.grows
  · exact fun h => by cases h

theorem ticks_deadEndResult (htask : task ∈ tasks) (hlook : Looking tasks log) :
    Ticks k staffOk (deadEndResult task) log
      (Outcome (fun log' => log <+: log' ∧ Looking tasks log') fun _ r => r.action ≠ .none) := by
  unfold deadEndResult
  split
  · exact ⟨List.prefix_rfl, hlook⟩
  · refine ⟨⟨task, hlook.snap htask, rfl, .inl rfl⟩, fun _ _ => ?_⟩
    refine (ticks_of_calm (only_escalate task _ _ _)).bind fun _ _ _ => ?_
    exact fun h => by cases h

theorem ticks_finish (cfg : OfficeConfig) (htask : task ∈ tasks) (hlisted : task.Listed) (hlook : Looking tasks log)
    (hreviewed : ∀ s ∈ task.steps, s.status = .done → Reviewed staffOk log task s) :
    Ticks cfg.concurrency staffOk (finish cfg task) log (ActsOrLooks tasks log) := by
  unfold finish
  split
  · rename_i hdone
    exact (ticks_aggregateAndDeliver cfg htask hlisted hlook hdone hreviewed).mono
      (fun _ _ hr hnone => absurd hnone hr) fun _ _ h => h
  · refine (ticks_deadEndResult htask hlook).bind fun log' r hr => ?_
    cases r with
    | none =>
        exact fun _ => hr
    | some r =>
        exact fun hnone => absurd hnone hr

theorem ticks_dispatchOrFinish (cfg : OfficeConfig) (htask : task ∈ tasks) (hlisted : task.Listed)
    (hlook : Looking tasks log)
    (hreviewed : ∀ s ∈ task.steps, s.status = .done → Reviewed staffOk log task s) :
    Ticks cfg.concurrency staffOk (dispatchOrFinish cfg task) log (ActsOrLooks tasks log) := by
  unfold dispatchOrFinish
  split
  · exact ticks_finish cfg htask hlisted hlook hreviewed
  refine (ticks_dispatchReadySteps cfg htask hlook (underReview_of_reviewed hreviewed)).bind
    fun log₁ spawned h₁ => ?_
  obtain ⟨hadd, hlook₁, hacted, -⟩ := h₁
  cases spawned with
  | nil =>
      refine (ticks_finish cfg htask hlisted (hlook₁ rfl) fun s hs h => (hreviewed s hs h).mono hadd.grows).mono
        (fun log₂ r hr hnone => ?_) fun _ _ h => h
      exact ⟨hadd.grows.trans (hr hnone).1, (hr hnone).2⟩
  | cons first rest =>
      exact fun hnone => absurd hnone (combineSpawnResults_acts (hacted first (by simp)))

/-! ### The tick -/

theorem ticks_actWithinCap (cfg : OfficeConfig) (htask : task ∈ tasks) (hlisted : task.Listed)
    (hlook : Looking tasks log) : Ticks cfg.concurrency staffOk (actWithinCap cfg task) log (ActsOrLooks tasks log) := by
  refine (ticks_maybeInsertReviewRows hlisted htask hlook).bind fun log₁ reviewed h₁ => ?_
  cases reviewed with
  | some r =>
      exact fun hnone => absurd hnone h₁
  | none =>
      obtain ⟨hpre₁, hlook₁, hreviewed⟩ := h₁
      refine (ticks_pollSteps htask hlook₁ (underReview_of_reviewed hreviewed)).bind fun log₂ polled h₂ => ?_
      cases polled with
      | some r =>
          exact fun hnone => absurd hnone h₂
      | none =>
          obtain ⟨hpre₂, hlook₂⟩ := h₂
          refine (ticks_dispatchOrFinish cfg htask hlisted hlook₂ fun s hs h =>
            (hreviewed s hs h).mono hpre₂).mono (fun log₃ r hr hnone => ?_) fun _ _ h => h
          exact ⟨(hpre₁.trans hpre₂).trans (hr hnone).1, (hr hnone).2⟩

theorem only_maybeWarnCostCap (cfg : OfficeConfig) (task : TeamTask) (spent : ℚ) :
    (maybeWarnCostCap cfg task spent).Only CalmCall fun _ => True := by
  unfold maybeWarnCostCap
  split
  · exact only_milestone task _ _
  · exact trivial

theorem ticks_actOnTask (cfg : OfficeConfig) (htask : task ∈ tasks) (hlisted : task.Listed)
    (hlook : Looking tasks log) : Ticks cfg.concurrency staffOk (actOnTask cfg task) log (ActsOrLooks tasks log) := by
  unfold actOnTask
  split
  · refine ⟨.of_calm _ _ rfl, fun spent _ => ?_⟩
    have hadd := (Added.refl log).asked (H := CalmCall) (e := .store (.sumCost task.id)) rfl spent
    simp only [ret_bind]
    split
    · refine (ticks_of_calm (only_maybeWarnCostCap cfg task spent)).bind fun log₁ _ h₁ => ?_
      have hadd₁ := hadd.trans h₁.1
      refine (ticks_actWithinCap cfg htask hlisted (hlook.added hadd₁)).mono
        (fun log₂ r hr hnone => ?_) fun _ _ h => h
      exact ⟨hadd₁.grows.trans (hr hnone).1, (hr hnone).2⟩
    · refine ⟨⟨task, (hlook.added hadd).snap htask, rfl, .inl rfl⟩, fun _ _ => ?_⟩
      refine (ticks_of_calm (only_escalate task _ _ _)).bind fun _ _ _ => ?_
      exact fun h => by cases h
  · refine ⟨⟨task, hlook.snap htask, rfl, .inl rfl⟩, fun _ _ => ?_⟩
    refine (ticks_of_calm (only_escalate task _ _ _)).bind fun _ _ _ => ?_
    exact fun h => by cases h

/-- The ticker keeps to its contract. -/
theorem tickerProg_follows (cfg : OfficeConfig) :
    Ticks cfg.concurrency staffOk (tickerProg cfg) [] fun _ _ => True := by
  refine Follows.bind (Q := fun _ _ => True) ?_ fun _ _ _ => trivial
  refine Follows.bind (Q := fun _ _ => True) ?_ fun log _ _ => ⟨.of_calm _ _ rfl, fun _ _ => trivial⟩
  refine ⟨rfl, fun openTasks hopen => ?_⟩
  have hlook : Looking openTasks [⟨.store .listDispatchable, openTasks⟩] := by
    refine ⟨fun x hx => ?_, List.mem_singleton.2 rfl⟩
    rw [List.mem_singleton.1 hx]
    rfl
  simp only [ret_bind, List.nil_append]
  refine Follows.bind (ticks_firstSome hlook fun task htask log' _ hlook' => ?_) fun _ _ _ => trivial
  exact ticks_acting (ticks_actOnTask cfg htask (hopen task htask) hlook')

/-! ### What is minted -/

/-- The four rows that the review rule mints for a finished step of the snapshot. -/
inductive Minting (log : OfficeLog) (task : TeamTask) (step : TeamStep) : StepDict → Prop where
  /-- the first review of a step -/
  | first {reviewer : String} (hwork : step.stepType = .work) (hneeds : step.needsReview = true)
      (hnone : reviewChild task step.stepId .review = none) (hpeer : reviewer ≠ step.assignedTo) :
      Minting log task step (reviewDict task step reviewer 0 none)
  /-- a review of the same round, when the newest one has left no verdict -/
  | again {content : TeamStep} (hreview : step.stepType = .review)
      (hcontent : step.parentStepId.bind task.step? = some content)
      (hnewest : reviewChild task content.stepId .review = some step)
      (hverdict : log.Has (.readArtifact (reviewVerdictArtifactPath task.id content.seq step.reviewRound)) none) :
      Minting log task step (reviewDict task content step.assignedTo step.reviewRound none)
  /-- the rework after a verdict -/
  | rework {content : TeamStep} {v : Artifact} (hreview : step.stepType = .review)
      (hcontent : step.parentStepId.bind task.step? = some content)
      (hverdict : log.Has (.readArtifact (reviewVerdictArtifactPath task.id content.seq step.reviewRound)) (some v))
      (hfailed : v.isPassed = false) (hround : step.reviewRound < maxReviewRounds)
      (hnone : reworkThisRound task content.stepId step.reviewRound = false) :
      Minting log task step (reworkDict task content step.reviewRound)
  /-- the review of the next round, after a rework -/
  | next {content : TeamStep} {reviewer : String} (hrework : step.stepType = .rework)
      (hcontent : step.parentStepId.bind task.step? = some content)
      (hnone : reviewedInRound task content.stepId (step.reviewRound + 1) = false)
      (hpeer : reviewer ≠ content.assignedTo) :
      Minting log task step (reviewDict task content reviewer (step.reviewRound + 1) (some step.stepId))

/-- A reviewer is someone else. -/
theorem pickReviewer_ne {author reviewer : String} {staff : List (String × String)}
    (h : pickReviewer author staff = some reviewer) : reviewer ≠ author := by
  have hpeer : ∀ x ∈ ((staff.map Prod.fst).filter fun a => decide (a ≠ author)).dedup.insertionSort (· ≤ ·),
      x ≠ author := by
    intro x hx
    rw [List.mem_insertionSort, List.mem_dedup, List.mem_filter] at hx
    simpa using hx.2
  unfold pickReviewer at h
  dsimp only at h
  rw [Option.orElse_eq_some] at h
  rcases h with h | ⟨-, h⟩
  · exact hpeer reviewer (List.mem_filter.1 (List.mem_of_mem_head? h)).1
  · exact hpeer reviewer (List.mem_of_mem_head? h)

/-- A minted row is one of the four, and its step is done. -/
theorem Mints.cases {d : StepDict} (h : Mints log task step d) : step.status = .done ∧ Minting log task step d := by
  obtain ⟨staff, files, hdecision, hread⟩ := h
  unfold reviewDecision at hdecision
  split at hdecision
  · cases hdecision
  rename_i hdone
  refine ⟨by simpa using hdone, ?_⟩
  split at hdecision
  · rename_i hwork
    unfold decideWork at hdecision
    split at hdecision
    · rename_i hdue
      obtain ⟨reviewer, hreviewer, hd⟩ := Option.map_eq_some_iff.1 hdecision
      cases hd
      exact .first hwork hdue.1 (by simpa using hdue.2) (pickReviewer_ne hreviewer)
    · cases hdecision
  · rename_i hreview
    obtain ⟨content, hcontent, hdecision⟩ := Option.bind_eq_some_iff.1 hdecision
    have hread := hread content hreview hcontent
    revert hdecision hread
    cases files (reviewVerdictArtifactPath task.id content.seq step.reviewRound) with
    | none =>
        intro hdecision hread
        simp only [decideVerdict] at hdecision
        split at hdecision
        · rename_i hnewest
          cases hdecision
          exact .again hreview hcontent hnewest hread
        · cases hdecision
    | some v =>
        intro hdecision hread
        simp only [decideVerdict] at hdecision
        split at hdecision
        · cases hdecision
        rename_i hfailed
        split at hdecision
        · cases hdecision
        rename_i hround
        split at hdecision
        · cases hdecision
        rename_i hnone
        cases hdecision
        exact .rework hreview hcontent hread (by simpa using hfailed) (by omega) (by simpa using hnone)
  · rename_i hrework
    obtain ⟨content, hcontent, hdecision⟩ := Option.bind_eq_some_iff.1 hdecision
    unfold decideRework at hdecision
    split at hdecision
    · cases hdecision
    rename_i hnone
    obtain ⟨reviewer, hreviewer, hd⟩ := Option.map_eq_some_iff.1 hdecision
    cases hd
    exact .next hrework hcontent (by simpa using hnone) (pickReviewer_ne hreviewer)

/-- A minted row is a review, or a rework that waits for one step. -/
theorem Minting.kind {d : StepDict} (h : Minting log task step d) :
    d.stepType = some .review ∨ d.stepType = some .rework ∧ ∃ dep, d.deps = [dep] := by
  cases h with
  | rework =>
      exact .inr ⟨rfl, _, rfl⟩
  | _ =>
      exact .inl rfl

end Parts

end ProjectManager
