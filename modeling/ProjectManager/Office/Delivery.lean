import Mathlib.Data.List.Dedup
import ProjectManager.Office.Schedule

/-!
# The gate before delivery

`delivery_gate`: at the moment when the ticker marks a task as done, every row of the task is done in the
store, and the newest review of each step that is up for review has been read as passed in that tick.
The snapshot that the ticker has decided on is still true then (`TickerLink.settled`): workers do not
write finished rows, and an amendment needs a row that is still pending.
-/

namespace ProjectManager

open Process

/-- The children of a step are found by the columns that never change. -/
theorem childrenOf_idents {steps steps' : List TeamStep}
    (h : steps.map (fun s => s.toStepIdent) = steps'.map (fun s => s.toStepIdent)) (id : String) (t : StepType) :
    (childrenOf steps id t).map (fun s => s.toStepIdent) = (childrenOf steps' id t).map (fun s => s.toStepIdent) := by
  refine filter_map_agree h fun a _ b _ hab => ?_
  rw [congrArg StepIdent.stepType hab, congrArg StepIdent.parentStepId hab]

theorem getLast?_idents {steps steps' : List TeamStep} {r : TeamStep}
    (h : steps.map (fun s => s.toStepIdent) = steps'.map (fun s => s.toStepIdent)) (hr : steps'.getLast? = some r) :
    ∃ r', steps.getLast? = some r' ∧ r'.toStepIdent = r.toStepIdent := by
  have hlast := congrArg List.getLast? h
  rw [List.getLast?_map, List.getLast?_map, hr, Option.map_some, Option.map_eq_some_iff] at hlast
  exact hlast

/-- There is a reviewer as soon as there is someone else. -/
theorem pickReviewer_ne_none {author : String} {roster : List (String × String)} (h : ∃ x ∈ roster, x.1 ≠ author) :
    pickReviewer author roster ≠ none := by
  obtain ⟨x, hx, hne⟩ := h
  have hpeer : x.1 ∈ ((roster.map Prod.fst).filter fun a => decide (a ≠ author)).dedup.insertionSort (· ≤ ·) := by
    rw [List.mem_insertionSort, List.mem_dedup, List.mem_filter]
    exact ⟨List.mem_map_of_mem hx, by simpa using hne⟩
  unfold pickReviewer
  dsimp only
  generalize (((roster.map Prod.fst).filter fun a => decide (a ≠ author)).dedup.insertionSort (· ≤ ·)) = peers at hpeer
  cases peers with
  | nil =>
      cases hpeer
  | cons a peers =>
      cases ((a :: peers).filter fun p => reviewerIdHints.any fun hint => Text.contains (lowerId p) hint).head? <;> simp

section Delivery

variable {cfg : OfficeConfig} {staffOk : List (String × String) → Prop} {pool : OfficePool}

/-- Whoever moves a task to `done` does so when every row of it is done and the newest review of each step
that is up for review reads as passed. -/
theorem delivery_gate (hsha : Function.Injective cfg.rt.sha256) (hstaffed : Staffed staffOk)
    (hreach : (officeSystem cfg staffOk anyCall).Reach (officeInit staffOk) pool)
    {q : Proc OfficeParty OfficeCall OfficeCall.Resp} (hq : q ∈ pool.procs) {taskId : String}
    (hnext : q.next = some (.store (.setTaskStatus taskId .done))) :
    (∀ row ∈ pool.world.ledger.db.stepsForTask taskId, row.status = .done) ∧
      ∀ c ∈ pool.world.ledger.db.stepsForTask taskId, c.stepType = .work → c.needsReview = true →
        ∃ r v, (childrenOf (pool.world.ledger.db.stepsForTask taskId) c.stepId .review).getLast? = some r ∧
          r.status = .done ∧
          q.log.Has (.readArtifact (reviewVerdictArtifactPath taskId c.seq r.reviewRound)) (some v) ∧
          v.isPassed = true := by
  obtain ⟨-, hlink, hobeys⟩ := (officeOk hsha hreach).at_next hq hnext
  obtain ⟨party, prog, log⟩ := q
  cases party with
  | worker s =>
      cases hobeys
  | ticker =>
      obtain ⟨task, hsnap, rfl, hstalled | ⟨-, hgate⟩⟩ := hobeys
      · cases hstalled
      obtain ⟨hidents, hdone⟩ := TickerLink.settled hlink hgate.calm task hsnap hgate.allDone
      refine ⟨hdone, fun c hc hwork hneeds => ?_⟩
      have hc' : c.toStepIdent ∈ task.steps.map fun s => s.toStepIdent := by
        rw [← hidents]
        exact List.mem_map_of_mem hc
      obtain ⟨c', hc', hident⟩ := List.mem_map.1 hc'
      obtain ⟨r', v, hnewest, hread, hpassed⟩ := hgate.passed hstaffed c' hc'
        (by rw [congrArg StepIdent.stepType hident, hwork]) (by rw [congrArg StepIdent.needsReview hident, hneeds])
      have hid : c'.stepId = c.stepId := congrArg (fun i : StepIdent => i.stepId) hident
      have hseq : c'.seq = c.seq := congrArg StepIdent.seq hident
      rw [reviewChild, hid] at hnewest
      obtain ⟨r, hr, hrident⟩ := getLast?_idents (childrenOf_idents hidents c.stepId .review) hnewest
      refine ⟨r, v, hr, ?_, ?_, hpassed⟩
      · exact hdone r (List.mem_filter.1 (List.mem_of_getLast? hr)).1
      · rw [← hseq, congrArg StepIdent.reviewRound hrident]
        exact hread

end Delivery

/-! ### A delivery -/

/-- A roster on which everyone has a reviewer. -/
def twoOnDuty (staff : List (String × String)) : Prop :=
  staff = [("dev", "Dev"), ("qa", "QA")]

theorem staffed_twoOnDuty : Staffed twoOnDuty := by
  rintro staff rfl author
  apply pickReviewer_ne_none
  by_cases hdev : author = "dev"
  · exact ⟨("qa", "QA"), by simp, by simp [hdev]⟩
  · exact ⟨("dev", "Dev"), by simp, Ne.symm hdev⟩

/-- A plan of one step that is up for review. -/
def reviewedPlan : DecomposedTask where
  steps :=
    [{ stepId := "s1"
       title := "Draft"
       assignedTo := "dev"
       deps := []
       acceptance := ""
       stepType := .work
       needsReview := true
       stepId_stripped := Ledger.strip_s1
       title_stripped := Ledger.strip_draft
       title_nonblank := Ledger.draft_nonblank
       assignedTo_stripped := Ledger.strip_dev }]
  requiresApproval := true
  picId := ""
  nonempty := by simp
  bounded := by decide
  unique := by simp
  known := by simp
  irreflexive := by simp
  work := by simp

/-- A tick that runs to its end, alone. -/
def wholeTick : List OfficeAct :=
  [.start, .call 0 100, .leave 0]

/-- A tick that spawns a worker, and that worker to its end. -/
def wholeTurn : List OfficeAct :=
  wholeTick ++ [.call 0 100, .leave 0]

/-- The step has run, its review was minted and has passed, and the tick is about to deliver. -/
def deliveringPool : OfficePool :=
  sampleRun sampleConfig twoOnDuty (wholeTurn ++ wholeTick ++ wholeTurn ++ [.start, .call 0 6])
    ⟨.holding (sampleEnv "pass") (.confirmed sampleConfig.rt reviewedPlan), []⟩

/-- The gate at the delivery of a reviewed step. -/
theorem delivery_gate_reviewed :
    ∃ q ∈ deliveringPool.procs, q.next = some (.store (.setTaskStatus "t" .done)) ∧
      ∃ c ∈ deliveringPool.world.ledger.db.stepsForTask "t", c.needsReview = true ∧
        ∃ r v, (childrenOf (deliveringPool.world.ledger.db.stepsForTask "t") c.stepId .review).getLast? = some r ∧
          r.status = .done ∧
          q.log.Has (.readArtifact (reviewVerdictArtifactPath "t" c.seq r.reviewRound)) (some v) ∧
          v.isPassed = true := by
  have hreach : (officeSystem sampleConfig twoOnDuty anyCall).Reach (officeInit twoOnDuty) deliveringPool :=
    reach_sampleRun _ (reach_confirmed reviewedPlan rfl)
  obtain ⟨q, hq, hnext⟩ : ∃ q ∈ deliveringPool.procs, q.next = some (.store (.setTaskStatus "t" .done)) := by
    decide +kernel
  obtain ⟨c, hc, hwork, hneeds⟩ : ∃ c ∈ deliveringPool.world.ledger.db.stepsForTask "t",
      c.stepType = .work ∧ c.needsReview = true := by decide +kernel
  refine ⟨q, hq, hnext, c, hc, hneeds, ?_⟩
  exact (delivery_gate Function.injective_id staffed_twoOnDuty hreach hq hnext).2 c hc hwork hneeds

end ProjectManager
