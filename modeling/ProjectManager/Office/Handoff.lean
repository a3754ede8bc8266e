import ProjectManager.Office.Delivery

/-!
# What a step hands on

`perceive` maps the deps of a step to the files `step-<seq>.json` of their rows.  A result in such a file
was written by a worker of that very row (`Office.Handed`), and never by a review, whose verdict goes to
a file of another name.  So a dependent reads the work of its dependency itself, reviewed or not
(`handoff_own_work`), and a rework, which waits for a review row, reads nothing of the verdict
(`rework_brief_iff`).
-/

namespace ProjectManager

open Process Process.Prog

/-! ### Runs of `perceive` -/

section Reads

variable {taskId dep : String} {mid : OfficeLog}

/-- A text that is handed on is the result of the artifact. -/
theorem resultText_of_text {artifact : Option Artifact} {text : String}
    (h : (artifact.map Artifact.text).filter (fun text => decide (text ≠ "")) = some text) :
    ∃ a, artifact = some a ∧ a.resultText = some text ∧ text ≠ "" := by
  obtain ⟨htext, hne⟩ := Option.filter_eq_some_iff.1 h
  obtain ⟨a, rfl, rfl⟩ := Option.map_eq_some_iff.1 htext
  have hne : a.text ≠ "" := by simpa using hne
  refine ⟨a, rfl, ?_, hne⟩
  unfold Artifact.text at hne ⊢
  cases hresult : a.resultText with
  | none =>
      simp [hresult] at hne
  | some text =>
      rfl

/-- What the two calls for one dependency give: nothing, or the result of the artifact in its file. -/
theorem runs_depHandoff {part : Option String} (h : (depHandoff taskId dep).Runs mid part) :
    part = none ∨ ∃ (d : TeamStep) (a : Artifact) (text : String), part = some text ∧ text ≠ "" ∧
      mid.Has (.store (.getStep taskId dep)) (some d) ∧
      mid.Has (.readArtifact (stepArtifactPath taskId d.seq)) (some a) ∧ a.resultText = some text := by
  obtain ⟨depStep, rest, rfl, hrest⟩ := Runs.of_call h
  cases depStep with
  | none =>
      exact .inl (Runs.of_ret hrest).1
  | some d =>
      obtain ⟨artifact, rest', rfl, hrest'⟩ := Runs.of_call hrest
      obtain ⟨rfl, rfl⟩ := Runs.of_ret hrest'
      cases hpart : (artifact.map Artifact.text).filter fun text => decide (text ≠ "") with
      | none =>
          exact .inl rfl
      | some text =>
          obtain ⟨a, rfl, hresult, hne⟩ := resultText_of_text hpart
          exact .inr ⟨d, a, text, rfl, hne, List.mem_cons_self, List.mem_cons_of_mem _ List.mem_cons_self, hresult⟩

/-- The text for one dependency is that of the artifact that was read for it. -/
theorem depHandoff_reads {part : Option String} {d : TeamStep} {a : Artifact}
    (h : (depHandoff taskId dep).Runs mid part) (hstep : mid.Has (.store (.getStep taskId dep)) (some d))
    (hread : mid.Has (.readArtifact (stepArtifactPath taskId d.seq)) (some a)) : part.getD "" = a.text := by
  obtain ⟨depStep, rest, rfl, hrest⟩ := Runs.of_call h
  cases depStep with
  | none =>
      obtain ⟨-, rfl⟩ := Runs.of_ret hrest
      simp [Log.Has] at hread
  | some d' =>
      obtain ⟨artifact, rest', rfl, hrest'⟩ := Runs.of_call hrest
      obtain ⟨rfl, rfl⟩ := Runs.of_ret hrest'
      obtain rfl : d = d' := by simpa [Log.Has] using hstep
      obtain rfl : some a = artifact := by simpa [Log.Has] using hread
      by_cases hempty : a.text = "" <;> simp [Option.filter, hempty]

/-- The text of a step with one dependency. -/
theorem runs_readDepsHandoff_one {text : String} (h : (readDepsHandoff taskId [dep]).Runs mid text) :
    ∃ part, (depHandoff taskId dep).Runs mid part ∧ text = part.getD "" := by
  obtain ⟨log₁, parts, log₂, rfl, hparts, htext⟩ := Runs.of_bind h
  obtain ⟨rfl, rfl⟩ := Runs.of_ret htext
  obtain ⟨log₃, part, log₄, rfl, hpart, hrest⟩ := Runs.of_bind hparts
  obtain ⟨log₅, rest, log₆, rfl, hnil, hret⟩ := Runs.of_bind hrest
  obtain ⟨rfl, rfl⟩ := Runs.of_ret hnil
  obtain ⟨rfl, rfl⟩ := Runs.of_ret hret
  refine ⟨part, by simpa using hpart, ?_⟩
  cases part with
  | none =>
      rfl
  | some text =>
      simp

end Reads

/-! ### Whose text it is -/

section Handoff

variable {cfg : OfficeConfig} {staffOk : List (String × String) → Prop} {pool : OfficePool} {s : Spawn}
  {log before mid after : OfficeLog}

/-- A result that a worker has read in the file of a row was written by a worker of that row. -/
theorem WorkerLink.author {w : Office} (hinv : w.Inv cfg staffOk) (h : WorkerLink s log w) {dep : String} {d : TeamStep}
    {a : Artifact} (hstep : log.Has (.store (.getStep s.taskId dep)) (some d))
    (hread : log.Has (.readArtifact (stepArtifactPath s.taskId d.seq)) (some a)) (hresult : a.resultText ≠ none) :
    d.stepType ≠ .review ∧
      ∃ s' ∈ w.spawned, s'.taskId = s.taskId ∧ s'.stepId = d.stepId ∧ a.version = some s'.attemptId := by
  obtain ⟨hever, -, -⟩ := h.rows _ _ _ hstep
  obtain ⟨i, hi, s', hs', -, hseq, htype, htask, hid, hversion⟩ := h.reads _ _ _ hread hresult
  have hsame : i = d.toStepIdent := hinv.ledger.history.everUnique i hi _ hever hseq
  subst hsame
  exact ⟨htype, s', hs', htask, hid, hversion⟩

theorem has_of_mid {e : OfficeCall} {r : e.Resp} (hlog : log = before ++ mid ++ after) (h : mid.Has e r) :
    log.Has e r := by
  rw [hlog]
  exact List.mem_append_left _ (List.mem_append_right _ h)

/-- When a step is spawned, every dependency that is up for review has finished (if the step was pending)
and a finished one has a review row.  What the step then reads for a dependency is nothing or the result
that a worker of the dependency itself has written. -/
theorem handoff_own_work (hsha : Function.Injective cfg.rt.sha256) (hstaffed : Staffed staffOk)
    (hreach : (officeSystem cfg staffOk anyCall).Reach (officeInit staffOk) pool)
    {q : Proc OfficeParty OfficeCall OfficeCall.Resp} (hq : q ∈ pool.procs) :
    (∀ s, q.next = some (.spawnStep s) → ∃ task d, Snap q.log task ∧ d ∈ task.steps ∧ s.taskId = task.id ∧
      s.stepId = d.stepId ∧ ∀ c ∈ task.steps, c.stepId ∈ d.deps → c.stepType = .work → c.needsReview = true →
        (d.status = .pending → c.status = .done) ∧
          (c.status = .done → ∃ r ∈ task.steps, r.stepType = .review ∧ r.parentStepId = some c.stepId)) ∧
      ∀ s before mid after dep part, q.party = .worker s → q.log = before ++ mid ++ after →
        (depHandoff s.taskId dep).Runs mid part → part = none ∨
          ∃ c a, mid.Has (.store (.getStep s.taskId dep)) (some c) ∧ c.stepId = dep ∧
            mid.Has (.readArtifact (stepArtifactPath s.taskId c.seq)) (some a) ∧ part = a.resultText ∧
            c.stepType ≠ .review ∧
            ∃ s' ∈ pool.world.spawned, s'.taskId = s.taskId ∧ s'.stepId = c.stepId ∧
              a.version = some s'.attemptId := by
  have hok := officeOk hsha hreach
  refine ⟨fun s hnext => ?_, fun s before mid after dep part hparty hlog hruns => ?_⟩
  · obtain ⟨-, hlink, hobeys⟩ := hok.at_next hq hnext
    obtain ⟨party, prog, log⟩ := q
    cases party with
    | worker s' =>
        cases hobeys
    | ticker =>
        obtain ⟨task, d, hlaunch⟩ := hobeys
        refine ⟨task, d, hlaunch.chosen.1, hlaunch.chosen.2.1, hlaunch.taskId, hlaunch.stepId, ?_⟩
        intro c hc hdep hwork hneeds
        refine ⟨fun hpending => ?_, fun hdone => ?_⟩
        · have hready := hlaunch.ready hpending
          simp only [readyPendingSteps, List.mem_filter, Bool.and_eq_true, List.all_eq_true, decide_eq_true_eq,
            List.mem_map] at hready
          obtain ⟨c', ⟨hc', hdone⟩, hid⟩ := hready.2.2 c.stepId hdep
          have hlisted := TickerLink.listed hlink task hlaunch.chosen.1
          rwa [← Table.eq_of_key hlisted.unique hc' hc hid]
        · obtain ⟨r, hr⟩ := Option.isSome_iff_exists.1 (hlaunch.underReview hstaffed c hc hdone hwork hneeds)
          obtain ⟨hmem, htype, hparent⟩ := reviewChild_eq_some hr
          exact ⟨r, hmem, htype, hparent⟩
  · obtain ⟨-, hlink⟩ := hok.procs q hq
    rw [hparty] at hlink
    rcases runs_depHandoff hruns with hnone | ⟨c, a, text, rfl, -, hstep, hread, hresult⟩
    · exact .inl hnone
    obtain ⟨htype, hauthor⟩ := WorkerLink.author hok.inv hlink (has_of_mid hlog hstep) (has_of_mid hlog hread)
      (by simp [hresult])
    have hid := (WorkerLink.rows hlink _ _ _ (has_of_mid hlog hstep)).2.2
    exact .inr ⟨c, a, hstep, hid, hread, hresult.symm, htype, hauthor⟩

/-- A rework reads what it is asked to mend only when there is nothing to read, or when the row that it
waits for is no review any more. -/
theorem rework_brief_iff (hsha : Function.Injective cfg.rt.sha256)
    (hreach : (officeSystem cfg staffOk anyCall).Reach (officeInit staffOk) pool)
    {q : Proc OfficeParty OfficeCall OfficeCall.Resp} (hq : q ∈ pool.procs) (hparty : q.party = .worker s)
    {row : TeamStep} (hrow : q.log.Has (.store (.getStep s.taskId s.stepId)) (some row))
    (hrework : row.stepType = .rework) (hlog : q.log = before ++ mid ++ after) {text : String}
    (hruns : (readDepsHandoff s.taskId row.deps).Runs mid text) (graded : String) (failures : List String) :
    (Text.contains text graded = true ∧ ∀ f ∈ failures, Text.contains text f = true) ↔
      (graded = "" ∧ ∀ f ∈ failures, f = "") ∨
        ∃ dep d a, row.deps = [dep] ∧ mid.Has (.store (.getStep s.taskId dep)) (some d) ∧ d.stepType ≠ .review ∧
          mid.Has (.readArtifact (stepArtifactPath s.taskId d.seq)) (some a) ∧
          Text.contains a.text graded = true ∧ ∀ f ∈ failures, Text.contains a.text f = true := by
  have hok := officeOk hsha hreach
  obtain ⟨-, hlink⟩ := hok.procs q hq
  rw [hparty] at hlink
  have hinv : pool.world.Inv cfg staffOk := hok.inv
  obtain ⟨dep, hdeps⟩ := hinv.reworks _ (WorkerLink.rows hlink _ _ _ hrow).1 hrework
  have hdeps : row.deps = [dep] := hdeps
  rw [hdeps] at hruns
  obtain ⟨part, hpart, rfl⟩ := runs_readDepsHandoff_one hruns
  constructor
  · rintro ⟨hgraded, hfailures⟩
    rcases runs_depHandoff hpart with rfl | ⟨d, a, text, rfl, -, hstep, hread, hresult⟩
    · left
      refine ⟨Text.contains_empty_iff.1 hgraded, fun f hf => Text.contains_empty_iff.1 (hfailures f hf)⟩
    · right
      obtain ⟨htype, -⟩ := WorkerLink.author hinv hlink (has_of_mid hlog hstep) (has_of_mid hlog hread)
        (by simp [hresult])
      have htext : a.text = text := by simp [Artifact.text, hresult]
      rw [Option.getD_some] at hgraded hfailures
      refine ⟨dep, d, a, hdeps, hstep, htype, hread, ?_, ?_⟩
      · rwa [htext]
      · rwa [htext]
  · rintro (⟨rfl, hempty⟩ | ⟨dep', d, a, hdeps', hstep, -, hread, hgraded, hfailures⟩)
    · refine ⟨Text.contains_empty _, fun f hf => ?_⟩
      rw [hempty f hf]
      exact Text.contains_empty _
    · rw [hdeps, List.singleton_inj] at hdeps'
      subst hdeps'
      rw [depHandoff_reads hpart hstep hread]
      exact ⟨hgraded, hfailures⟩

end Handoff

/-! ### A rejected draft -/

/-- The row that a log shows as the answer to a read. -/
def readRow (log : OfficeLog) (taskId stepId : String) : Option TeamStep :=
  log.findSome? fun
    | ⟨.store (.getStep t i), row⟩ => if t = taskId ∧ i = stepId then row else none
    | _ => none

theorem has_of_readRow {log : OfficeLog} {taskId stepId : String} {row : TeamStep}
    (h : readRow log taskId stepId = some row) : log.Has (.store (.getStep taskId stepId)) (some row) := by
  obtain ⟨x, hx, hrow⟩ := List.exists_of_findSome?_eq_some h
  split at hrow
  · split at hrow
    · rename_i hids
      obtain ⟨rfl, rfl⟩ := hids
      subst hrow
      exact hx
    · cases hrow
  · cases hrow

/-- The draft was reviewed and rejected, and the worker of the rework has read its handoff. -/
def reworkPool : OfficePool :=
  sampleRun sampleConfig twoOnDuty
    (wholeTurn ++ wholeTick ++ wholeTurn ++ wholeTick ++ [.start, .call 0 100, .leave 0, .call 0 5])
    ⟨.holding (sampleEnv "No sources") (.confirmed sampleConfig.rt reviewedPlan), []⟩

/-- The worker of the rework. -/
def reworkSpawn : Spawn :=
  ⟨"t", "s1-rework-0", "dev", 3⟩

theorem reworkPool_reach : (officeSystem sampleConfig twoOnDuty anyCall).Reach (officeInit twoOnDuty) reworkPool :=
  reach_sampleRun _ (reach_confirmed reviewedPlan rfl)

/-- The worker of the rework has read nothing, and the draft has been rejected. -/
theorem reworkPool_facts :
    (∃ q ∈ reworkPool.procs, q.party = .worker reworkSpawn ∧ ∃ row ∈ readRow q.log "t" "s1-rework-0",
      row.stepType = .rework ∧ row.taskId = "t" ∧ row.parentStepId = some "s1" ∧ row.reviewRound = 0 ∧
        (readDepsHandoff "t" row.deps).replay (q.log.drop 3) = some "") ∧
    ∃ content ∈ reworkPool.world.ledger.db.steps.rows, content.taskId = "t" ∧ content.stepId = "s1" ∧
      ∃ verdict ∈ reworkPool.world.files (reviewVerdictArtifactPath "t" content.seq 0),
        ∃ graded ∈ reworkPool.world.files (stepArtifactPath "t" content.seq),
          verdict.isPassed = false ∧ verdict.reviewedVersion = graded.version ∧ graded.text = "draft" := by
  decide +kernel

theorem reworkPool_reads : ∃ q ∈ reworkPool.procs, q.party = .worker reworkSpawn ∧
    ∃ row, q.log.Has (.store (.getStep "t" "s1-rework-0")) (some row) ∧ row.stepType = .rework ∧ row.taskId = "t" ∧
      row.parentStepId = some "s1" ∧ row.reviewRound = 0 ∧
      q.log = q.log.take 3 ++ q.log.drop 3 ++ [] ∧ (readDepsHandoff "t" row.deps).Runs (q.log.drop 3) "" := by
  obtain ⟨q, hq, hparty, row, hrow, htype, htask, hparent, hround, hreplay⟩ := reworkPool_facts.1
  exact ⟨q, hq, hparty, row, has_of_readRow hrow, htype, htask, hparent, hround, by simp, runs_of_replay hreplay⟩

/-- The rework of the sample run reads the empty text, which contains no more than an empty brief. -/
theorem rework_brief_iff_rejected : ∃ q ∈ reworkPool.procs, ∃ row : TeamStep, row.stepType = .rework ∧
    (readDepsHandoff "t" row.deps).Runs (q.log.drop 3) "" ∧
      (Text.contains "" "" = true ∧ ∀ f ∈ [""], Text.contains "" f = true) := by
  obtain ⟨q, hq, hparty, row, hrow, htype, -, -, -, hlog, hruns⟩ := reworkPool_reads
  refine ⟨q, hq, row, htype, hruns, ?_⟩
  refine (rework_brief_iff (s := reworkSpawn) Function.injective_id reworkPool_reach hq hparty hrow htype hlog hruns
    "" [""]).2 (.inl ⟨rfl, by simp⟩)

/-- The rework of a rejected draft is not told what to mend. -/
theorem rework_without_brief :
    ¬ ∀ (pool : OfficePool) (q : Proc OfficeParty OfficeCall OfficeCall.Resp) (s : Spawn) (row content : TeamStep)
      (verdict graded : Artifact) (before mid after : OfficeLog) (text : String),
      (officeSystem sampleConfig twoOnDuty anyCall).Reach (officeInit twoOnDuty) pool →
      q ∈ pool.procs → q.party = .worker s →
      q.log.Has (.store (.getStep s.taskId s.stepId)) (some row) → row.stepType = .rework →
      content ∈ pool.world.ledger.db.steps.rows → content.taskId = row.taskId →
      row.parentStepId = some content.stepId →
      pool.world.files (reviewVerdictArtifactPath row.taskId content.seq row.reviewRound) = some verdict →
      pool.world.files (stepArtifactPath row.taskId content.seq) = some graded →
      verdict.isPassed = false → verdict.reviewedVersion = graded.version →
      q.log = before ++ mid ++ after → (readDepsHandoff s.taskId row.deps).Runs mid text →
      Text.contains text graded.text = true ∧ ∀ f ∈ verdict.failures.getD [], Text.contains text f = true := by
  intro hclaim
  obtain ⟨q, hq, hparty, row, hrow, htype, htask, hparent, hround, hlog, hruns⟩ := reworkPool_reads
  obtain ⟨content, hcontent, hctask, hid, verdict, hverdict, graded, hgraded, hfailed, hversion, htext⟩ :=
    reworkPool_facts.2
  have hbrief := hclaim reworkPool q reworkSpawn row content verdict graded _ _ _ "" reworkPool_reach hq hparty hrow
    htype hcontent (hctask.trans htask.symm) (by rw [hparent, hid]) (by rw [htask, hround]; exact hverdict)
    (by rw [htask]; exact hgraded) hfailed hversion hlog hruns
  rw [htext] at hbrief
  exact absurd hbrief.1 (by decide)

/-! ### A text that nobody has graded -/

/-- A plan of two steps: the second builds on the first, which is up for review. -/
def dependentPlan : DecomposedTask where
  steps :=
    [{ stepId := "s1"
       title := "Draft"
       assignedTo := "dev"
       deps := []
       acceptance := ""
       stepType := .work
       needsReview := true
       stepId_stripped := Ledger.strip_s1
       title_stripped := Ledger.strip_draft
       title_nonblank := Ledger.draft_nonblank
       assignedTo_stripped := Ledger.strip_dev },
     { stepId := "s2"
       title := "Publish"
       assignedTo := "dev"
       deps := ["s1"]
       acceptance := ""
       stepType := .work
       needsReview := false
       stepId_stripped := Ledger.strip_s2
       title_stripped := by decide
       title_nonblank := by decide
       assignedTo_stripped := Ledger.strip_dev }]
  requiresApproval := true
  picId := ""
  nonempty := by simp
  bounded := by decide
  unique := by decide
  known := by decide
  irreflexive := by decide
  work := by decide

/-- The draft is done and its review minted; one tick has spawned the dependent and the review, and the
dependent has read its handoff. -/
def dependentPool : OfficePool :=
  sampleRun sampleConfig twoOnDuty (wholeTurn ++ wholeTick ++ [.start, .call 0 100, .leave 0, .call 0 5])
    ⟨.holding (sampleEnv "No sources") (.confirmed sampleConfig.rt dependentPlan), []⟩

theorem dependentPool_reach :
    (officeSystem sampleConfig twoOnDuty anyCall).Reach (officeInit twoOnDuty) dependentPool :=
  reach_sampleRun _ (reach_confirmed dependentPlan rfl)

/-- The first step is done and waits for a review, and the worker of the second has read its draft. -/
theorem dependentPool_facts :
    (∃ q ∈ dependentPool.procs, q.party = .worker ⟨"t", "s2", "dev", 2⟩ ∧
      (depHandoff "t" "s1").replay (q.log.drop 3) = some (some "draft")) ∧
    (∃ c ∈ dependentPool.world.ledger.db.steps.rows,
      c.taskId = "t" ∧ c.stepId = "s1" ∧ c.stepType = .work ∧ c.needsReview = true) ∧
    ∀ r ∈ dependentPool.world.ledger.db.steps.rows, r.stepType = .review → r.status ≠ .done := by
  decide +kernel

theorem dependentPool_reads : ∃ q ∈ dependentPool.procs, q.party = .worker ⟨"t", "s2", "dev", 2⟩ ∧
    q.log = q.log.take 3 ++ q.log.drop 3 ++ [] ∧ (depHandoff "t" "s1").Runs (q.log.drop 3) (some "draft") := by
  obtain ⟨q, hq, hparty, hreplay⟩ := dependentPool_facts.1
  exact ⟨q, hq, hparty, by simp, runs_of_replay hreplay⟩

/-- The dependent of the sample run reads a result of its dependency's own worker. -/
theorem handoff_own_work_dependent : ∃ q ∈ dependentPool.procs, ∃ (c : TeamStep) (a : Artifact),
    q.log.Has (.readArtifact (stepArtifactPath "t" c.seq)) (some a) ∧ a.resultText = some "draft" ∧
      c.stepId = "s1" ∧ ∃ s' ∈ dependentPool.world.spawned, s'.stepId = "s1" ∧ a.version = some s'.attemptId := by
  obtain ⟨q, hq, hparty, hlog, hruns⟩ := dependentPool_reads
  refine ⟨q, hq, ?_⟩
  rcases (handoff_own_work Function.injective_id staffed_twoOnDuty dependentPool_reach hq).2 _ _ _ _ _ _ hparty hlog
      hruns with hnone | ⟨c, a, -, hid, hread, hpart, -, s', hs', -, hstep, hversion⟩
  · cases hnone
  · exact ⟨c, a, has_of_mid hlog hread, hpart.symm, hid, s', hs', hstep.trans hid, hversion⟩

/-- A text that no review has graded is handed on. -/
theorem ungraded_text_handed_on :
    ¬ ∀ (pool : OfficePool) (q : Proc OfficeParty OfficeCall OfficeCall.Resp) (s : Spawn) (c : TeamStep)
      (before mid after : OfficeLog) (text : String),
      (officeSystem sampleConfig twoOnDuty anyCall).Reach (officeInit twoOnDuty) pool →
      q ∈ pool.procs → q.party = .worker s → c ∈ pool.world.ledger.db.steps.rows → c.taskId = s.taskId →
      c.stepType = .work → c.needsReview = true → q.log = before ++ mid ++ after →
      (depHandoff s.taskId c.stepId).Runs mid (some text) →
      ∃ source ∈ pool.world.ledger.db.steps.rows, ∃ a r v,
        (source = c ∨ source.stepType = .rework ∧ source.parentStepId = some c.stepId) ∧
          pool.world.files (stepArtifactPath s.taskId source.seq) = some a ∧ a.resultText = some text ∧
          r ∈ pool.world.ledger.db.steps.rows ∧ r.stepType = .review ∧ r.parentStepId = some c.stepId ∧
          r.status = .done ∧
          pool.world.files (reviewVerdictArtifactPath s.taskId c.seq r.reviewRound) = some v ∧
          v.isPassed = true := by
  intro hclaim
  obtain ⟨q, hq, hparty, hlog, hruns⟩ := dependentPool_reads
  obtain ⟨-, ⟨c, hc, htask, hid, hwork, hneeds⟩, hnone⟩ := dependentPool_facts
  obtain ⟨-, -, -, r, -, -, -, -, hr, htype, -, hdone, -⟩ := hclaim _ q _ c _ _ _ _ dependentPool_reach hq hparty hc
    htask hwork hneeds hlog (hid ▸ hruns)
  exact hnone r hr htype hdone

end ProjectManager
