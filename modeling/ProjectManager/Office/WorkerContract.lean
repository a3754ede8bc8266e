import ProjectManager.Office.System

/-!
# The contract of a step worker

`stepWorker_follows`: whatever it is answered, a worker writes to its step at most once and only under
its own lease, writes a result only to the file of the step that it has read, finishes only when that
result stands, and writes no file after it has finished.  Up to the outcome the nodes of the graph issue
quiet calls only.
-/

namespace ProjectManager

open Process Process.Prog

/-- The call is quiet. -/
def Quiet (e : OfficeCall) : Prop :=
  e.quiet = true

section Nodes

variable {A : (e : OfficeCall) → e.Resp → Prop} {s : Spawn} {log log' : OfficeLog} {step : TeamStep}

theorem WorkerObeys.of_quiet (log : OfficeLog) (e : OfficeCall) (h : Quiet e) : WorkerObeys s log e := by
  unfold WorkerObeys
  split
  · cases h
  · cases h
  · exact h

/-! ### Quiet nodes -/

/-- The program only asks, reads and tells, and its result keeps the lease of the state. -/
def QuietNode (attemptId : AttemptId) (p : OfficeProg TeamStepState) : Prop :=
  p.Only Quiet fun s => s.attemptId = attemptId

theorem only_depHandoff (taskId dep : String) : (depHandoff taskId dep).Only Quiet fun _ => True := by
  refine ⟨rfl, fun depStep => ?_⟩
  cases depStep with
  | none =>
      exact trivial
  | some depStep =>
      exact ⟨rfl, fun _ => trivial⟩

theorem only_depHandoffs (taskId : String) (deps : List String) :
    (depHandoffs taskId deps).Only Quiet fun _ => True := by
  induction deps with
  | nil =>
      exact trivial
  | cons dep deps ih =>
      exact (only_depHandoff taskId dep).bind fun _ _ => ih.bind fun _ _ => trivial

theorem quiet_perceive (c : StepContext) (x : TeamStepState) : QuietNode x.attemptId (perceive c x) := by
  refine Only.bind (F := fun _ => True) ?_ fun _ _ => rfl
  exact (only_depHandoffs _ _).bind fun _ _ => trivial

theorem only_consultLoop (agent : String) (questions : List (String × String)) (x : Consults) :
    (consultLoop agent questions x).Only Quiet fun _ => True := by
  induction questions generalizing x with
  | nil =>
      exact trivial
  | cons q rest ih =>
      refine ⟨rfl, fun reply => ?_⟩
      cases reply with
      | error msg =>
          exact ih x
      | ok answer =>
          exact ih _

theorem only_proposeConsults (agent title handoff : String) :
    (proposeConsults agent title handoff).Only Quiet fun _ => True := by
  refine ⟨rfl, fun proposals => ?_⟩
  cases proposals <;> exact trivial

theorem only_preWorkConsult (c : StepContext) (x : TeamStepState) :
    (preWorkConsult c x).Only Quiet fun _ => True := by
  unfold preWorkConsult
  split
  · exact (only_proposeConsults _ _ _).bind fun _ _ => only_consultLoop _ _ _
  · exact trivial

theorem quiet_work (c : StepContext) (x : TeamStepState) : QuietNode x.attemptId (work c x) := by
  refine ⟨rfl, fun _ => (only_preWorkConsult c x).bind fun consults _ => ?_⟩
  refine ⟨rfl, fun found => ⟨rfl, fun result => ?_⟩⟩
  cases result with
  | ok r =>
      exact rfl
  | error msg =>
      show QuietNode x.attemptId (if maxRecover ≤ x.recoverCount then _ else _)
      split
      · exact trivial
      · exact rfl

theorem quiet_recoverConsult (agent : String) (x : TeamStepState) (questions : List (String × String)) :
    QuietNode x.attemptId (recoverConsult agent x questions) := by
  cases questions with
  | nil =>
      exact rfl
  | cons q rest =>
      refine ⟨rfl, fun reply => ?_⟩
      cases reply with
      | error msg =>
          exact rfl
      | ok answer =>
          show QuietNode x.attemptId (if answer.1 = "" then _ else _)
          split <;> exact rfl

theorem quiet_recover (c : StepContext) (x : TeamStepState) : QuietNode x.attemptId (recover c x) := by
  refine ⟨rfl, fun _ => ?_⟩
  show QuietNode x.attemptId (if c.step.assignedTo ≠ "" ∧ x.consultCount < maxConsults then _ else _)
  split
  · refine (only_proposeConsults _ _ _).bind fun proposals _ => ?_
    exact quiet_recoverConsult c.step.assignedTo { x with
      recoverCount := x.recoverCount + 1, workError := "", costUsd := paid (x.costUsd.getD 0) } proposals
  · exact rfl

theorem only_runSelfCheck (c : StepContext) (text criteria : String) :
    (runSelfCheck c text criteria).Only Quiet fun _ => True := by
  unfold runSelfCheck
  split
  · exact trivial
  · refine ⟨rfl, fun result => ?_⟩
    simp only [ret_bind]
    split <;> exact trivial

theorem quiet_selfCheck (c : StepContext) (x : TeamStepState) : QuietNode x.attemptId (selfCheck c x) := by
  unfold QuietNode selfCheck
  simp only [bind_eq, pure_eq]
  refine Only.bind (F := fun _ => True) ⟨rfl, fun _ => trivial⟩ fun _ _ => ?_
  exact Only.bind (only_runSelfCheck c x.resultText x.acceptance) fun verdict _ => rfl

theorem quiet_rework (c : StepContext) (x : TeamStepState) : QuietNode x.attemptId (rework c x) :=
  ⟨rfl, fun _ => ⟨rfl, fun result => (Only.ofExcept result).bind fun _ _ => rfl⟩⟩

/-! ### Logs before the outcome -/

/-- The worker has read its step and has not recorded an outcome. -/
def Working (s : Spawn) (step : TeamStep) (log : OfficeLog) : Prop :=
  Unsettled log ∧ log.Has (.store (.getStep s.taskId s.stepId)) (some step)

theorem Unsettled.append (h : Unsettled log) {more : OfficeLog}
    (hmore : ∀ x ∈ more, ∀ taskId stepId status extras attemptId,
      x.1 ≠ .store (.setStepStatus taskId stepId status extras attemptId)) : Unsettled (log ++ more) := by
  intro taskId stepId status extras attemptId r hr
  rcases List.mem_append.1 hr with hr | hr
  · exact h taskId stepId status extras attemptId r hr
  · exact hmore _ hr taskId stepId status extras attemptId rfl

theorem Unsettled.added (h : Unsettled log) (hadd : Added Quiet log log') : Unsettled log' := by
  obtain ⟨more, rfl, hmore⟩ := hadd
  refine h.append fun x hx taskId stepId status extras attemptId heq => ?_
  have hquiet := hmore x hx
  rw [heq] at hquiet
  cases hquiet

theorem Working.added (h : Working s step log) (hadd : Added Quiet log log') : Working s step log' :=
  ⟨h.1.added hadd, h.2.mono hadd.grows⟩

theorem Working.asked (h : Working s step log) {e : OfficeCall} (he : Quiet e) (r : e.Resp) :
    Working s step (log ++ [⟨e, r⟩]) :=
  h.added (.one he)

/-- A quiet program keeps the log such that an outcome can be recorded. -/
theorem Working.follows {α : Type} {p : OfficeProg α} {R : α → Prop} (h : Working s step log) (hp : p.Only Quiet R) :
    p.Follows A (WorkerObeys s) (fun log' a => Working s step log' ∧ R a) (fun log' _ => Working s step log') log :=
  (hp.follows (fun log e he => .of_quiet log e he) log).mono
    (fun _ _ hlog => ⟨h.added hlog.1, hlog.2⟩) fun _ _ hlog => h.added hlog

theorem Unsettled.undone (h : Unsettled log) : Undone log :=
  fun taskId stepId x attemptId r => h taskId stepId .done x attemptId r

theorem Undone.asked (h : Undone log) {e : OfficeCall} (he : ∀ taskId stepId x attemptId,
    e ≠ .store (.setStepStatus taskId stepId .done x attemptId)) (r : e.Resp) : Undone (log ++ [⟨e, r⟩]) := by
  intro taskId stepId x attemptId r' hr'
  rcases hr'.of_append with hr' | ⟨heq, -⟩
  · exact h taskId stepId x attemptId r' hr'
  · exact he taskId stepId x attemptId heq

theorem Standing.asked {n : ℕ} (h : Standing s log n) {e : OfficeCall} (he : Quiet e) (r : e.Resp) :
    Standing s (log ++ [⟨e, r⟩]) n := by
  obtain ⟨before, a, after, rfl, hversion, hquiet⟩ := h
  refine ⟨before, a, after ++ [⟨e, r⟩], by simp, hversion, fun x hx => ?_⟩
  rcases List.mem_append.1 hx with hx | hx
  · exact hquiet x hx
  · rw [List.mem_singleton.1 hx]
    exact he

theorem Working.wrote (h : Working s step log) {path : ArtifactPath} {a : Artifact} (r : Unit) :
    Working s step (log ++ [⟨.writeArtifact path a, r⟩]) := by
  refine ⟨h.1.append fun x hx taskId stepId status extras attemptId heq => ?_, h.2.mono (List.prefix_append _ _)⟩
  rw [List.mem_singleton.1 hx] at heq
  cases heq

/-! ### The graph -/

variable {c : StepContext}

/-- What a node leaves behind: when the graph ends here, the result stands or the step waits for an
approval. -/
def NodeDone (c : StepContext) (node : GraphNode) (log : OfficeLog) (x : TeamStepState) : Prop :=
  Working c.spawn c.step log ∧ x.attemptId = c.spawn.attemptId ∧
    (node.route x = none → x.status = some .awaitingApproval ∨ Standing c.spawn log c.step.seq)

theorem follows_deliverStep (h : Working c.spawn c.step log) (hwork : c.step.stepType ≠ .review)
    (x : TeamStepState) (hx : x.attemptId = c.spawn.attemptId) :
    (deliverStep c x).Follows A (WorkerObeys c.spawn) (NodeDone c .deliver)
      (fun log' _ => Working c.spawn c.step log') log := by
  refine ⟨⟨.inr (.inr ⟨c.step, h.2, hwork, rfl, ?_⟩), h.1.undone⟩, fun r _ => ⟨h.wrote r, hx, fun _ => .inr ?_⟩⟩
  · simp only [handoffArtifact, hx]
  · refine ⟨log, handoffArtifact c x, [], rfl, ?_, by simp⟩
    simp only [handoffArtifact, hx]

theorem follows_deliver (h : Working c.spawn c.step log) (hwork : c.step.stepType ≠ .review)
    (x : TeamStepState) (hx : x.attemptId = c.spawn.attemptId) :
    (deliver c x).Follows A (WorkerObeys c.spawn) (NodeDone c .deliver)
      (fun log' _ => Working c.spawn c.step log') log := by
  unfold deliver
  split
  · refine ⟨.of_quiet _ _ rfl, fun answer _ => ?_⟩
    have hlog := h.asked (e := .ask (.externalWrite c.step.assignedTo x.resultText)) rfl answer
    cases answer with
    | error msg =>
        exact hlog
    | ok proceed =>
        cases proceed with
        | true =>
            exact follows_deliverStep hlog hwork x hx
        | false =>
            exact ⟨hlog, hx, fun _ => .inl rfl⟩
  · exact follows_deliverStep h hwork x hx

/-- A node before `deliver`. -/
theorem Working.node (h : Working c.spawn c.step log) {node : GraphNode} {x : TeamStepState}
    (hx : x.attemptId = c.spawn.attemptId) (hquiet : QuietNode x.attemptId (node.prog c x))
    (hroute : ∀ y, node.route y ≠ none) :
    (node.prog c x).Follows A (WorkerObeys c.spawn) (NodeDone c node) (fun log' _ => Working c.spawn c.step log') log := by
  refine (h.follows hquiet).mono (fun log' y hy => ⟨hy.1, ?_, fun hnone => absurd hnone (hroute y)⟩) fun _ _ hlog => hlog
  rw [hy.2, hx]

theorem follows_node (h : Working c.spawn c.step log) (hwork : c.step.stepType ≠ .review) (node : GraphNode)
    (x : TeamStepState) (hx : x.attemptId = c.spawn.attemptId) :
    (node.prog c x).Follows A (WorkerObeys c.spawn) (NodeDone c node)
      (fun log' _ => Working c.spawn c.step log') log := by
  cases node with
  | perceive =>
      exact h.node hx (quiet_perceive c x) fun y => by simp [GraphNode.route]
  | work =>
      refine h.node hx (quiet_work c x) fun y => ?_
      simp only [GraphNode.route]
      split <;> simp
  | selfCheck =>
      refine h.node hx (quiet_selfCheck c x) fun y => ?_
      simp only [GraphNode.route]
      split
      · simp
      · split <;> simp
  | rework =>
      exact h.node hx (quiet_rework c x) fun y => by simp [GraphNode.route]
  | recover =>
      exact h.node hx (quiet_recover c x) fun y => by simp [GraphNode.route]
  | deliver =>
      exact follows_deliver h hwork x hx

theorem follows_stream (hwork : c.step.stepType ≠ .review) (n : ℕ) (node : GraphNode) (x : TeamStepState)
    (h : Working c.spawn c.step log) (hx : x.attemptId = c.spawn.attemptId) :
    (stream c n node x).Follows A (WorkerObeys c.spawn)
      (fun log' y => Working c.spawn c.step log' ∧
        (y.status = some .awaitingApproval ∨ Standing c.spawn log' c.step.seq))
      (fun log' _ => Working c.spawn c.step log') log := by
  induction n generalizing node x log with
  | zero =>
      exact h
  | succ n ih =>
      refine (follows_node h hwork node x hx).bind fun log' y hy => ?_
      obtain ⟨hlog, hattempt, hend⟩ := hy
      refine ⟨.of_quiet _ _ rfl, fun r _ => ?_⟩
      have hlog' := hlog.asked (e := .store (.heartbeat c.spawn.taskId c.spawn.stepId)) rfl r
      simp only [ret_bind]
      split
      · rename_i hnone
        refine ⟨hlog', ?_⟩
        rcases hend hnone with hpaused | hstands
        · exact .inl hpaused
        · exact .inr (hstands.asked (e := .store (.heartbeat c.spawn.taskId c.spawn.stepId)) rfl r)
      · exact ih _ y hlog' hattempt

/-! ### The review -/

theorem follows_runReviewStep (h : Working c.spawn c.step log) (input : ReviewStepInput) :
    (runReviewStep c input).Follows A (WorkerObeys c.spawn) (fun log' _ => Working c.spawn c.step log')
      (fun log' _ => Working c.spawn c.step log') log := by
  refine ⟨.of_quiet _ _ rfl, fun artifact _ => ?_⟩
  have hread := h.asked (e := .readArtifact (stepArtifactPath c.spawn.taskId input.gradedSeq)) rfl artifact
  simp only [ret_bind]
  split
  · exact hread
  rename_i artifact _
  refine ⟨.of_quiet _ _ rfl, fun answer _ => ?_⟩
  have hasked := hread.asked
    (e := .ask (.complete (.review c.step.assignedTo artifact.text input.acceptance))) rfl answer
  refine (Follows.ofExcept (Q := fun log' _ => Working c.spawn c.step log')
    (fun _ _ => hasked) fun _ _ => hasked).bind fun log' result hlog' => ?_
  refine (Follows.ofExcept (Q := fun log' _ => Working c.spawn c.step log')
    (fun _ _ => hlog') fun _ _ => hlog').bind fun log'' verdict hlog'' => ?_
  exact ⟨⟨.inl ⟨_, _, rfl⟩, hlog''.1.undone⟩, fun r _ => hlog''.wrote r⟩

theorem follows_runReview (h : Working c.spawn c.step log) :
    (runReview c).Follows A (WorkerObeys c.spawn) (fun log' _ => Working c.spawn c.step log')
      (fun log' _ => Working c.spawn c.step log') log := by
  unfold runReview
  split
  · exact h
  rename_i parentStepId _
  refine ⟨.of_quiet _ _ rfl, fun content _ => ?_⟩
  have hread := h.asked (e := .store (.getStep c.spawn.taskId parentStepId)) rfl content
  cases content with
  | none =>
      exact hread
  | some content =>
      refine ⟨.of_quiet _ _ rfl, fun depStep _ => follows_runReviewStep ?_ _⟩
      exact hread.asked (e := .store (.getStep c.spawn.taskId (c.step.deps.head?.getD content.stepId))) rfl depStep

/-! ### The run -/

/-- The body of the step: it waits for an approval, or it may finish. -/
theorem follows_runBody (h : Working c.spawn c.step log) :
    (runBody c).Follows A (WorkerObeys c.spawn)
      (fun log' result => Unsettled log' ∧ (result.awaitingApproval = false → Finished c.spawn log'))
      (fun log' _ => Unsettled log') log := by
  unfold runBody
  split
  · rename_i hreview
    refine (follows_runReview h).mono (fun log' _ hlog => ⟨hlog.1, fun _ => ?_⟩) fun _ _ hlog => hlog.1
    exact ⟨c.step, hlog.2, fun hwork => absurd hreview hwork⟩
  · rename_i hwork
    refine Follows.bind ((follows_stream hwork _ _ _ h rfl).mono (fun _ _ hlog => hlog) fun _ _ hlog => hlog.1)
      fun log' y hy => ?_
    obtain ⟨hlog, hend⟩ := hy
    refine ⟨hlog.1, fun hgoes => ⟨c.step, hlog.2, fun _ => ?_⟩⟩
    rcases hend with hpaused | hstands
    · simp [hpaused] at hgoes
    · exact hstands

theorem follows_runLeased (h : Working c.spawn c.step log) :
    (runLeased c).Follows A (WorkerObeys c.spawn) (fun log' status => status = .paused → Undone log')
      (fun log' _ => Unsettled log') log := by
  refine (follows_runBody h).bind fun log' result hlog => ?_
  obtain ⟨hunsettled, hfinished⟩ := hlog
  show (if result.awaitingApproval = true then _ else _ : OfficeProg RunStatus).Follows _ _ _ _ _
  split
  · refine ⟨⟨rfl, rfl, rfl, .inr (.inr rfl), rfl, nofun, hunsettled⟩, fun r _ _ => ?_⟩
    refine hunsettled.undone.asked (e := .store (.markAwaitingApproval _ _ _ _)) ?_ r
    rintro _ _ _ _ heq
    cases heq
  · rename_i hgoes
    refine ⟨⟨rfl, rfl, rfl, .inl rfl, rfl, fun _ => hfinished (by simpa using hgoes), hunsettled⟩, fun _ _ => ?_⟩
    unfold doneEvent
    split
    · split
      · exact nofun
      · exact ⟨.of_quiet _ _ rfl, fun _ _ => nofun⟩
    · exact ⟨.of_quiet _ _ rfl, fun _ _ => nofun⟩

theorem follows_failLeased (h : Unsettled log) (msg : String) :
    (failLeased c msg).Follows A (WorkerObeys c.spawn) (fun log' status => status = .paused → Undone log')
      (fun log' _ => Undone log') log := by
  refine ⟨⟨rfl, rfl, rfl, .inr (.inl rfl), rfl, nofun, h⟩, fun r _ => ⟨.of_quiet _ _ rfl, fun r' _ => ?_⟩⟩
  refine Undone.asked (e := .note _) (Undone.asked (e := .store (.markFailed _ _ _)) h.undone ?_ r) ?_ r'
  · rintro _ _ _ _ heq
    cases heq
  · rintro _ _ _ _ heq
    cases heq

theorem follows_runTeamStep (cfg : OfficeConfig) :
    (runTeamStep cfg s).Follows A (WorkerObeys s) (fun log status => status = .paused → Undone log)
      (fun log _ => Undone log) [] := by
  refine ⟨.of_quiet _ _ rfl, fun verified _ => ?_⟩
  cases verified with
  | false =>
      exact nofun
  | true =>
      refine ⟨.of_quiet _ _ rfl, fun step _ => ⟨.of_quiet _ _ rfl, fun task _ => ?_⟩⟩
      cases step with
      | none =>
          exact nofun
      | some step =>
          cases task with
          | none =>
              exact nofun
          | some task =>
              refine Follows.catchWith (follows_runLeased (c := ⟨cfg, s, task.title, step⟩) ?_)
                fun log msg hlog => follows_failLeased hlog msg
              refine ⟨?_, ?_⟩
              · intro taskId stepId status x attemptId r hr
                simp [Log.Has] at hr
              · simp [Log.Has]

theorem follows_writeOutcome (status : String) (error : Option String) (h : Undone log)
    (X : OfficeLog → String → Prop) :
    (writeOutcome s status error).Follows A (WorkerObeys s) (fun _ _ => True) X log := by
  refine ⟨.of_quiet _ _ rfl, fun step _ => ?_⟩
  cases step with
  | none =>
      exact trivial
  | some step =>
      refine ⟨⟨.inr (.inl ⟨_, rfl, rfl⟩), h.asked (e := .store (.getStep _ _)) ?_ _⟩, fun _ _ => trivial⟩
      rintro _ _ _ _ heq
      cases heq

/-- A worker keeps to its contract. -/
theorem stepWorker_follows (cfg : OfficeConfig) (s : Spawn) :
    (stepWorker cfg s).Follows A (WorkerObeys s) (fun _ _ => True) (fun _ _ => True) [] := by
  refine Follows.catchWith (X := fun log _ => Undone log) ?_ fun log msg hlog => follows_writeOutcome _ _ hlog _
  refine (follows_runTeamStep cfg).bind fun log status hlog => ?_
  show (if status = .paused then _ else _ : OfficeProg Unit).Follows _ _ _ _ _
  split
  · rename_i hpaused
    exact follows_writeOutcome _ _ (hlog hpaused) _
  · exact trivial

end Nodes

end ProjectManager
