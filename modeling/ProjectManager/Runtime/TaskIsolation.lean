import ProjectManager.Actions.Mediation
import ProjectManager.Lib.Execution
import ProjectManager.Runtime.Tasks

/-!
# Failures of assigned tasks

What a tick over the open tasks does when checks and posts fail.  The body of the loop catches what a task raises, but
the handler of a failure posts a notice itself, outside of any `try`.  `tasks_isolated` says that this is the only
way in which the failure of one task keeps the others from being checked, or the tick from returning.
-/

namespace ProjectManager

open Process TaskM

/-- Calls of a tick and their answers. -/
abbrev TaskLog :=
  Log TaskCall TaskCall.Resp

section Isolation

variable (cfg : TaskConfig) (clock : TaskClock)

/-- All tasks are checked, in stretches of the log one after the other, up to one with a failure of the
infrastructure if there is one. -/
inductive TriesAll : List AssignedTask → TaskLog → Prop where
  | nil : TriesAll [] []
  | checked {task : AssignedTask} {rest : List AssignedTask} {seg log : TaskLog} {didPost : Bool}
      (h : (runOne cfg clock task).run.Runs seg (.ok didPost)) (hrest : TriesAll rest log) :
      TriesAll (task :: rest) (seg ++ log)
  /-- the failure is recorded -/
  | failed {task : AssignedTask} {rest : List AssignedTask} {seg recorded log : TaskLog} {e : AnswerError}
      (h : (runOne cfg clock task).run.Runs seg (.error e)) (he : e ∉ infraErrors)
      (hrecorded : (recordFailure cfg clock task).run.Runs recorded (.ok ())) (hrest : TriesAll rest log) :
      TriesAll (task :: rest) (seg ++ ⟨.logFailed task.id, ()⟩ :: recorded ++ log)
  | held {task : AssignedTask} {rest : List AssignedTask} {seg : TaskLog} {e : AnswerError}
      (h : (runOne cfg clock task).run.Runs seg (.error e)) (he : e ∈ infraErrors) :
      TriesAll (task :: rest) (seg ++ [⟨.logHeld task.id, ()⟩])

/-- The tick returns, and has checked the open tasks that it has read. -/
def Isolated (log : TaskLog) (out : Except AnswerError TaskTick) : Prop :=
  (∃ tick, out = .ok tick) ∧ ∃ openTasks rest, log = ⟨.listOpen, openTasks⟩ :: rest ∧
    (cfg.writeDisabled = false → TriesAll cfg clock openTasks rest)

/-- The post of the notice that a task has stalled raises. -/
def stallNoticeRaises (log : TaskLog) : Bool :=
  log.any fun entry =>
    match entry with
    | ⟨.post (.stalled _ _) _, .error _⟩ => true
    | _ => false

theorem stallNoticeRaises_append (log log' : TaskLog) :
    stallNoticeRaises (log ++ log') = (stallNoticeRaises log || stallNoticeRaises log') :=
  List.any_append

/-! ### Runs of the programs -/

variable {cfg clock} {task : AssignedTask} {log : TaskLog}

/-- A run of two programs in a row. -/
theorem TaskM.runs_bind {α β : Type} {x : TaskM α} {f : α → TaskM β} {out : Except AnswerError β}
    (h : (x >>= f).run.Runs log out) :
    (∃ log₁ a log₂, log = log₁ ++ log₂ ∧ x.run.Runs log₁ (.ok a) ∧ (f a).run.Runs log₂ out) ∨
      ∃ e, out = .error e ∧ x.run.Runs log (.error e) := by
  rw [run_bind] at h
  obtain ⟨log₁, r, log₂, rfl, hx, hf⟩ := h.of_bind
  cases r with
  | ok a =>
      exact .inl ⟨log₁, a, log₂, rfl, hx, hf⟩
  | error e =>
      obtain ⟨rfl, rfl⟩ := Prog.Runs.of_ret hf
      exact .inr ⟨e, rfl, by rwa [List.append_nil]⟩

/-- A run that begins with a call that answers. -/
theorem TaskM.runs_ask {β : Type} {c : TaskCall} {f : c.Resp → TaskM β} {out : Except AnswerError β}
    (h : (TaskM.ask c >>= f).run.Runs log out) : ∃ r rest, log = ⟨c, r⟩ :: rest ∧ (f r).run.Runs rest out := by
  rw [run_bind, run_ask] at h
  exact Prog.Runs.of_call h

/-- No post of a notice that a task has stalled. -/
def NoStall : TaskCall → Prop
  | .post (.stalled _ _) _ => False
  | _ => True

theorem TaskM.only_bind {α β : Type} {H : TaskCall → Prop} {x : TaskM α} {f : α → TaskM β}
    (hx : x.run.Only H fun _ => True) (hf : ∀ a, (f a).run.Only H fun _ => True) :
    (x >>= f).run.Only H fun _ => True := by
  rw [run_bind]
  refine hx.bind fun r _ => ?_
  cases r with
  | ok a =>
      exact hf a
  | error e =>
      exact trivial

theorem only_ask {c : TaskCall} (h : NoStall c) : (TaskM.ask c).run.Only NoStall fun _ => True :=
  ⟨h, fun _ => trivial⟩

theorem only_appendHistory (id : ℕ) (entry : HistoryEntry) :
    (appendHistory id entry).run.Only NoStall fun _ => True := by
  refine only_bind (only_ask trivial) fun row => ?_
  cases row with
  | none =>
      exact trivial
  | some task =>
      exact only_ask trivial

theorem only_postNotice {notice : TaskNotice} (h : ∀ action, NoStall (.post notice action)) :
    (postNotice cfg notice).run.Only NoStall fun _ => True := by
  unfold postNotice
  split
  · exact trivial
  · exact only_bind (only_ask (h _)) fun _ => only_bind trivial fun _ => trivial

theorem only_runWatch : (runWatch cfg clock task).run.Only NoStall fun _ => True := by
  unfold runWatch
  split
  · exact trivial
  · split
    · exact trivial
    · refine only_bind (only_ask trivial) fun answer => only_bind trivial fun result => ?_
      refine only_bind (only_ask trivial) fun _ => ?_
      split
      · refine only_bind (only_ask trivial) fun _ => only_bind (only_appendHistory _ _) fun _ => ?_
        exact only_bind (only_postNotice fun _ => trivial) fun _ => trivial
      · split
        · exact only_bind (only_appendHistory _ _) fun _ => only_postNotice fun _ => trivial
        · exact trivial

theorem only_runRecurring : (runRecurring cfg clock task).run.Only NoStall fun _ => True := by
  refine only_bind (trivial : (orRaise _).run.Only NoStall fun _ => True) fun deadlineDays => ?_
  split
  · refine only_bind (only_ask trivial) fun _ => only_bind (only_appendHistory _ _) fun _ => ?_
    exact only_bind (only_postNotice fun _ => trivial) fun _ => trivial
  · split
    · exact trivial
    · refine only_bind ?_ fun worked => ?_
      · unfold runRecurringWork
        split
        · exact only_bind (only_ask trivial) fun _ => trivial
        · exact only_bind (only_ask trivial) fun _ => trivial
      · exact only_bind (only_ask trivial) fun _ => only_bind (only_appendHistory _ _) fun _ => trivial

/-- The check of a task posts no notice that it has stalled. -/
theorem only_runOne : (runOne cfg clock task).run.Only NoStall fun _ => True := by
  unfold runOne
  split
  · exact only_runWatch
  · split
    · exact only_runRecurring
    · exact trivial

theorem stallNoticeRaises_of_only {α : Type} {p : Prog TaskCall TaskCall.Resp α} {a : α}
    (h : p.Only NoStall fun _ => True) (hruns : p.Runs log a) : stallNoticeRaises log = false := by
  refine List.any_eq_false.2 fun entry hentry => ?_
  have hno := (h.of_runs hruns).1 entry hentry
  split
  · exact False.elim hno
  · exact Bool.false_ne_true

/-! ### A tick -/

theorem appendHistory_returns {id : ℕ} {entry : HistoryEntry} {out : Except AnswerError Unit}
    (h : (appendHistory id entry).run.Runs log out) : out = .ok () := by
  obtain ⟨row, rest, rfl, hrest⟩ := runs_ask h
  cases row with
  | none =>
      exact (Prog.Runs.of_ret hrest).1
  | some task =>
      obtain ⟨_, _, _, hret⟩ := hrest.of_call
      exact (Prog.Runs.of_ret hret).1

/-- A notice is dropped, or there is one post. -/
theorem postNotice_runs {notice : TaskNotice} {out : Except AnswerError Bool}
    (h : (postNotice cfg notice).run.Runs log out) :
    (∃ didPost, out = .ok didPost) ∧ (log = [] ∨ ∃ action status, log = [⟨.post notice action, .ok status⟩]) ∨
      (∃ e, out = .error e) ∧ ∃ action e, log = [⟨.post notice action, .error e⟩] := by
  unfold postNotice at h
  split at h
  · obtain ⟨rfl, rfl⟩ := Prog.Runs.of_ret h
    exact .inl ⟨⟨_, rfl⟩, .inl rfl⟩
  · obtain ⟨answer, rest, rfl, hrest⟩ := runs_ask h
    rcases runs_bind hrest with ⟨_, status, _, rfl, hanswer, hret⟩ | ⟨e, rfl, hanswer⟩
    · obtain ⟨rfl, rfl⟩ := Prog.Runs.of_ret hret
      obtain ⟨rfl, rfl⟩ := Prog.Runs.of_ret hanswer
      exact .inl ⟨⟨_, rfl⟩, .inr ⟨_, status, rfl⟩⟩
    · obtain ⟨rfl, rfl⟩ := Prog.Runs.of_ret hanswer
      exact .inr ⟨⟨e, rfl⟩, _, e, rfl⟩

/-- The handler of a failure returns, or its notice raises. -/
theorem recordFailure_runs {out : Except AnswerError Unit} (h : (recordFailure cfg clock task).run.Runs log out) :
    out = .ok () ∧ stallNoticeRaises log = false ∨ (∃ e, out = .error e) ∧ stallNoticeRaises log = true := by
  obtain ⟨_, rest, rfl, hrest⟩ := runs_ask h
  rcases runs_bind hrest with ⟨noted, _, more, rfl, hnoted, hmore⟩ | ⟨e, rfl, hraised⟩
  · have hlog : stallNoticeRaises (⟨.setFailStreak task.id (task.failStreak + 1), ()⟩ :: (noted ++ more)) =
        stallNoticeRaises more := by
      have hnone := stallNoticeRaises_of_only (only_appendHistory _ _) hnoted
      exact (stallNoticeRaises_append noted more).trans (by rw [hnone, Bool.false_or])
    rw [hlog]
    split at hmore
    · obtain ⟨_, posted, rfl, hposted⟩ := runs_ask hmore
      rcases runs_bind hposted with ⟨_, _, _, rfl, hpost, hret⟩ | ⟨e, rfl, hpost⟩
      · obtain ⟨rfl, rfl⟩ := Prog.Runs.of_ret hret
        rcases postNotice_runs hpost with ⟨-, rfl | ⟨action, status, rfl⟩⟩ | ⟨⟨e, he⟩, -⟩
        · exact .inl ⟨rfl, rfl⟩
        · exact .inl ⟨rfl, rfl⟩
        · cases he
      · rcases postNotice_runs hpost with ⟨⟨_, hok⟩, -⟩ | ⟨-, action, e', rfl⟩
        · cases hok
        · exact .inr ⟨⟨e, rfl⟩, rfl⟩
    · obtain ⟨rfl, rfl⟩ := Prog.Runs.of_ret hmore
      exact .inl ⟨rfl, rfl⟩
  · cases appendHistory_returns hraised

/-- How a task is tried, and what its stretch of the log shows. -/
theorem tryTask_runs {out : Except AnswerError TaskEnd} (h : (tryTask cfg clock task).run.Runs log out) :
    (∃ ending, out = .ok ending ∧ stallNoticeRaises log = false ∧
      ((∃ didPost, ending = .checked didPost ∧ (runOne cfg clock task).run.Runs log (.ok didPost)) ∨
        (∃ seg recorded e, ending = .failed ∧ log = seg ++ ⟨.logFailed task.id, ()⟩ :: recorded ∧ e ∉ infraErrors ∧
          (runOne cfg clock task).run.Runs seg (.error e) ∧ (recordFailure cfg clock task).run.Runs recorded (.ok ())) ∨
        ∃ seg e, ending = .held ∧ log = seg ++ [⟨.logHeld task.id, ()⟩] ∧ e ∈ infraErrors ∧
          (runOne cfg clock task).run.Runs seg (.error e))) ∨
      (∃ e, out = .error e) ∧ stallNoticeRaises log = true := by
  rcases runs_bind h with ⟨seg, came, more, rfl, hcame, hmore⟩ | ⟨e, rfl, hraised⟩
  · rw [run_attempt] at hcame
    obtain ⟨seg', came', nothing, rfl, hone, hret⟩ := hcame.of_bind
    obtain ⟨hcame', rfl⟩ := Prog.Runs.of_ret hret
    obtain rfl := Except.ok.inj hcame'
    have hquiet : stallNoticeRaises seg' = false := stallNoticeRaises_of_only only_runOne hone
    rw [List.append_nil]
    cases came with
    | ok didPost =>
        obtain ⟨rfl, rfl⟩ := Prog.Runs.of_ret hmore
        exact .inl ⟨_, rfl, by rwa [List.append_nil], .inl ⟨didPost, rfl, by rwa [List.append_nil]⟩⟩
    | error e =>
        dsimp only at hmore
        split at hmore
        case isTrue he =>
          obtain ⟨_, rest, rfl, hret⟩ := runs_ask hmore
          obtain ⟨rfl, rfl⟩ := Prog.Runs.of_ret hret
          refine .inl ⟨_, rfl, ?_, .inr (.inr ⟨seg', e, rfl, rfl, he, hone⟩)⟩
          rw [stallNoticeRaises_append, hquiet]
          rfl
        case isFalse he =>
          obtain ⟨_, rest, rfl, hrest⟩ := runs_ask hmore
          have hlog : stallNoticeRaises (seg' ++ ⟨.logFailed task.id, ()⟩ :: rest) = stallNoticeRaises rest := by
            rw [stallNoticeRaises_append, hquiet]
            rfl
          rcases runs_bind hrest with ⟨recorded, _, _, rfl, hrecorded, hret⟩ | ⟨e', rfl, hrecorded⟩
          · obtain ⟨rfl, rfl⟩ := Prog.Runs.of_ret hret
            rcases recordFailure_runs hrecorded with ⟨-, hnone⟩ | ⟨⟨_, herror⟩, -⟩
            · rw [List.append_nil] at hlog ⊢
              exact .inl ⟨_, rfl, hlog.trans hnone, .inr (.inl ⟨seg', recorded, e, rfl, rfl, he, hone, hrecorded⟩)⟩
            · cases herror
          · rcases recordFailure_runs hrecorded with ⟨hok, -⟩ | ⟨-, hraises⟩
            · cases hok
            · exact .inr ⟨⟨e', rfl⟩, hlog.trans hraises⟩
  · rw [run_attempt] at hraised
    obtain ⟨_, _, _, -, -, hret⟩ := hraised.of_bind
    cases (Prog.Runs.of_ret hret).1

/-- The loop checks all its tasks, or a notice that a task has stalled raises. -/
theorem taskLoop_runs {tasks : List AssignedTask} {checked : ℕ} {delivered : Bool} {out : Except AnswerError (ℕ × Bool)}
    (h : (taskLoop cfg clock tasks checked delivered).run.Runs log out) :
    (∃ r, out = .ok r) ∧ TriesAll cfg clock tasks log ∧ stallNoticeRaises log = false ∨
      (∃ e, out = .error e) ∧ stallNoticeRaises log = true := by
  induction tasks generalizing checked delivered log with
  | nil =>
      obtain ⟨rfl, rfl⟩ := Prog.Runs.of_ret h
      exact .inl ⟨⟨_, rfl⟩, .nil, rfl⟩
  | cons task rest ih =>
      rcases runs_bind h with ⟨seg, ending, more, rfl, htask, hmore⟩ | ⟨e, rfl, htask⟩
      · rcases tryTask_runs htask with ⟨_, hout, hquiet, hending⟩ | ⟨⟨_, herror⟩, -⟩
        · obtain rfl := Except.ok.inj hout
          rw [stallNoticeRaises_append, hquiet, Bool.false_or]
          rcases hending with ⟨didPost, rfl, hone⟩ | ⟨seg', recorded, e, rfl, rfl, he, hone, hrecorded⟩ |
            ⟨seg', e, rfl, rfl, he, hone⟩
          · exact (ih hmore).imp_left fun ⟨hok, hall, hnone⟩ => ⟨hok, .checked hone hall, hnone⟩
          · refine (ih hmore).imp_left fun ⟨hok, hall, hnone⟩ => ⟨hok, ?_, hnone⟩
            exact .failed hone he hrecorded hall
          · obtain ⟨rfl, rfl⟩ := Prog.Runs.of_ret hmore
            rw [List.append_nil]
            exact .inl ⟨⟨_, rfl⟩, .held hone he, rfl⟩
        · cases herror
      · rcases tryTask_runs htask with ⟨_, hok, -⟩ | ⟨-, hraises⟩
        · cases hok
        · exact .inr ⟨⟨e, rfl⟩, hraises⟩

end Isolation

/-- In every run of a tick, whatever the tasks, the checks and the posts come to: the tick returns and has checked
every open task up to a failure of the infrastructure, exactly when no notice that a task has stalled raises. -/
theorem tasks_isolated {cfg : TaskConfig} {clock : TaskClock} {log : TaskLog} {out : Except AnswerError TaskTick}
    (h : (runTasks cfg clock).run.Runs log out) : Isolated cfg clock log out ↔ stallNoticeRaises log = false := by
  obtain ⟨openTasks, rest, rfl, hrest⟩ := runs_ask h
  have hlog : stallNoticeRaises (⟨.listOpen, openTasks⟩ :: rest) = stallNoticeRaises rest := rfl
  rw [hlog]
  cases openTasks with
  | nil =>
      obtain ⟨rfl, rfl⟩ := Prog.Runs.of_ret hrest
      exact ⟨fun _ => rfl, fun _ => ⟨⟨_, rfl⟩, [], [], rfl, fun _ => .nil⟩⟩
  | cons task tasks =>
      simp only [List.isEmpty_cons, Bool.false_eq_true, if_false] at hrest
      split at hrest
      case isTrue hdisabled =>
        obtain ⟨rfl, rfl⟩ := Prog.Runs.of_ret hrest
        refine ⟨fun _ => rfl, fun _ => ⟨⟨_, rfl⟩, _, _, rfl, fun henabled => ?_⟩⟩
        cases hdisabled.symm.trans henabled
      case isFalse henabled =>
        rcases runs_bind hrest with ⟨ran, _, _, rfl, hloop, hret⟩ | ⟨e, rfl, hloop⟩
        · obtain ⟨rfl, rfl⟩ := Prog.Runs.of_ret hret
          rw [List.append_nil]
          rcases taskLoop_runs hloop with ⟨-, hall, hnone⟩ | ⟨⟨_, herror⟩, -⟩
          · exact ⟨fun _ => hnone, fun _ => ⟨⟨_, rfl⟩, _, _, rfl, fun _ => hall⟩⟩
          · cases herror
        · rcases taskLoop_runs hloop with ⟨⟨_, hok⟩, -⟩ | ⟨-, hraises⟩
          · cases hok
          · refine ⟨fun hisolated => ?_, fun hnone => by cases hraises.symm.trans hnone⟩
            obtain ⟨⟨_, hok⟩, -⟩ := hisolated
            cases hok

/-- An agent with a repository and a report channel. -/
def sampleTaskConfig : TaskConfig :=
  ⟨samplePython, "team/app", "C1", false⟩

/-- A clock by which no task is past its deadline. -/
def sampleTaskClock : TaskClock :=
  ⟨"2026-07-10T09:00:00+00:00", "2026-07-10", "2026-07-10T09:00:01+00:00", fun _ _ => false⟩

/-- A watch of a pull request. -/
def sampleWatch (id failStreak : ℕ) : AssignedTask where
  id := id
  kind := "watch"
  params := [("target", .str "pr"), ("number", .int 45)]
  status := .opened
  createdAt := "2026-07-08T09:00:00+00:00"
  failStreak := failStreak
  history := []

/-- Two open tasks: the check of the first fails for the third time, and the second is to be reminded of.  The notice
that the first has stalled is posted as given. -/
def sampleTaskHandle (stallNotice : Except AnswerError GatewayStatus) : (c : TaskCall) → Unit → c.Resp × Unit
  | .listOpen, _ => ([sampleWatch 1 2, sampleWatch 2 0], ())
  | .get _, _ => (none, ())
  | .setStatus _ _, _ => ((), ())
  | .setFailStreak _ _, _ => ((), ())
  | .setHistory _ _, _ => ((), ())
  | .checkPrWatch task _, _ => (if task.id = 1 then .error (.other "RuntimeError") else .ok ⟨false, "PR #45", true⟩, ())
  | .runReportTask _, _ => (.ok ("", none), ())
  | .runQaTask _, _ => (.ok ("", none), ())
  | .post (.stalled _ _) _, _ => (stallNotice, ())
  | .post _ _, _ => (.ok .executed, ())
  | .logHeld _, _ => ((), ())
  | .logFailed _, _ => ((), ())

/-- The tick over the two tasks. -/
def sampleTaskTick : Prog TaskCall TaskCall.Resp (Except AnswerError TaskTick) :=
  (runTasks sampleTaskConfig sampleTaskClock).run

/-- What the tick comes to. -/
theorem sampleTaskTick_runs (stallNotice : Except AnswerError GatewayStatus) : ∃ out,
    (sampleTaskTick.run (sampleTaskHandle stallNotice) ()).1 = .ok out ∧
      sampleTaskTick.Runs (sampleTaskTick.trace (sampleTaskHandle stallNotice) ()) out := by
  cases hrun : (sampleTaskTick.run (sampleTaskHandle stallNotice) ()).1 with
  | ok out =>
      exact ⟨out, rfl, Prog.runs_trace hrun⟩
  | error msg =>
      cases stallNotice <;> cases hrun

/-- The first task stalls, and the second is checked. -/
theorem tasks_isolated_sample : ∃ log out, sampleTaskTick.Runs log out ∧ stallNoticeRaises log = false ∧
    Isolated sampleTaskConfig sampleTaskClock log out := by
  obtain ⟨out, -, hruns⟩ := sampleTaskTick_runs (.ok .executed)
  have hnone : stallNoticeRaises (sampleTaskTick.trace (sampleTaskHandle (.ok .executed)) ()) = false := by
    decide +kernel
  exact ⟨_, out, hruns, hnone, (tasks_isolated hruns).2 hnone⟩

/-- The notice that the first task has stalled raises, and the tick does not return. -/
theorem tick_stopped : ¬ ∀ (cfg : TaskConfig) (clock : TaskClock) (log : TaskLog) (out : Except AnswerError TaskTick),
    (runTasks cfg clock).run.Runs log out → Isolated cfg clock log out := by
  intro hisolated
  obtain ⟨out, hout, hruns⟩ := sampleTaskTick_runs (.error (.other "RuntimeError"))
  obtain ⟨⟨tick, rfl⟩, -⟩ := hisolated _ _ _ _ hruns
  cases hout

end ProjectManager
