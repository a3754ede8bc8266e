import Mathlib.Logic.Function.Basic
import ProjectManager.Actions.Mediation
import ProjectManager.Lib.Interference
import ProjectManager.Runtime.Tasks

/-!
# The life of an assigned task

Ticks over the tasks of one agent, one after the other, while the operator assigns and cancels tasks at any time: the
statements come in any order, and the checks and posts come to anything.  `tasks_settle` says that a task which is
done, cancelled or stalled stays so, and that a task stalls only after as many failed checks in a row as the code
asks for, when no status is written over one that its writer has not read and no reminder raises.
-/

namespace ProjectManager

open Process Relation TaskM

/-! ### The world -/

/-- A cancelling that is under way: the task it has read, and that no tick has written its status since. -/
structure CancelCall where
  prog : Prog TaskCall TaskCall.Resp (Except AnswerError String)
  read : Option ℕ
  fresh : Bool

/-- A status that was written: over which one, and how often the check of the task had failed in a row. -/
structure StatusChange where
  id : ℕ
  before : AssignedStatus
  after : AssignedStatus
  fails : ℕ
deriving DecidableEq

/-- The table `tasks` in the order of its numbers, and the cancellings that are under way; for the tick the tasks that
it has listed, those whose status was written since, and those that it has read or stopped; how often the check of a
task has failed in a row; and the statuses that were written. -/
structure TaskWorld where
  rows : List AssignedTask
  cancels : List CancelCall
  listed : List ℕ
  touched : List ℕ
  settled : List ℕ
  fails : ℕ → ℕ
  changes : List StatusChange

namespace TaskWorld

/-- Nothing was ever assigned. -/
def empty : TaskWorld :=
  ⟨[], [], [], [], [], fun _ => 0, []⟩

/-- An update of one row. -/
def edit (w : TaskWorld) (id : ℕ) (f : AssignedTask → AssignedTask) : TaskWorld :=
  { w with rows := w.rows.map fun t => if t.id = id then f t else t }

/-- `UPDATE tasks SET status = ?`. -/
def writeStatus (w : TaskWorld) (id : ℕ) (status : AssignedStatus) : TaskWorld :=
  { w.edit id fun t => { t with status := status } with
    touched := id :: w.touched
    changes := w.changes ++ (w.rows.filter fun t => t.id == id).map fun t => ⟨id, t.status, status, w.fails id⟩ }

/-- A tick writes a status. -/
def tickWrites (w : TaskWorld) (id : ℕ) (status : AssignedStatus) : TaskWorld :=
  { w.writeStatus id status with
    cancels := w.cancels.map fun c => if c.read = some id then { c with fresh := false } else c
    settled := if status = .done then id :: w.settled else w.settled }

/-- What a check has come to: a success ends a row of failures. -/
def checked {α : Type} (w : TaskWorld) (id : ℕ) : Except AnswerError α → TaskWorld
  | .ok _ => { w with fails := Function.update w.fails id 0, settled := id :: w.settled }
  | .error _ => w

/-- A task has failed: its check has, unless the check had succeeded or the task was stopped. -/
def failed (w : TaskWorld) (id : ℕ) : TaskWorld :=
  if id ∈ w.settled then w else { w with fails := Function.update w.fails id (w.fails id + 1) }

end TaskWorld

/-- How a call of a tick is answered: the store by its rows, and the checks and posts in any way. -/
def TickAnswers : (c : TaskCall) → TaskWorld → c.Resp → TaskWorld → Prop
  | .listOpen, w, r, w' => r = w.rows.filter (fun t => t.status.isOpen) ∧
      w' = { w with listed := r.map fun t => t.id, touched := [], settled := [] }
  | .get id, w, r, w' => r = w.rows.find? (fun t => t.id == id) ∧ w' = w
  | .setStatus id status, w, _, w' => w' = w.tickWrites id status
  | .setFailStreak id streak, w, _, w' => w' = w.edit id fun t => { t with failStreak := streak }
  | .setHistory id history, w, _, w' => w' = w.edit id fun t => { t with history := history }
  | .checkPrWatch task _, w, r, w' => w' = w.checked task.id r
  | .runReportTask task, w, r, w' => w' = w.checked task.id r
  | .runQaTask task, w, r, w' => w' = w.checked task.id r
  | .post _ _, w, _, w' => w' = w
  | .logHeld _, w, _, w' => w' = w
  | .logFailed id, w, _, w' => w' = w.failed id

/-- Which calls of ticks, with their answers, and which writes of cancellings a run lets through. -/
structure TaskRegime where
  tick : TaskWorld → (c : TaskCall) → c.Resp → Prop
  cancel : CancelCall → Prop

/-- Everything. -/
def anyRegime : TaskRegime :=
  ⟨fun _ _ _ => True, fun _ => True⟩

/-- A tick writes a status when nobody has written it since the tick has listed the task, and a cancelling when no
tick has since it has read the task; and a reminder raises only a failure of the infrastructure. -/
def serialRegime : TaskRegime where
  tick := fun w c r =>
    match c, r with
    | .setStatus id _, _ => id ∉ w.touched
    | .post (.reminder _ _ _) _, .error e => e ∈ infraErrors
    | _, _ => True
  cancel := fun c => c.fresh = true

/-- What happens beside the tick. -/
inductive Beside (regime : TaskRegime) (w : TaskWorld) : TaskWorld → Prop where
  /-- `create` -/
  | create (id : ℕ) (kind : String) (params : Action) (createdAt : String) (hid : ∀ t ∈ w.rows, t.id < id)
      (hcap : (w.rows.filter fun t => t.status.isOpen).length < maxOpenTasks) :
      Beside regime w { w with rows := w.rows ++ [⟨id, kind, params, .opened, createdAt, 0, []⟩] }
  | cancelStart (py : Python) (agentId taskId : String) :
      Beside regime w { w with cancels := w.cancels ++ [⟨(runCancelTask py agentId taskId).run, none, false⟩] }
  | cancelGet (front : List CancelCall) (c : CancelCall) (back : List CancelCall) {id : ℕ}
      {k : Option AssignedTask → Prog TaskCall TaskCall.Resp (Except AnswerError String)}
      (hcancels : w.cancels = front ++ c :: back) (hnext : c.prog = .call (.get id) k) :
      Beside regime w { w with
        cancels := front ++ ⟨k (w.rows.find? fun t => t.id == id), some id, true⟩ :: back }
  | cancelWrite (front : List CancelCall) (c : CancelCall) (back : List CancelCall) {id : ℕ} {status : AssignedStatus}
      {k : Unit → Prog TaskCall TaskCall.Resp (Except AnswerError String)}
      (hcancels : w.cancels = front ++ c :: back) (hnext : c.prog = .call (.setStatus id status) k)
      (hallows : regime.cancel c) :
      Beside regime w { w.writeStatus id status with cancels := front ++ { c with prog := k () } :: back }
  | cancelLeave (front : List CancelCall) (c : CancelCall) (back : List CancelCall)
      (hcancels : w.cancels = front ++ c :: back) : Beside regime w { w with cancels := front ++ back }

/-- How a call of a tick is answered in a run. -/
def Answered (regime : TaskRegime) (c : TaskCall) (w : TaskWorld) (r : c.Resp) (w' : TaskWorld) : Prop :=
  TickAnswers c w r w' ∧ regime.tick w c r

/-- Between two ticks. -/
inductive BetweenTicks (regime : TaskRegime) : TaskWorld → Prop where
  | start : BetweenTicks regime TaskWorld.empty
  | beside {w w' : TaskWorld} (h : BetweenTicks regime w) (hstep : Beside regime w w') : BetweenTicks regime w'
  | tick {w w' : TaskWorld} (h : BetweenTicks regime w) (cfg : TaskConfig) (clock : TaskClock)
      {out : Except AnswerError TaskTick}
      (htick : Prog.Among (Beside regime) (Answered regime) (runTasks cfg clock).run w (.ret out) w') :
      BetweenTicks regime w'

/-- The worlds that are reached, also within a tick. -/
def TasksReach (regime : TaskRegime) (w' : TaskWorld) : Prop :=
  ∃ w cfg clock left, BetweenTicks regime w ∧
    Prog.Among (Beside regime) (Answered regime) (runTasks cfg clock).run w left w'

/-- A status that is not open stays, and a task stalls after enough failed checks in a row. -/
def StatusChange.Lawful (ch : StatusChange) : Prop :=
  (ch.before.isOpen = false → ch.after = ch.before) ∧
    (ch.after = .stalled → ch.before ≠ .stalled → stallAfter ≤ ch.fails)

/-! ### What always holds -/

/-- The rows of the table, and the statuses that were written. -/
structure TableOk (w : TaskWorld) : Prop where
  lawful : ∀ ch ∈ w.changes, ch.Lawful
  ids : (w.rows.map fun t => t.id).Nodup
  known : ∀ id ∈ w.listed, ∃ t ∈ w.rows, t.id = id
  untouched : ∀ t ∈ w.rows, t.id ∈ w.listed → t.id ∉ w.touched → t.status.isOpen = true

/-- No tick has written a status of the task. -/
def NotEnded (w : TaskWorld) (id : ℕ) : Prop :=
  ∀ t ∈ w.rows, t.id = id → t.status.isOpen = true ∨ t.status = .cancelled

/-- How far a cancelling is. -/
inductive CancelStage (w : TaskWorld) (c : CancelCall) : Prop where
  | before (py : Python) (agentId taskId : String) (hprog : c.prog = (runCancelTask py agentId taskId).run)
  /-- it has read the task, which was open -/
  | between {id : ℕ} {k : Unit → Prog TaskCall TaskCall.Resp (Except AnswerError String)}
      (hprog : c.prog = .call (.setStatus id .cancelled) k) (hret : ∃ r, k () = .ret r) (hread : c.read = some id)
      (hfresh : c.fresh = true → NotEnded w id)
  | after (h : ∃ r, c.prog = .ret r)

/-- What holds at any time. -/
structure TasksOk (w : TaskWorld) : Prop extends TableOk w where
  cancels : ∀ c ∈ w.cancels, CancelStage w c

section Always

variable {w w' : TaskWorld} {c : CancelCall} {id : ℕ}

/-- What the calls of a cancelling are. -/
theorem runCancelTask_cases (py : Python) (agentId taskId : String) :
    (∃ r, (runCancelTask py agentId taskId).run = .ret r) ∨
      ∃ id k, (runCancelTask py agentId taskId).run = .call (.get id) k ∧ ∀ row : Option AssignedTask,
        (∃ r, k row = .ret r) ∨ (∃ t, row = some t ∧ t.status.isOpen = true) ∧
          ∃ k', k row = .call (.setStatus id .cancelled) k' ∧ ∃ r, k' () = .ret r := by
  unfold runCancelTask
  split
  · exact .inl ⟨_, rfl⟩
  · rename_i n hn
    by_cases hneg : n < 0
    · simp only [hneg, if_true]
      exact .inl ⟨_, rfl⟩
    · simp only [hneg, if_false]
      refine .inr ⟨n.toNat, _, rfl, fun row => ?_⟩
      cases row with
      | none =>
          exact .inl ⟨_, rfl⟩
      | some t =>
          cases hopen : t.status.isOpen with
          | true =>
              let reply := "Đã huỷ việc #" ++ toString n ++ " của '" ++ agentId ++ "'."
              refine .inr ⟨⟨t, rfl, hopen⟩, fun _ => .ret (.ok reply), ?_, _, rfl⟩
              change ExceptT.run (if t.status.isOpen = true then _ else _) = _
              rw [if_pos hopen]
              rfl
          | false =>
              let reply := "Việc #" ++ toString n ++ " đã ở trạng thái '" ++ t.status.text ++ "', không cần huỷ."
              refine .inl ⟨.ok reply, ?_⟩
              change ExceptT.run (if t.status.isOpen = true then _ else _) = _
              rw [hopen]
              rfl

theorem CancelStage.mono (h : CancelStage w c) (hrows : ∀ id, c.read = some id → c.fresh = true → NotEnded w id →
    NotEnded w' id) : CancelStage w' c := by
  cases h with
  | before py agentId taskId hprog =>
      exact .before py agentId taskId hprog
  | between hprog hret hread hfresh =>
      exact .between hprog hret hread fun hc => hrows _ hread hc (hfresh hc)
  | after h =>
      exact .after h

/-- A row after an update is a row before it. -/
theorem TaskWorld.of_edit {f : AssignedTask → AssignedTask} {t' : AssignedTask} (h : t' ∈ (w.edit id f).rows) :
    ∃ t ∈ w.rows, t.id = id ∧ t' = f t ∨ t.id ≠ id ∧ t' = t := by
  obtain ⟨t, ht, rfl⟩ := List.mem_map.1 h
  refine ⟨t, ht, ?_⟩
  by_cases hid : t.id = id
  · exact .inl ⟨hid, if_pos hid⟩
  · exact .inr ⟨hid, if_neg hid⟩

theorem TaskWorld.edit_ids {f : AssignedTask → AssignedTask} (hf : ∀ t, (f t).id = t.id) :
    ((w.edit id f).rows.map fun t => t.id) = w.rows.map fun t => t.id := by
  simp only [TaskWorld.edit, List.map_map]
  refine List.map_congr_left fun t _ => ?_
  simp only [Function.comp_apply]
  split
  · exact hf t
  · rfl

/-- The numbers are those of other rows. -/
theorem TableOk.known_of_ids {listed : List ℕ} (h : ∀ n ∈ listed, ∃ t ∈ w.rows, t.id = n)
    (hids : (w'.rows.map fun t => t.id) = w.rows.map fun t => t.id) : ∀ n ∈ listed, ∃ t ∈ w'.rows, t.id = n := by
  intro n hn
  obtain ⟨t, ht, rfl⟩ := h n hn
  have hmem : t.id ∈ w'.rows.map fun t => t.id := hids ▸ List.mem_map_of_mem ht
  obtain ⟨t', ht', hid⟩ := List.mem_map.1 hmem
  exact ⟨t', ht', hid⟩

/-- An update that leaves the statuses. -/
theorem TasksOk.edit {f : AssignedTask → AssignedTask} (h : TasksOk w) (hid : ∀ t, (f t).id = t.id)
    (hstatus : ∀ t, (f t).status = t.status) : TasksOk (w.edit id f) := by
  have hrow : ∀ t' ∈ (w.edit id f).rows, ∃ t ∈ w.rows, t'.id = t.id ∧ t'.status = t.status := by
    intro t' ht'
    obtain ⟨t, ht, ⟨-, rfl⟩ | ⟨-, rfl⟩⟩ := TaskWorld.of_edit ht'
    · exact ⟨t, ht, hid t, hstatus t⟩
    · exact ⟨t', ht, rfl, rfl⟩
  refine ⟨⟨h.lawful, ?_, TableOk.known_of_ids h.known (TaskWorld.edit_ids hid), fun t' ht' => ?_⟩, fun c hc => ?_⟩
  · rw [TaskWorld.edit_ids hid]
    exact h.ids
  · obtain ⟨t, ht, hid', hstatus'⟩ := hrow t' ht'
    rw [hid', hstatus']
    exact h.untouched t ht
  · refine (h.cancels c hc).mono fun n _ _ hlive t' ht' hn => ?_
    obtain ⟨t, ht, hid', hstatus'⟩ := hrow t' ht'
    rw [hstatus']
    exact hlive t ht (hid'.symm.trans hn)

/-- A row after a status was written. -/
theorem TaskWorld.of_writeStatus {status : AssignedStatus} {t' : AssignedTask} (h : t' ∈ (w.writeStatus id status).rows) :
    ∃ t ∈ w.rows, t'.id = t.id ∧ t'.failStreak = t.failStreak ∧
      (t.id = id ∧ t'.status = status ∨ t.id ≠ id ∧ t'.status = t.status) := by
  obtain ⟨t, ht, ⟨hid, rfl⟩ | ⟨hid, rfl⟩⟩ := TaskWorld.of_edit h
  · exact ⟨t, ht, rfl, rfl, .inl ⟨hid, rfl⟩⟩
  · exact ⟨t', ht, rfl, rfl, .inr ⟨hid, rfl⟩⟩

/-- A status is written lawfully. -/
theorem TableOk.writeStatus {status : AssignedStatus} (h : TableOk w)
    (hlawful : ∀ t ∈ w.rows, t.id = id → StatusChange.Lawful ⟨id, t.status, status, w.fails id⟩) :
    TableOk (w.writeStatus id status) := by
  have hids : ((w.writeStatus id status).rows.map fun t => t.id) = w.rows.map fun t => t.id :=
    TaskWorld.edit_ids fun _ => rfl
  refine ⟨fun ch hch => ?_, hids ▸ h.ids, TableOk.known_of_ids h.known hids, fun t' ht' hlisted htouched => ?_⟩
  · rcases List.mem_append.1 hch with hch | hch
    · exact h.lawful ch hch
    · obtain ⟨t, ht, rfl⟩ := List.mem_map.1 hch
      obtain ⟨ht, hid⟩ := List.mem_filter.1 ht
      exact hlawful t ht (by simpa using hid)
  · obtain ⟨t, ht, hid, -, hwritten | hkept⟩ := TaskWorld.of_writeStatus ht'
    · exact absurd (List.mem_cons.2 (.inl (hid.trans hwritten.1))) htouched
    · rw [hkept.2]
      exact h.untouched t ht (hid ▸ hlisted) fun hmem => htouched (List.mem_cons.2 (.inr (hid ▸ hmem)))

/-- A cancelling writes over a status that is open or is its own. -/
theorem TableOk.cancel (h : TableOk w) (hlive : NotEnded w id) : TableOk (w.writeStatus id .cancelled) := by
  refine h.writeStatus fun t ht hid => ⟨fun hclosed => ?_, fun hstalled => by cases hstalled⟩
  rcases hlive t ht hid with hopen | hcancelled
  · cases hclosed.symm.trans hopen
  · exact hcancelled.symm

theorem NotEnded.cancel (hlive : NotEnded w id) (n : ℕ) : NotEnded (w.writeStatus n .cancelled) id := by
  intro t' ht' hid
  obtain ⟨t, ht, hid', -, hwritten | hkept⟩ := TaskWorld.of_writeStatus ht'
  · exact .inr hwritten.2
  · rw [hkept.2]
    exact hlive t ht (hid'.symm.trans hid)

/-- A tick writes a status that is lawful. -/
theorem TasksOk.tickWrites {status : AssignedStatus} (h : TasksOk w)
    (hlawful : ∀ t ∈ w.rows, t.id = id → StatusChange.Lawful ⟨id, t.status, status, w.fails id⟩) :
    TasksOk (w.tickWrites id status) := by
  obtain ⟨hchanges, hids, hknown, huntouched⟩ := h.toTableOk.writeStatus hlawful
  refine ⟨⟨hchanges, hids, hknown, huntouched⟩, fun c' hc' => ?_⟩
  obtain ⟨c, hc, rfl⟩ := List.mem_map.1 hc'
  split
  case isTrue hread =>
    cases h.cancels c hc with
    | before py agentId taskId hprog =>
        exact .before py agentId taskId hprog
    | between hprog hret hread _ =>
        exact .between hprog hret hread fun hfresh => by cases hfresh
    | after h =>
        exact .after h
  case isFalse hread =>
    refine (h.cancels c hc).mono fun n hn _ hlive t' ht' hid => ?_
    obtain ⟨t, ht, hid', -, hwritten | hkept⟩ := TaskWorld.of_writeStatus ht'
    · have hn' : n = id := hid.symm.trans (hid'.trans hwritten.1)
      exact absurd (hn' ▸ hn) hread
    · rw [hkept.2]
      exact hlive t ht (hid'.symm.trans hid)

/-- Whatever happens beside the tick. -/
theorem TasksOk.beside (h : TasksOk w) (hstep : Beside serialRegime w w') : TasksOk w' := by
  have hothers : ∀ {front back : List CancelCall} {c : CancelCall}, w.cancels = front ++ c :: back →
      ∀ c' ∈ front ++ back, c' ∈ w.cancels := by
    intro front back c hcancels c' hc'
    rw [hcancels]
    rcases List.mem_append.1 hc' with hc' | hc' <;> simp [hc']
  have hreplaced : ∀ {front back : List CancelCall} {c c' : CancelCall}, c' ∈ front ++ c :: back →
      c' = c ∨ c' ∈ front ++ back := by
    intro front back c c' hc'
    rcases List.mem_append.1 hc' with hc' | hc'
    · exact .inr (List.mem_append_left _ hc')
    · exact (List.mem_cons.1 hc').imp_right fun hc' => List.mem_append_right _ hc'
  cases hstep with
  | create id kind params createdAt hid hcap =>
      refine ⟨⟨h.lawful, ?_, fun n hn => ?_, fun t ht hlisted htouched => ?_⟩, fun c hc => ?_⟩
      · rw [List.map_append, List.nodup_append]
        refine ⟨h.ids, by simp, fun n hn m hm heq => ?_⟩
        obtain ⟨t, ht, rfl⟩ := List.mem_map.1 hn
        have hm : m = id := by simpa using hm
        exact absurd (hid t ht) (by omega)
      · obtain ⟨t, ht, hn⟩ := h.known n hn
        exact ⟨t, List.mem_append_left _ ht, hn⟩
      · rcases List.mem_append.1 ht with ht | ht
        · exact h.untouched t ht hlisted htouched
        · obtain rfl := List.mem_singleton.1 ht
          rfl
      · refine (h.cancels c hc).mono fun n _ _ hlive t ht hn => ?_
        rcases List.mem_append.1 ht with ht | ht
        · exact hlive t ht hn
        · obtain rfl := List.mem_singleton.1 ht
          exact .inl rfl
  | cancelStart py agentId taskId =>
      refine ⟨⟨h.lawful, h.ids, h.known, h.untouched⟩, fun c hc => ?_⟩
      rcases List.mem_append.1 hc with hc | hc
      · exact (h.cancels c hc).mono fun _ _ _ hlive => hlive
      · obtain rfl := List.mem_singleton.1 hc
        exact .before py agentId taskId rfl
  | @cancelGet front c back id k hcancels hnext =>
      refine ⟨⟨h.lawful, h.ids, h.known, h.untouched⟩, fun c' hc' => ?_⟩
      rcases hreplaced hc' with rfl | hc'
      · cases h.cancels c (by simp [hcancels]) with
        | before py agentId taskId hprog =>
            rcases runCancelTask_cases py agentId taskId with ⟨r, hret⟩ | ⟨id', k', hcall, hcases⟩
            · cases hnext.symm.trans (hprog.trans hret)
            · obtain ⟨heq, rfl⟩ : id = id' ∧ k = k' := by
                cases hnext.symm.trans (hprog.trans hcall)
                exact ⟨rfl, rfl⟩
              subst heq
              rcases hcases (w.rows.find? fun t => t.id == id) with hret | ⟨⟨t, ht, hopen⟩, k', hcall', hret⟩
              · exact .after hret
              · refine .between hcall' hret rfl fun _ t' ht' hid => ?_
                have hmem := List.mem_of_find?_eq_some ht
                have ht_id : t.id = id := by simpa using List.find?_some ht
                have heq := List.inj_on_of_nodup_map h.ids ht' hmem (hid.trans ht_id.symm)
                exact .inl (heq ▸ hopen)
        | between hprog _ _ _ =>
            cases hnext.symm.trans hprog
        | after hret =>
            obtain ⟨r, hret⟩ := hret
            cases hnext.symm.trans hret
      · exact (h.cancels c' (hothers hcancels c' hc')).mono fun _ _ _ hlive => hlive
  | @cancelWrite front c back id status k hcancels hnext hallows =>
      cases h.cancels c (by simp [hcancels]) with
      | before py agentId taskId hprog =>
          rcases runCancelTask_cases py agentId taskId with ⟨r, hret⟩ | ⟨id', k', hcall, -⟩
          · cases hnext.symm.trans (hprog.trans hret)
          · cases hnext.symm.trans (hprog.trans hcall)
      | between hprog hret _ hfresh =>
          cases hnext.symm.trans hprog
          obtain ⟨hchanges, hids, hknown, huntouched⟩ := h.toTableOk.cancel (hfresh hallows)
          refine ⟨⟨hchanges, hids, hknown, huntouched⟩, fun c' hc' => ?_⟩
          rcases hreplaced hc' with rfl | hc'
          · exact .after hret
          · exact (h.cancels c' (hothers hcancels c' hc')).mono fun _ _ _ hlive => hlive.cancel id
      | after hret =>
          obtain ⟨r, hret⟩ := hret
          cases hnext.symm.trans hret
  | cancelLeave front c back hcancels =>
      refine ⟨⟨h.lawful, h.ids, h.known, h.untouched⟩, fun c' hc' => ?_⟩
      exact (h.cancels c' (hothers hcancels c' hc')).mono fun _ _ _ hlive => hlive

end Always

/-! ### What holds in a tick -/

/-- In a tick: the streak of an open task is at most its failures in a row, but for the task at work, and the tasks
ahead were listed and are not settled. -/
structure TickOk (busy : Option ℕ) (rest : List AssignedTask) (w : TaskWorld) : Prop extends TasksOk w where
  owed : ∀ t ∈ w.rows, busy ≠ some t.id → t.status.isOpen = true → t.failStreak ≤ w.fails t.id
  ahead : ∀ t ∈ rest, t.id ∈ w.listed ∧ t.id ∉ w.settled ∧ t.failStreak ≤ w.fails t.id

/-- The tick has stopped the task. -/
structure Stopped (id : ℕ) (w : TaskWorld) : Prop where
  listed : id ∈ w.listed
  settled : id ∈ w.settled
  touched : id ∈ w.touched
  closed : ∀ t ∈ w.rows, t.id = id → t.status.isOpen = false

section Tick

variable {w w' : TaskWorld} {busy : Option ℕ} {rest : List AssignedTask} {task : AssignedTask} {id : ℕ}

/-- What the others leave to the tick. -/
structure LeavesTick (w w' : TaskWorld) : Prop where
  listed : w'.listed = w.listed
  settled : w'.settled = w.settled
  fails : w'.fails = w.fails
  touched : ∀ id ∈ w.touched, id ∈ w'.touched
  rows : ∀ t' ∈ w'.rows, (∃ t ∈ w.rows, t'.id = t.id ∧ t'.failStreak = t.failStreak ∧
      (t'.status.isOpen = true → t.status.isOpen = true)) ∨ t'.failStreak = 0 ∧ ∀ t ∈ w.rows, t.id ≠ t'.id

theorem LeavesTick.of_rows (hlisted : w'.listed = w.listed) (hsettled : w'.settled = w.settled)
    (hfails : w'.fails = w.fails) (htouched : w'.touched = w.touched) (hrows : w'.rows = w.rows) : LeavesTick w w' :=
  ⟨hlisted, hsettled, hfails, fun _ h => htouched ▸ h, fun t ht => .inl ⟨t, hrows ▸ ht, rfl, rfl, fun h => h⟩⟩

theorem TasksOk.leavesTick (h : TasksOk w) (hstep : Beside serialRegime w w') : LeavesTick w w' := by
  cases hstep with
  | create id kind params createdAt hid _ =>
      refine ⟨rfl, rfl, rfl, fun _ h => h, fun t' ht' => ?_⟩
      rcases List.mem_append.1 ht' with ht' | ht'
      · exact .inl ⟨t', ht', rfl, rfl, fun h => h⟩
      · obtain rfl := List.mem_singleton.1 ht'
        exact .inr ⟨rfl, fun t ht => (hid t ht).ne⟩
  | cancelStart py agentId taskId =>
      exact .of_rows rfl rfl rfl rfl rfl
  | cancelGet front c back hcancels hnext =>
      exact .of_rows rfl rfl rfl rfl rfl
  | @cancelWrite front c back id status k hcancels hnext hallows =>
      have hstatus : status = .cancelled := by
        cases h.cancels c (by simp [hcancels]) with
        | before py agentId taskId hprog =>
            rcases runCancelTask_cases py agentId taskId with ⟨r, hret⟩ | ⟨id', k', hcall, -⟩
            · cases hnext.symm.trans (hprog.trans hret)
            · cases hnext.symm.trans (hprog.trans hcall)
        | between hprog _ _ _ =>
            cases hnext.symm.trans hprog
            rfl
        | after hret =>
            obtain ⟨r, hret⟩ := hret
            cases hnext.symm.trans hret
      subst hstatus
      refine ⟨rfl, rfl, rfl, fun n hn => List.mem_cons_of_mem _ hn, fun t' ht' => ?_⟩
      obtain ⟨t, ht, hid, hstreak, hwritten | hkept⟩ := TaskWorld.of_writeStatus ht'
      · exact .inl ⟨t, ht, hid, hstreak, fun hopen => by rw [hwritten.2] at hopen; cases hopen⟩
      · exact .inl ⟨t, ht, hid, hstreak, fun hopen => hkept.2 ▸ hopen⟩
  | cancelLeave front c back hcancels =>
      exact .of_rows rfl rfl rfl rfl rfl

theorem tickOk_stable : Stable (Beside serialRegime) (TickOk busy rest) := by
  intro w w' hstep h
  have hleaves := h.toTasksOk.leavesTick hstep
  refine ⟨h.toTasksOk.beside hstep, fun t' ht' hbusy hopen => ?_, fun t ht => ?_⟩
  · rw [hleaves.fails]
    rcases hleaves.rows t' ht' with ⟨t, ht, hid, hstreak, hopened⟩ | ⟨hzero, -⟩
    · rw [hid, hstreak]
      exact h.owed t ht (hid ▸ hbusy) (hopened hopen)
    · rw [hzero]
      exact Nat.zero_le _
  · rw [hleaves.listed, hleaves.settled, hleaves.fails]
    exact h.ahead t ht

theorem listed_stable : Stable (Beside serialRegime) fun w => TickOk busy rest w ∧ id ∈ w.listed := by
  rintro w w' hstep ⟨h, hlisted⟩
  exact ⟨tickOk_stable w w' hstep h, (h.toTasksOk.leavesTick hstep).listed ▸ hlisted⟩

theorem Stopped.beside (h : TasksOk w) (hstopped : Stopped id w) (hstep : Beside serialRegime w w') : Stopped id w' := by
  have hleaves := h.leavesTick hstep
  refine ⟨hleaves.listed ▸ hstopped.listed, hleaves.settled ▸ hstopped.settled, hleaves.touched _ hstopped.touched,
    fun t' ht' hid => ?_⟩
  rcases hleaves.rows t' ht' with ⟨t, ht, hid', -, hopened⟩ | ⟨-, hnew⟩
  · have hclosed := hstopped.closed t ht (hid'.symm.trans hid)
    exact Bool.eq_false_iff.2 fun hopen => Bool.eq_false_iff.1 hclosed (hopened hopen)
  · obtain ⟨t, ht, hid'⟩ := h.known _ hstopped.listed
    exact absurd (hid'.trans hid.symm) (hnew t ht)

theorem stopped_stable : Stable (Beside serialRegime) fun w => TickOk busy rest w ∧ Stopped id w := by
  rintro w w' hstep ⟨h, hstopped⟩
  exact ⟨tickOk_stable w w' hstep h, hstopped.beside h.toTasksOk hstep⟩

/-- A failure is to be recorded: it is one in a row with the others, or the task is stopped anyway. -/
def Failing (task : AssignedTask) (rest : List AssignedTask) (w : TaskWorld) : Prop :=
  TickOk none rest w ∧ task.id ∈ w.listed ∧ (task.failStreak + 1 ≤ w.fails task.id ∨ Stopped task.id w)

theorem failing_stable : Stable (Beside serialRegime) (Failing task rest) := by
  rintro w w' hstep ⟨h, hlisted, hfails⟩
  have hleaves := h.toTasksOk.leavesTick hstep
  refine ⟨tickOk_stable w w' hstep h, hleaves.listed ▸ hlisted, ?_⟩
  rcases hfails with hfails | hstopped
  · exact .inl (hleaves.fails ▸ hfails)
  · exact .inr (hstopped.beside h.toTasksOk hstep)

/-! ### The calls of a tick -/

/-- The ghosts of the tick are no matter of the table. -/
theorem TasksOk.ghost (h : TasksOk w) (fails : ℕ → ℕ) (settled : List ℕ) :
    TasksOk { w with fails := fails, settled := settled } :=
  ⟨⟨h.lawful, h.ids, h.known, h.untouched⟩, fun c hc => (h.cancels c hc).mono fun _ _ _ hlive => hlive⟩

theorem TickOk.tail (h : TickOk busy (task :: rest) w) : TickOk busy rest w :=
  ⟨h.toTasksOk, h.owed, fun t ht => h.ahead t (List.mem_cons_of_mem _ ht)⟩

theorem TickOk.nil (h : TickOk busy rest w) : TickOk busy [] w :=
  ⟨h.toTasksOk, h.owed, by simp⟩

theorem TickOk.setHistory (h : TickOk busy rest w) (n : ℕ) (history : List HistoryEntry) :
    TickOk busy rest (w.edit n fun t => { t with history := history }) := by
  refine ⟨h.toTasksOk.edit (fun _ => rfl) fun _ => rfl, fun t' ht' hbusy hopen => ?_, h.ahead⟩
  obtain ⟨t, ht, ⟨-, rfl⟩ | ⟨-, rfl⟩⟩ := TaskWorld.of_edit ht'
  · exact h.owed t ht hbusy hopen
  · exact h.owed t' ht hbusy hopen

/-- The streak of a task is set. -/
theorem TickOk.setFailStreak {streak : ℕ} (h : TickOk busy rest w) (hbusy : busy = none ∨ busy = some id)
    (hstreak : ∀ t ∈ w.rows, t.id = id → t.status.isOpen = true → streak ≤ w.fails id) :
    TickOk none rest (w.edit id fun t => { t with failStreak := streak }) := by
  refine ⟨h.toTasksOk.edit (fun _ => rfl) fun _ => rfl, fun t' ht' _ hopen => ?_, h.ahead⟩
  obtain ⟨t, ht, ⟨hid, rfl⟩ | ⟨hid, rfl⟩⟩ := TaskWorld.of_edit ht'
  · exact (hstreak t ht hid hopen).trans_eq (congrArg w.fails hid).symm
  · refine h.owed t' ht ?_ hopen
    rcases hbusy with rfl | rfl
    · exact fun hnone => by cases hnone
    · exact fun hsome => hid (Option.some.inj hsome).symm

/-- The check of the next task has succeeded. -/
theorem TickOk.read (h : TickOk none (task :: rest) w) (hnodup : ∀ t ∈ rest, t.id ≠ task.id) {α : Type} (a : α) :
    TickOk (some task.id) rest (w.checked task.id (.ok a : Except AnswerError α)) ∧
      task.id ∈ (w.checked task.id (.ok a : Except AnswerError α)).listed := by
  refine ⟨⟨h.toTasksOk.ghost _ _, fun t ht hbusy hopen => ?_, fun t ht => ?_⟩, (h.ahead task (by simp)).1⟩
  · have hne : t.id ≠ task.id := fun heq => hbusy (heq ▸ rfl)
    exact (h.owed t ht (by simp) hopen).trans_eq (Function.update_of_ne hne _ _).symm
  · obtain ⟨hlisted, hsettled, hfails⟩ := h.ahead t (List.mem_cons_of_mem _ ht)
    refine ⟨hlisted, fun hmem => ?_, hfails.trans_eq (Function.update_of_ne (hnodup t ht) _ _).symm⟩
    rcases List.mem_cons.1 hmem with heq | hmem
    · exact hnodup t ht heq
    · exact hsettled hmem

/-- The next task has failed before its check has succeeded. -/
theorem TickOk.failed (h : TickOk none (task :: rest) w) : Failing task rest (w.failed task.id) := by
  obtain ⟨hlisted, hsettled, hfails⟩ := h.ahead task (by simp)
  have hgrows : ∀ n, w.fails n ≤ Function.update w.fails task.id (w.fails task.id + 1) n := by
    intro n
    by_cases hn : n = task.id
    · rw [hn, Function.update_self]
      exact Nat.le_succ _
    · rw [Function.update_of_ne hn]
  rw [TaskWorld.failed, if_neg hsettled]
  refine ⟨⟨h.toTasksOk.ghost _ _, fun t ht hbusy hopen => ?_, fun t ht => ?_⟩, hlisted, .inl ?_⟩
  · exact (h.owed t ht hbusy hopen).trans (hgrows _)
  · obtain ⟨hlisted, hsettled, hfails⟩ := h.ahead t (List.mem_cons_of_mem _ ht)
    exact ⟨hlisted, hsettled, hfails.trans (hgrows _)⟩
  · simpa using hfails

theorem Stopped.failed (h : TickOk none rest w) (hstopped : Stopped task.id w) :
    Failing task rest (w.failed task.id) := by
  rw [TaskWorld.failed, if_pos hstopped.settled]
  exact ⟨h, hstopped.listed, .inr hstopped⟩

/-- The tick writes a status over one that nobody has written since. -/
theorem TickOk.tickWrites {status : AssignedStatus} (h : TickOk none rest w) (hlisted : id ∈ w.listed)
    (huntouched : id ∉ w.touched) (hclosed : status.isOpen = false) (hnodup : status = .done → ∀ t ∈ rest, t.id ≠ id)
    (hstalled : status = .stalled → stallAfter ≤ w.fails id) : TickOk none rest (w.tickWrites id status) := by
  refine ⟨h.toTasksOk.tickWrites fun t ht hid => ⟨fun hnot => ?_, fun heq _ => hstalled heq⟩, fun t' ht' _ hopen => ?_,
    fun t ht => ?_⟩
  · cases hnot.symm.trans (h.untouched t ht (hid ▸ hlisted) (hid ▸ huntouched))
  · obtain ⟨t, ht, hid, hstreak, hwritten | hkept⟩ := TaskWorld.of_writeStatus ht'
    · rw [hwritten.2] at hopen
      cases hclosed.symm.trans hopen
    · rw [hid, hstreak]
      exact h.owed t ht (by simp) (hkept.2 ▸ hopen)
  · obtain ⟨hlisted', hsettled, hfails⟩ := h.ahead t ht
    refine ⟨hlisted', ?_, hfails⟩
    simp only [TaskWorld.tickWrites]
    split
    case isTrue hdone =>
      intro hmem
      rcases List.mem_cons.1 hmem with heq | hmem
      · exact hnodup hdone t ht heq
      · exact hsettled hmem
    case isFalse _ =>
      exact hsettled

/-- The tick stops a task. -/
theorem Stopped.of_done (hlisted : id ∈ w.listed) : Stopped id (w.tickWrites id .done) := by
  refine ⟨hlisted, by simp [TaskWorld.tickWrites], by simp [TaskWorld.tickWrites, TaskWorld.writeStatus], ?_⟩
  intro t' ht' hid
  obtain ⟨t, ht, hid', -, hwritten | hkept⟩ := TaskWorld.of_writeStatus ht'
  · rw [hwritten.2]
    rfl
  · exact absurd (hid'.symm.trans hid) hkept.1

theorem Stopped.edit {n : ℕ} {f : AssignedTask → AssignedTask} (h : Stopped id w) (hid : ∀ t, (f t).id = t.id)
    (hstatus : ∀ t, (f t).status = t.status) : Stopped id (w.edit n f) := by
  refine ⟨h.listed, h.settled, h.touched, fun t' ht' heq => ?_⟩
  obtain ⟨t, ht, ⟨-, rfl⟩ | ⟨-, rfl⟩⟩ := TaskWorld.of_edit ht'
  · rw [hstatus]
    exact h.closed t ht ((hid t).symm.trans heq)
  · exact h.closed t' ht heq

/-! ### The programs of a tick -/

/-- An assertion of a tick, which nothing beside it breaks. -/
structure Assertion (S : TaskWorld → Prop) : Prop where
  stable : Stable (Beside serialRegime) S
  ok : ∀ w, S w → TasksOk w

theorem tickOk_assertion : Assertion (TickOk busy rest) :=
  ⟨tickOk_stable, fun _ h => h.toTasksOk⟩

theorem listed_assertion : Assertion fun w => TickOk busy rest w ∧ id ∈ w.listed :=
  ⟨listed_stable, fun _ h => h.1.toTasksOk⟩

theorem stopped_assertion : Assertion fun w => TickOk busy rest w ∧ Stopped id w :=
  ⟨stopped_stable, fun _ h => h.1.toTasksOk⟩

theorem failing_assertion : Assertion (Failing task rest) :=
  ⟨failing_stable, fun _ h => h.1.toTasksOk⟩

/-- A program of the tick, from a world. -/
def TickSafe {α : Type} (x : TaskM α) (w : TaskWorld) (Q : Except AnswerError α → TaskWorld → Prop) : Prop :=
  x.run.Safe (Beside serialRegime) (Answered serialRegime) TasksOk Q w

section Rules

variable {α β : Type} {S : TaskWorld → Prop} {x : TaskM α} {f : α → TaskM β} {Q : Except AnswerError α → TaskWorld → Prop}
  {R : Except AnswerError β → TaskWorld → Prop}

theorem TickSafe.value {a : α} (hS : Assertion S) (hw : S w) (hQ : ∀ w₁, S w₁ → Q (.ok a) w₁) : TickSafe (pure a) w Q :=
  .of_ret hS.stable hw hS.ok hQ

theorem TickSafe.error {e : AnswerError} (hS : Assertion S) (hw : S w) (hQ : ∀ w₁, S w₁ → Q (.error e) w₁) :
    TickSafe (throw e) w Q :=
  .of_ret hS.stable hw hS.ok hQ

theorem TickSafe.ask {c : TaskCall} {f : c.Resp → TaskM β} (hS : Assertion S) (hw : S w)
    (h : ∀ w₁ r w₂, S w₁ → Answered serialRegime c w₁ r w₂ → TickSafe (f r) w₂ R) : TickSafe (TaskM.ask c >>= f) w R := by
  unfold TickSafe
  rw [run_bind, run_ask]
  exact .of_call hS.stable hw hS.ok h

theorem TickSafe.last {c : TaskCall} {Q : Except AnswerError c.Resp → TaskWorld → Prop} (hS : Assertion S) (hw : S w)
    (hanswer : ∀ w₁ r w₂, S w₁ → Answered serialRegime c w₁ r w₂ → S w₂) (hQ : ∀ r w₁, S w₁ → Q (.ok r) w₁) :
    TickSafe (TaskM.ask c) w Q :=
  .of_call hS.stable hw hS.ok fun w₁ r w₂ hw₁ h => .of_ret hS.stable (hanswer w₁ r w₂ hw₁ h) hS.ok (hQ r)

theorem TickSafe.bind (h : TickSafe x w Q) (hok : ∀ a w₁, Q (.ok a) w₁ → TickSafe (f a) w₁ R)
    (herror : ∀ e w₁, Q (.error e) w₁ → TickSafe (throw e : TaskM β) w₁ R) : TickSafe (x >>= f) w R := by
  unfold TickSafe
  rw [run_bind]
  refine Prog.Safe.bind h fun r w₁ hr => ?_
  cases r with
  | ok a =>
      exact hok a w₁ hr
  | error e =>
      exact herror e w₁ hr

/-- A program that only returns goes on. -/
theorem TickSafe.then (h : TickSafe x w fun r w₁ => (∃ a, r = .ok a) ∧ S w₁) (hok : ∀ a w₁, S w₁ → TickSafe (f a) w₁ R) :
    TickSafe (x >>= f) w R := by
  refine h.bind (fun a w₁ hw₁ => hok a w₁ hw₁.2) fun e w₁ hw₁ => ?_
  obtain ⟨⟨a, ha⟩, -⟩ := hw₁
  cases ha

/-- Whatever a program comes to. -/
theorem TickSafe.attempt {f : Except AnswerError α → TaskM β} (h : TickSafe x w Q)
    (hf : ∀ r w₁, Q r w₁ → TickSafe (f r) w₁ R) : TickSafe (TaskM.attempt x >>= f) w R := by
  unfold TickSafe
  rw [run_bind, run_attempt, Prog.bind_assoc]
  exact Prog.Safe.bind h hf

end Rules

variable {cfg : TaskConfig} {clock : TaskClock} {S : TaskWorld → Prop}

theorem appendHistory_safe {entry : HistoryEntry} (hS : Assertion S)
    (hkeeps : ∀ w history, S w → S (w.edit id fun t => { t with history := history })) (hw : S w) :
    TickSafe (appendHistory id entry) w fun r w₁ => (∃ a, r = .ok a) ∧ S w₁ := by
  refine .ask hS hw fun w₁ row w₂ hw₁ hanswer => ?_
  obtain ⟨⟨-, rfl⟩, -⟩ := hanswer
  cases row with
  | none =>
      exact .value hS hw₁ fun w₃ hw₃ => ⟨⟨_, rfl⟩, hw₃⟩
  | some task =>
      refine .last hS hw₁ (fun w₃ _ w₄ hw₃ hanswer => ?_) fun _ w₃ hw₃ => ⟨⟨_, rfl⟩, hw₃⟩
      obtain ⟨rfl, -⟩ := hanswer
      exact hkeeps w₃ _ hw₃

/-- A notice changes nothing, and a reminder raises a failure of the infrastructure only. -/
theorem postNotice_safe {notice : TaskNotice} (hS : Assertion S) (hw : S w) :
    TickSafe (postNotice cfg notice) w fun r w₁ => S w₁ ∧ ∀ e, r = .error e →
      ∀ id day reason, notice = .reminder id day reason → e ∈ infraErrors := by
  unfold postNotice
  split
  · exact .value hS hw fun w₁ hw₁ => ⟨hw₁, fun e he => by cases he⟩
  · refine .ask hS hw fun w₁ answer w₂ hw₁ hanswer => ?_
    obtain ⟨rfl, hallowed⟩ := hanswer
    cases answer with
    | ok status =>
        exact .value hS hw₁ fun w₃ hw₃ => ⟨hw₃, fun e he => by cases he⟩
    | error e =>
        refine .error hS hw₁ fun w₃ hw₃ => ⟨hw₃, fun e' he id day reason hnotice => ?_⟩
        obtain rfl := Except.error.inj he
        subst hnotice
        exact hallowed

/-- What the check of a task leaves: it is done with; or the infrastructure has failed; or it has failed itself,
before its check has succeeded or when it is stopped. -/
def OneEnd (task : AssignedTask) (rest : List AssignedTask) : Except AnswerError Bool → TaskWorld → Prop
  | .ok _, w => TickOk none rest w
  | .error e, w => e ∈ infraErrors ∧ TickOk none rest w ∨ TickOk none (task :: rest) w ∨
      TickOk none rest w ∧ Stopped task.id w

/-- A task is stopped, with a notice. -/
theorem stop_safe {entry : HistoryEntry} {notice : TaskNotice} (hw : TickOk none rest w) (hlisted : task.id ∈ w.listed)
    (hnodup : ∀ t ∈ rest, t.id ≠ task.id) : TickSafe (do
      TaskM.ask (.setStatus task.id .done)
      appendHistory task.id entry
      let _ ← postNotice cfg notice
      return true) w (OneEnd task rest) := by
  refine .ask listed_assertion ⟨hw, hlisted⟩ fun w₁ _ w₂ hw₁ hanswer => ?_
  obtain ⟨rfl, huntouched⟩ := hanswer
  obtain ⟨hw₁, hlisted₁⟩ := hw₁
  have hstopped : TickOk none rest (w₁.tickWrites task.id .done) ∧ Stopped task.id (w₁.tickWrites task.id .done) :=
    ⟨hw₁.tickWrites hlisted₁ huntouched rfl (fun _ => hnodup) fun h => (by cases h), .of_done hlisted₁⟩
  refine (appendHistory_safe stopped_assertion (fun w history hw => ?_) hstopped).then fun _ w₃ hw₃ => ?_
  · exact ⟨hw.1.setHistory _ _, hw.2.edit (fun _ => rfl) fun _ => rfl⟩
  · refine (postNotice_safe stopped_assertion hw₃).bind (fun _ w₄ hw₄ => ?_) fun e w₄ hw₄ => ?_
    · exact .value stopped_assertion hw₄.1 fun w₅ hw₅ => hw₅.1
    · exact .error stopped_assertion hw₄.1 fun w₅ hw₅ => .inr (.inr hw₅)

/-- The streak of a task is cleared after its check has succeeded. -/
theorem TickOk.clears (h : TickOk (some task.id) rest w) :
    TickOk none rest (w.edit task.id fun t => { t with failStreak := 0 }) :=
  h.setFailStreak (.inr rfl) fun _ _ _ _ => Nat.zero_le _

theorem runWatch_safe (hw : TickOk none (task :: rest) w) (hnodup : ∀ t ∈ rest, t.id ≠ task.id) :
    TickSafe (runWatch cfg clock task) w (OneEnd task rest) := by
  unfold runWatch
  split
  · exact .error tickOk_assertion hw fun w₁ hw₁ => .inr (.inl hw₁)
  · split
    · exact .error tickOk_assertion hw fun w₁ hw₁ => .inr (.inl hw₁)
    · refine .ask tickOk_assertion hw fun w₁ answer w₂ hw₁ hanswer => ?_
      obtain ⟨rfl, -⟩ := hanswer
      cases answer with
      | error e =>
          exact .error tickOk_assertion hw₁ fun w₃ hw₃ => .inr (.inl hw₃)
      | ok result =>
          refine .ask listed_assertion (hw₁.read hnodup result) fun w₃ _ w₄ hw₃ hanswer => ?_
          obtain ⟨rfl, -⟩ := hanswer
          obtain ⟨hw₃, hlisted⟩ := hw₃
          split
          · exact stop_safe hw₃.clears hlisted hnodup
          · split
            · refine (appendHistory_safe tickOk_assertion (fun w history hw => hw.setHistory _ _) hw₃.clears).then
                fun _ w₅ hw₅ => ?_
              refine (postNotice_safe tickOk_assertion hw₅).mono fun r w₆ hw₆ => ?_
              cases r with
              | ok didPost =>
                  exact hw₆.1
              | error e =>
                  exact .inl ⟨hw₆.2 e rfl _ _ _ rfl, hw₆.1⟩
            · exact .value tickOk_assertion hw₃.clears fun w₅ hw₅ => hw₅

/-- The work of a recurring task is its check. -/
theorem runRecurringWork_safe (hw : TickOk none (task :: rest) w) (hnodup : ∀ t ∈ rest, t.id ≠ task.id) :
    TickSafe (runRecurringWork task) w fun r w₁ =>
      match r with
      | .ok _ => TickOk (some task.id) rest w₁
      | .error _ => TickOk none (task :: rest) w₁ := by
  unfold runRecurringWork
  split
  · refine .ask tickOk_assertion hw fun w₁ answer w₂ hw₁ hanswer => ?_
    obtain ⟨rfl, -⟩ := hanswer
    cases answer with
    | error e =>
        exact .error tickOk_assertion hw₁ fun w₃ hw₃ => hw₃
    | ok worked =>
        exact .value tickOk_assertion (hw₁.read hnodup worked).1 fun w₃ hw₃ => hw₃
  · refine .ask tickOk_assertion hw fun w₁ answer w₂ hw₁ hanswer => ?_
    obtain ⟨rfl, -⟩ := hanswer
    cases answer with
    | error e =>
        exact .error tickOk_assertion hw₁ fun w₃ hw₃ => hw₃
    | ok worked =>
        exact .value tickOk_assertion (hw₁.read hnodup worked).1 fun w₃ hw₃ => hw₃

theorem runRecurring_safe (hw : TickOk none (task :: rest) w) (hnodup : ∀ t ∈ rest, t.id ≠ task.id) :
    TickSafe (runRecurring cfg clock task) w (OneEnd task rest) := by
  unfold runRecurring
  cases ((task.params.get "deadline_days" .none).orElse (.int defaultDeadlineDays)).toInt cfg.py with
  | error e =>
      exact .error tickOk_assertion hw fun w₁ hw₁ => .inr (.inl hw₁)
  | ok deadlineDays =>
      change TickSafe (if clock.deadlinePassed task.createdAt deadlineDays = true then _ else _) w (OneEnd task rest)
      split
      · exact stop_safe hw.tail (hw.ahead task (by simp)).1 hnodup
      · split
        · exact .value tickOk_assertion hw.tail fun w₁ hw₁ => hw₁
        · refine (runRecurringWork_safe hw hnodup).bind (fun worked w₁ hw₁ => ?_) fun e w₁ hw₁ => ?_
          · refine .ask tickOk_assertion hw₁ fun w₂ _ w₃ hw₂ hanswer => ?_
            obtain ⟨rfl, -⟩ := hanswer
            refine (appendHistory_safe tickOk_assertion (fun w history hw => hw.setHistory _ _) hw₂.clears).then
              fun _ w₄ hw₄ => ?_
            exact .value tickOk_assertion hw₄ fun w₅ hw₅ => hw₅
          · exact .error tickOk_assertion hw₁ fun w₂ hw₂ => .inr (.inl hw₂)

theorem runOne_safe (hw : TickOk none (task :: rest) w) (hnodup : ∀ t ∈ rest, t.id ≠ task.id) :
    TickSafe (runOne cfg clock task) w (OneEnd task rest) := by
  unfold runOne
  split
  · exact runWatch_safe hw hnodup
  · split
    · exact runRecurring_safe hw hnodup
    · exact .value tickOk_assertion hw.tail fun w₁ hw₁ => hw₁

theorem Failing.edit {n : ℕ} {f : AssignedTask → AssignedTask} (h : Failing task rest w)
    (hkeeps : TickOk none rest (w.edit n f)) (hid : ∀ t, (f t).id = t.id) (hstatus : ∀ t, (f t).status = t.status) :
    Failing task rest (w.edit n f) :=
  ⟨hkeeps, h.2.1, h.2.2.imp_right fun hstopped => hstopped.edit hid hstatus⟩

theorem recordFailure_safe (hw : Failing task rest w) :
    TickSafe (recordFailure cfg clock task) w fun _ w₁ => TickOk none rest w₁ := by
  refine .ask failing_assertion hw fun w₁ _ w₂ hw₁ hanswer => ?_
  obtain ⟨rfl, -⟩ := hanswer
  have hstreak : ∀ t ∈ w₁.rows, t.id = task.id → t.status.isOpen = true → task.failStreak + 1 ≤ w₁.fails task.id := by
    intro t ht hid hopen
    rcases hw₁.2.2 with hfails | hstopped
    · exact hfails
    · cases (hstopped.closed t ht hid).symm.trans hopen
  have hrecorded := hw₁.edit (hw₁.1.setFailStreak (.inl rfl) hstreak) (fun _ => rfl) fun _ => rfl
  have hhistory : ∀ w history, Failing task rest w →
      Failing task rest (w.edit task.id fun t => { t with history := history }) :=
    fun w history hw => hw.edit (hw.1.setHistory _ _) (fun _ => rfl) fun _ => rfl
  refine (appendHistory_safe failing_assertion hhistory hrecorded).then fun _ w₃ hw₃ => ?_
  split
  case isTrue hstall =>
    refine .ask failing_assertion hw₃ fun w₄ _ w₅ hw₄ hanswer => ?_
    obtain ⟨rfl, huntouched⟩ := hanswer
    obtain ⟨hw₄, hlisted, hfails⟩ := hw₄
    -- nobody has written the status since the tick has listed the task, so the tick has not stopped it
    have hfails : task.failStreak + 1 ≤ w₄.fails task.id :=
      hfails.resolve_right fun hstopped => huntouched hstopped.touched
    have hstalled : TickOk none rest (w₄.tickWrites task.id .stalled) :=
      hw₄.tickWrites hlisted huntouched rfl (fun h => by cases h) fun _ => hstall.trans hfails
    refine (postNotice_safe tickOk_assertion hstalled).bind (fun _ w₆ hw₆ => ?_) fun e w₆ hw₆ => ?_
    · exact .value tickOk_assertion hw₆.1 fun w₇ hw₇ => hw₇
    · exact .error tickOk_assertion hw₆.1 fun w₇ hw₇ => hw₇
  case isFalse _ =>
    exact .value failing_assertion hw₃ fun w₄ hw₄ => hw₄.1

/-- The failure of a task is recorded. -/
theorem recording_safe (h : ∀ w₁, S w₁ → Failing task rest (w₁.failed task.id)) (hS : Assertion S) (hw : S w) :
    TickSafe (do
      TaskM.ask (.logFailed task.id)
      recordFailure cfg clock task
      return TaskEnd.failed) w fun _ w₁ => TickOk none rest w₁ := by
  refine .ask hS hw fun w₁ _ w₂ hw₁ hanswer => ?_
  obtain ⟨rfl, -⟩ := hanswer
  refine (recordFailure_safe (h w₁ hw₁)).bind (fun _ w₃ hw₃ => ?_) fun e w₃ hw₃ => ?_
  · exact .value tickOk_assertion hw₃ fun w₄ hw₄ => hw₄
  · exact .error tickOk_assertion hw₃ fun w₄ hw₄ => hw₄

theorem tryTask_safe (hw : TickOk none (task :: rest) w) (hnodup : ∀ t ∈ rest, t.id ≠ task.id) :
    TickSafe (tryTask cfg clock task) w fun _ w₁ => TickOk none rest w₁ := by
  refine (runOne_safe hw hnodup).attempt fun came w₁ hcame => ?_
  cases came with
  | ok didPost =>
      exact .value tickOk_assertion hcame fun w₂ hw₂ => hw₂
  | error e =>
      have hleft : TickOk none rest w₁ := by
        rcases hcame with ⟨-, hw₁⟩ | hw₁ | ⟨hw₁, -⟩
        · exact hw₁
        · exact hw₁.tail
        · exact hw₁
      dsimp only
      split
      case isTrue _ =>
        refine .ask tickOk_assertion hleft fun w₂ _ w₃ hw₂ hanswer => ?_
        obtain ⟨rfl, -⟩ := hanswer
        exact .value tickOk_assertion hw₂ fun w₄ hw₄ => hw₄
      case isFalse he =>
        rcases hcame with ⟨hinfra, -⟩ | hbefore | hstopped
        · exact absurd hinfra he
        · exact recording_safe (fun _ hw₂ => hw₂.failed) tickOk_assertion hbefore
        · exact recording_safe (fun _ hw₂ => hw₂.2.failed hw₂.1) stopped_assertion hstopped

/-- The loop over the open tasks. -/
theorem taskLoop_safe {tasks : List AssignedTask} {checked : ℕ} {delivered : Bool} (hw : TickOk none tasks w)
    (hnodup : tasks.Pairwise fun t t' => t'.id ≠ t.id) :
    TickSafe (taskLoop cfg clock tasks checked delivered) w fun _ w₁ => TickOk none [] w₁ := by
  induction tasks generalizing checked delivered w with
  | nil =>
      exact .value tickOk_assertion hw fun w₁ hw₁ => hw₁
  | cons task rest ih =>
      rw [List.pairwise_cons] at hnodup
      refine (tryTask_safe hw hnodup.1).bind (fun ending w₁ hw₁ => ?_) fun e w₁ hw₁ => ?_
      · cases ending with
        | checked didPost =>
            exact ih hw₁ hnodup.2
        | failed =>
            exact ih hw₁ hnodup.2
        | held =>
            exact .value tickOk_assertion hw₁.nil fun w₂ hw₂ => hw₂
      · exact .error tickOk_assertion hw₁.nil fun w₂ hw₂ => hw₂

/-- The tasks that are listed. -/
theorem TickOk.list (h : TickOk none [] w) : TickOk none (w.rows.filter fun t => t.status.isOpen) { w with
    listed := (w.rows.filter fun t => t.status.isOpen).map fun t => t.id, touched := [], settled := [] } := by
  have hlisted : ∀ t ∈ w.rows, t.id ∈ (w.rows.filter fun t => t.status.isOpen).map (fun t => t.id) →
      t.status.isOpen = true := by
    intro t ht hmem
    obtain ⟨t', ht', hid⟩ := List.mem_map.1 hmem
    obtain ⟨ht', hopen⟩ := List.mem_filter.1 ht'
    have heq := List.inj_on_of_nodup_map h.ids ht' ht hid
    exact heq ▸ hopen
  refine ⟨⟨⟨h.lawful, h.ids, fun n hn => ?_, fun t ht hmem _ => hlisted t ht hmem⟩, fun c hc => ?_⟩, h.owed, fun t ht => ?_⟩
  · obtain ⟨t, ht, hid⟩ := List.mem_map.1 hn
    exact ⟨t, List.mem_of_mem_filter ht, hid⟩
  · exact (h.cancels c hc).mono fun _ _ _ hlive => hlive
  · obtain ⟨hrow, hopen⟩ := List.mem_filter.1 ht
    exact ⟨List.mem_map_of_mem ht, by simp, h.owed t hrow (by simp) hopen⟩

/-- A tick. -/
theorem runTasks_safe (hw : TickOk none [] w) : TickSafe (runTasks cfg clock) w fun _ w₁ => TickOk none [] w₁ := by
  refine .ask tickOk_assertion hw fun w₁ openTasks w₂ hw₁ hanswer => ?_
  obtain ⟨⟨rfl, rfl⟩, -⟩ := hanswer
  have hnodup : (w₁.rows.filter fun t => t.status.isOpen).Pairwise fun t t' => t'.id ≠ t.id := by
    have hids : w₁.rows.Pairwise fun t t' => t.id ≠ t'.id := List.pairwise_map.1 hw₁.ids
    exact (hids.filter _).imp fun h => Ne.symm h
  split
  · exact .value tickOk_assertion hw₁.list fun w₃ hw₃ => hw₃.nil
  · split
    · exact .value tickOk_assertion hw₁.list fun w₃ hw₃ => hw₃.nil
    · refine (taskLoop_safe hw₁.list hnodup).bind (fun r w₃ hw₃ => ?_) fun e w₃ hw₃ => ?_
      · exact .value tickOk_assertion hw₃ fun w₄ hw₄ => hw₄
      · exact .error tickOk_assertion hw₃ fun w₄ hw₄ => hw₄

end Tick

theorem BetweenTicks.tickOk {w : TaskWorld} (h : BetweenTicks serialRegime w) : TickOk none [] w := by
  induction h with
  | start =>
      exact ⟨⟨⟨by simp [TaskWorld.empty], by simp [TaskWorld.empty], by simp [TaskWorld.empty], by simp [TaskWorld.empty]⟩,
        by simp [TaskWorld.empty]⟩, by simp [TaskWorld.empty], by simp⟩
  | beside _ hstep ih =>
      exact tickOk_stable _ _ hstep ih
  | tick _ cfg clock htick ih =>
      exact ((runTasks_safe ih).among htick).result

/-- Over all ticks and whatever happens beside them: no status is written over one that is not open, and a task stalls
only after as many failed checks in a row as the code asks for, when every status is written over the one that its
writer has read, and reminders raise only failures of the infrastructure. -/
theorem tasks_settle {w : TaskWorld} (h : TasksReach serialRegime w) : ∀ ch ∈ w.changes, ch.Lawful := by
  obtain ⟨w₀, cfg, clock, left, hbetween, hamong⟩ := h
  exact ((runTasks_safe hbetween.tickOk).among hamong).inv.lawful

/-- The agent of the task, in whose library every text is the number one. -/
def sampleLifeConfig : TaskConfig :=
  ⟨{ samplePython with parseInt := fun _ => some 1 }, "team/app", "C1", false⟩

/-- A clock by which no task is past its deadline. -/
def sampleLifeClock : TaskClock :=
  ⟨"2026-07-10T09:00:00+00:00", "2026-07-10", "2026-07-10T09:00:01+00:00", fun _ _ => false⟩

/-- One task is assigned. -/
def sampleAssigned : TaskWorld :=
  { TaskWorld.empty with rows := [⟨1, "watch", [("number", .int 45)], .opened, "2026-07-08", 0, []⟩] }

/-- Every check finds the pull request merged, and every post succeeds; a strict handler writes no status over one that
was written since. -/
def sampleLifeHandle (strict : Bool) : (c : TaskCall) → TaskWorld → Option (c.Resp × TaskWorld)
  | .listOpen, w =>
      let listed := w.rows.filter fun t => t.status.isOpen
      some (listed, { w with listed := listed.map fun t => t.id, touched := [], settled := [] })
  | .get id, w => some (w.rows.find? (fun t => t.id == id), w)
  | .setStatus id status, w => if strict = true ∧ id ∈ w.touched then none else some ((), w.tickWrites id status)
  | .setFailStreak id streak, w => some ((), w.edit id fun t => { t with failStreak := streak })
  | .setHistory id history, w => some ((), w.edit id fun t => { t with history := history })
  | .checkPrWatch task _, w => some (.ok ⟨true, "PR #45", false⟩, w.checked task.id (.ok () : Except AnswerError Unit))
  | .runReportTask task, w => some (.ok ("", none), w.checked task.id (.ok () : Except AnswerError Unit))
  | .runQaTask task, w => some (.ok ("", none), w.checked task.id (.ok () : Except AnswerError Unit))
  | .post _ _, w => some (.ok .executed, w)
  | .logHeld _, w => some ((), w)
  | .logFailed id, w => some ((), w.failed id)

theorem sampleLifeHandle_answers {strict : Bool} (c : TaskCall) (w : TaskWorld) (r : c.Resp) (w' : TaskWorld)
    (h : sampleLifeHandle strict c w = some (r, w')) :
    TickAnswers c w r w' ∧ (strict = true → serialRegime.tick w c r) := by
  cases c with
  | setStatus id status =>
      simp only [sampleLifeHandle] at h
      split at h
      · cases h
      · rename_i hnot
        cases h
        exact ⟨rfl, fun hstrict htouched => hnot ⟨hstrict, htouched⟩⟩
  | listOpen =>
      cases h
      exact ⟨⟨rfl, rfl⟩, fun _ => trivial⟩
  | get id =>
      cases h
      exact ⟨⟨rfl, rfl⟩, fun _ => trivial⟩
  | post notice action =>
      cases h
      exact ⟨rfl, fun _ => by cases notice <;> trivial⟩
  | _ =>
      cases h
      exact ⟨rfl, fun _ => trivial⟩

/-- The task is assigned in every regime. -/
theorem sampleAssigned_between (regime : TaskRegime) : BetweenTicks regime sampleAssigned :=
  .beside .start (.create 1 "watch" _ _ (by simp [TaskWorld.empty]) (by decide))

/-- The tick over the task. -/
def sampleLifeTick : Prog TaskCall TaskCall.Resp (Except AnswerError TaskTick) :=
  (runTasks sampleLifeConfig sampleLifeClock).run

/-- A tick finds the task done. -/
theorem tasks_settle_sample : ∃ w, TasksReach serialRegime w ∧ w.changes = [⟨1, .opened, .done, 0⟩] ∧
    ∀ ch ∈ w.changes, ch.Lawful := by
  have hchanges : (sampleLifeTick.steps (sampleLifeHandle true) 8 sampleAssigned).map (fun s => s.2.changes) =
      some [⟨1, .opened, .done, 0⟩] := by
    decide +kernel
  obtain ⟨⟨left, w⟩, hsteps, hw⟩ := Option.map_eq_some_iff.1 hchanges
  have hanswers : ∀ c w r w', sampleLifeHandle true c w = some (r, w') → Answered serialRegime c w r w' :=
    fun c w r w' h => ⟨(sampleLifeHandle_answers c w r w' h).1, (sampleLifeHandle_answers c w r w' h).2 rfl⟩
  have hreach : TasksReach serialRegime w :=
    ⟨_, sampleLifeConfig, sampleLifeClock, left, sampleAssigned_between _, .of_steps hanswers hsteps⟩
  exact ⟨w, hreach, hw, tasks_settle hreach⟩

/-- The task is listed by a tick, then cancelled, then found done: the tick writes over the cancelling. -/
theorem cancel_overwritten : ¬ ∀ w, TasksReach anyRegime w → ∀ ch ∈ w.changes, ch.Lawful := by
  intro hlawful
  have hanswers : ∀ c w r w', sampleLifeHandle false c w = some (r, w') → Answered anyRegime c w r w' :=
    fun c w r w' h => ⟨(sampleLifeHandle_answers c w r w' h).1, trivial⟩
  have hlisted : Prog.Among (Beside anyRegime) (Answered anyRegime) sampleLifeTick sampleAssigned _ _ :=
    Prog.Among.refl.call (hanswers .listOpen _ _ _ rfl)
  have hread := (hlisted.others (.cancelStart sampleLifeConfig.py "dev" "1")).others (.cancelGet [] _ [] rfl rfl)
  have hcancelled := hread.others (.cancelWrite [] _ [] rfl rfl trivial)
  have hchanges : ∀ {left w}, Prog.Among (Beside anyRegime) (Answered anyRegime) sampleLifeTick sampleAssigned left w →
      (left.steps (sampleLifeHandle false) 3 w).map (fun s => s.2.changes) =
        some [⟨1, .opened, .cancelled, 0⟩, ⟨1, .cancelled, .done, 0⟩] → False := by
    intro left w hamong hchanges
    obtain ⟨⟨left', w'⟩, hsteps, hw⟩ := Option.map_eq_some_iff.1 hchanges
    have hdone := hlawful w' ⟨_, sampleLifeConfig, sampleLifeClock, left', sampleAssigned_between _,
      hamong.trans (.of_steps hanswers hsteps)⟩ ⟨1, .cancelled, .done, 0⟩ (by rw [hw]; simp)
    cases hdone.1 rfl
  exact hchanges hcancelled (by decide +kernel)

end ProjectManager
