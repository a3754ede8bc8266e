import ProjectManager.Lib.Grouping
import ProjectManager.Store.Schema

/-!
# Workrooms

Two reads of the task table that must agree: `list_workrooms` groups the tasks in Python under the key
`room_id or id`, and `tasks_in_room` selects the tasks of one room by a disjunction in SQL.  They read the same tasks
in every room except the room of the empty id (`inRoom_iff_workroomKey`), so they agree on a table in which no task
has the empty id (`workrooms_partition`).  A task with the empty id and no room breaks it: `tasks_in_room` then answers
with every task that has no room of its own (`workrooms_overlap_empty_id`).
-/

namespace ProjectManager

/-! ### The two reads -/

/-- The rollup status of a room. -/
inductive WorkroomStatus where
  | ket | dangChay | xong
deriving DecidableEq, Repr

/-- The text of a rollup status. -/
def WorkroomStatus.text : WorkroomStatus → String
  | ket => "ket"
  | dangChay => "dang-chay"
  | xong => "xong"

/-- A room while the rows are read. -/
structure RoomAcc where
  roomId : String
  title : String
  taskCount : ℕ
  statuses : List TaskStatus
  updatedAt : Time

/-- A row of `list_workrooms`. -/
structure Workroom where
  roomId : String
  title : String
  taskCount : ℕ
  updatedAt : Time
  status : WorkroomStatus
deriving DecidableEq, Repr

/-- `status NOT IN ('planning', 'cancelled')`. -/
def TaskRow.inWorkroom (row : TaskRow) : Bool :=
  !(decide (row.status = .planning) || decide (row.status = .cancelled))

/-- `room_id or task_id`. -/
def TaskRow.workroomKey (row : TaskRow) : String :=
  if row.roomId = "" then row.id else row.roomId

/-- `room_id = ? OR (COALESCE(room_id, '') = '' AND id = ?)`. -/
def TaskRow.inRoom (row : TaskRow) (roomId : String) : Bool :=
  decide (row.roomId = roomId) || decide (row.roomId = "") && decide (row.id = roomId)

namespace RoomAcc

/-- The default of `setdefault`. -/
def fresh (row : TaskRow) : RoomAcc where
  roomId := row.workroomKey
  title := row.title
  taskCount := 0
  statuses := []
  updatedAt := row.createdAt

/-- Counts a row in. -/
def add (room : RoomAcc) (row : TaskRow) : RoomAcc :=
  { room with
    taskCount := room.taskCount + 1
    statuses := room.statuses ++ [row.status]
    updatedAt := max room.updatedAt row.createdAt }

/-- The rollup of the statuses. -/
def rollup (room : RoomAcc) : WorkroomStatus :=
  if room.statuses.any fun s => decide (s = .stalled) then
    .ket
  else if room.statuses.any fun s => decide (s ≠ .done) then
    .dangChay
  else
    .xong

/-- The room that is listed. -/
def toWorkroom (room : RoomAcc) : Workroom where
  roomId := room.roomId
  title := room.title
  taskCount := room.taskCount
  updatedAt := room.updatedAt
  status := room.rollup

end RoomAcc

namespace Db

/-- The rows that a query with `ORDER BY created_at` returns. -/
def selectTasks (db : Db) (p : TaskRow → Bool) : List TaskRow :=
  (db.tasks.rows.filter p).insertionSort fun a b => a.createdAt ≤ b.createdAt

/-- The rooms before they are sorted. -/
def workroomGroups (db : Db) : OrderedMap String RoomAcc :=
  groupRows TaskRow.workroomKey RoomAcc.fresh RoomAcc.add (db.selectTasks TaskRow.inWorkroom)

/-- `list_workrooms`, newest first. -/
def listWorkrooms (db : Db) : List Workroom :=
  (db.workroomGroups.entries.map fun x => x.2.toWorkroom).insertionSort fun a b => b.updatedAt ≤ a.updatedAt

/-- `tasks_in_room`. -/
def tasksInRoom (db : Db) (roomId : String) : List TeamTask :=
  (db.selectTasks fun row => row.inWorkroom && row.inRoom roomId).filterMap fun row => db.get row.id

end Db

/-! ### The SQL condition -/

/-- The disjunction selects the rows of a key, except that the empty room takes in every row without a room. -/
theorem inRoom_iff_workroomKey (row : TaskRow) (roomId : String) :
    row.inRoom roomId = true ↔ row.workroomKey = roomId ∨ row.roomId = "" ∧ roomId = "" := by
  unfold TaskRow.inRoom TaskRow.workroomKey
  rw [Bool.or_eq_true, Bool.and_eq_true, decide_eq_true_eq, decide_eq_true_eq, decide_eq_true_eq]
  by_cases hroom : row.roomId = ""
  · rw [if_pos hroom]
    constructor
    · rintro (h | ⟨-, h⟩)
      · exact .inr ⟨hroom, h.symm.trans hroom⟩
      · exact .inl h
    · rintro (h | ⟨-, h⟩)
      · exact .inr ⟨hroom, h⟩
      · exact .inl (hroom.trans h.symm)
  · rw [if_neg hroom]
    constructor
    · rintro (h | ⟨h, -⟩)
      · exact .inl h
      · exact absurd h hroom
    · rintro (h | ⟨h, -⟩)
      · exact .inl h
      · exact absurd h hroom

/-! ### What a room has counted -/

/-- A room agrees with the rows that have been added to it. -/
structure RoomAcc.Counts (rows : List TaskRow) (room : RoomAcc) : Prop where
  taskCount : room.taskCount = rows.length
  statuses : room.statuses = rows.map fun row => row.status

theorem RoomAcc.counts_fresh (row : TaskRow) : (RoomAcc.fresh row).Counts [] :=
  ⟨rfl, rfl⟩

theorem RoomAcc.Counts.add {rows : List TaskRow} {room : RoomAcc} (h : room.Counts rows) (row : TaskRow) :
    (room.add row).Counts (rows ++ [row]) := by
  constructor
  · rw [List.length_append, ← h.taskCount]
    rfl
  · rw [List.map_append, ← h.statuses]
    rfl

theorem RoomAcc.rollup_eq_ket {room : RoomAcc} : room.rollup = .ket ↔ .stalled ∈ room.statuses := by
  unfold rollup
  split
  case isTrue h =>
    simpa using h
  case isFalse h =>
    have hno : TaskStatus.stalled ∉ room.statuses := by simpa using h
    refine iff_of_false ?_ hno
    split <;> simp

theorem RoomAcc.rollup_eq_xong {room : RoomAcc} : room.rollup = .xong ↔ ∀ s ∈ room.statuses, s = .done := by
  unfold rollup
  split
  case isTrue h =>
    have hstalled : TaskStatus.stalled ∈ room.statuses := by simpa using h
    exact iff_of_false (by simp) fun hall => TaskStatus.noConfusion (hall _ hstalled)
  case isFalse =>
    split
    case isTrue h =>
      obtain ⟨s, hs, hne⟩ := List.any_eq_true.1 h
      exact iff_of_false (by simp) fun hall => of_decide_eq_true hne (hall s hs)
    case isFalse h =>
      refine iff_of_true rfl fun s hs => ?_
      by_contra hne
      exact h (List.any_eq_true.2 ⟨s, hs, decide_eq_true hne⟩)

/-! ### Reads -/

namespace Db

theorem mem_selectTasks {db : Db} {p : TaskRow → Bool} {row : TaskRow} :
    row ∈ db.selectTasks p ↔ row ∈ db.tasks.rows ∧ p row = true := by
  rw [selectTasks, List.mem_insertionSort, List.mem_filter]

/-- Selecting and then filtering reads as many rows as one selection. -/
theorem length_filter_selectTasks (db : Db) (p q : TaskRow → Bool) :
    ((db.selectTasks p).filter q).length = (db.selectTasks fun row => p row && q row).length := by
  have hrows : (db.tasks.rows.filter p).filter q = db.tasks.rows.filter fun row => p row && q row := by
    rw [List.filter_filter]
    exact List.filter_congr fun row _ => Bool.and_comm _ _
  have hperm : ((db.selectTasks p).filter q).Perm (db.tasks.rows.filter fun row => p row && q row) := by
    rw [← hrows]
    exact (List.perm_insertionSort _ _).filter q
  exact (hperm.trans (List.perm_insertionSort _ _).symm).length_eq

theorem get_of_mem {db : Db} {row : TaskRow} (h : row ∈ db.tasks.rows) :
    db.get row.id = some ⟨row, db.stepsForTask row.id⟩ :=
  get_eq_some.2 ⟨h, rfl, rfl⟩

/-- Every selected row is handed out as a task. -/
theorem map_tasksInRoom (db : Db) (roomId : String) :
    (db.tasksInRoom roomId).map TeamTask.toTaskRow = db.selectTasks fun row => row.inWorkroom && row.inRoom roomId := by
  have hrows : ∀ rows : List TaskRow, (∀ row ∈ rows, row ∈ db.tasks.rows) →
      (rows.filterMap fun row => db.get row.id).map TeamTask.toTaskRow = rows := by
    intro rows
    induction rows with
    | nil =>
        intro _
        rfl
    | cons row rows ih =>
        intro hmem
        obtain ⟨hrow, hrest⟩ := List.forall_mem_cons.1 hmem
        rw [List.filterMap_cons, get_of_mem hrow]
        exact congrArg (row :: ·) (ih hrest)
  exact hrows _ fun row hrow => (mem_selectTasks.1 hrow).1

theorem mem_tasksInRoom {db : Db} {roomId : String} {task : TeamTask} :
    task ∈ db.tasksInRoom roomId ↔
      db.get task.id = some task ∧ task.inWorkroom = true ∧ task.inRoom roomId = true := by
  simp only [tasksInRoom, List.mem_filterMap, mem_selectTasks, Bool.and_eq_true]
  constructor
  · rintro ⟨row, ⟨hmem, hcond⟩, hget⟩
    obtain ⟨hrow, hid, -⟩ := get_eq_some.1 hget
    obtain rfl : task.toTaskRow = row := Table.eq_of_key db.tasks.nodup hrow hmem hid
    exact ⟨hget, hcond⟩
  · rintro ⟨hget, hcond⟩
    exact ⟨task.toTaskRow, ⟨(get_eq_some.1 hget).1, hcond⟩, hget⟩

/-- The rooms of the list are the groups. -/
theorem mem_listWorkrooms {db : Db} {room : Workroom} :
    room ∈ db.listWorkrooms ↔ ∃ k acc, db.workroomGroups.get? k = some acc ∧ acc.toWorkroom = room := by
  simp only [listWorkrooms, List.mem_insertionSort, List.mem_map, Prod.exists, OrderedMap.mem_entries]

/-- What is kept under a key: the room of that key, which has counted the tasks of that key. -/
theorem get?_workroomGroups {db : Db} {k : String} {acc : RoomAcc} (h : db.workroomGroups.get? k = some acc) :
    acc.roomId = k ∧
      acc.Counts ((db.selectTasks TaskRow.inWorkroom).filter fun row => decide (row.workroomKey = k)) := by
  rw [workroomGroups, get?_groupRows] at h
  refine gathered_induction (p := fun row : TaskRow => row.workroomKey = k)
    (motive := fun rows acc => acc.roomId = k ∧ acc.Counts rows) ?_ ?_ ?_ h
  · intro row hrow
    exact ⟨hrow, RoomAcc.counts_fresh row⟩
  · rintro rows acc row ⟨hroom, hcounts⟩
    exact ⟨hroom, hcounts.add row⟩
  · intro row hrow
    exact of_decide_eq_true (List.mem_filter.1 hrow).2

/-- The rooms of the list are the keys of the tasks. -/
theorem exists_listWorkrooms {db : Db} {row : TaskRow} (hrow : row ∈ db.tasks.rows) (hstatus : row.inWorkroom = true) :
    ∃ room ∈ db.listWorkrooms, room.roomId = row.workroomKey := by
  have hkey : row.workroomKey ∈ db.workroomGroups.keys :=
    mem_keys_groupRows.2 ⟨row, mem_selectTasks.2 ⟨hrow, hstatus⟩, rfl⟩
  obtain ⟨acc, hacc⟩ := Option.isSome_iff_exists.1 (OrderedMap.get?_isSome.2 hkey)
  exact ⟨acc.toWorkroom, mem_listWorkrooms.2 ⟨_, acc, hacc, rfl⟩, (get?_workroomGroups hacc).1⟩

/-- Two rooms of the list with one id are one room. -/
theorem workroom_unique {db : Db} {room room' : Workroom} (h : room ∈ db.listWorkrooms) (h' : room' ∈ db.listWorkrooms)
    (hid : room.roomId = room'.roomId) : room = room' := by
  obtain ⟨k, acc, hacc, rfl⟩ := mem_listWorkrooms.1 h
  obtain ⟨k', acc', hacc', rfl⟩ := mem_listWorkrooms.1 h'
  have hk : k = k' := (get?_workroomGroups hacc).1.symm.trans (hid.trans (get?_workroomGroups hacc').1)
  subst hk
  rw [Option.some.inj (hacc.symm.trans hacc')]

theorem nodup_listWorkrooms (db : Db) : (db.listWorkrooms.map Workroom.roomId).Nodup := by
  have hsorted := List.perm_insertionSort (fun a b : Workroom => b.updatedAt ≤ a.updatedAt)
    (db.workroomGroups.entries.map fun x => x.2.toWorkroom)
  have hkeys : (db.workroomGroups.entries.map fun x => x.2.toWorkroom).map Workroom.roomId = db.workroomGroups.keys := by
    rw [List.map_map]
    refine List.map_congr_left fun x hx => ?_
    exact (get?_workroomGroups (OrderedMap.mem_entries.1 hx)).1
  rw [listWorkrooms, (hsorted.map Workroom.roomId).nodup_iff, hkeys]
  exact db.workroomGroups.nodup_keys

end Db

/-! ### The rooms partition the tasks -/

section Partition

variable {db : Db} (hids : ∀ row ∈ db.tasks.rows, row.id ≠ "")

include hids

theorem workroomKey_ne_empty {row : TaskRow} (hrow : row ∈ db.tasks.rows) : row.workroomKey ≠ "" := by
  unfold TaskRow.workroomKey
  split
  case isTrue => exact hids row hrow
  case isFalse h => exact h

/-- Without the empty id, the query of a room selects the tasks of its key. -/
theorem inRoom_iff_key (row : TaskRow) {k : String} {acc : RoomAcc} (hacc : db.workroomGroups.get? k = some acc) :
    row.inRoom k = true ↔ row.workroomKey = k := by
  have hkey : k ∈ db.workroomGroups.keys := by
    apply OrderedMap.get?_isSome.1
    rw [hacc]
    rfl
  obtain ⟨first, hfirst, rfl⟩ := mem_keys_groupRows.1 hkey
  have hne := workroomKey_ne_empty hids (Db.mem_selectTasks.1 hfirst).1
  rw [inRoom_iff_workroomKey]
  exact or_iff_left fun h => hne h.2

theorem mem_tasksInRoom_iff_key {k : String} {acc : RoomAcc} (hacc : db.workroomGroups.get? k = some acc)
    {task : TeamTask} :
    task ∈ db.tasksInRoom k ↔ db.get task.id = some task ∧ task.inWorkroom = true ∧ task.workroomKey = k := by
  rw [Db.mem_tasksInRoom]
  exact and_congr_right fun _ => and_congr_right fun _ => inRoom_iff_key hids task.toTaskRow hacc

/-- The query of a room returns as many tasks as the room has counted. -/
theorem length_tasksInRoom {k : String} {acc : RoomAcc} (hacc : db.workroomGroups.get? k = some acc) :
    (db.tasksInRoom k).length = acc.taskCount := by
  have hsame : db.selectTasks (fun row => row.inWorkroom && row.inRoom k) =
      db.selectTasks fun row => row.inWorkroom && decide (row.workroomKey = k) := by
    unfold Db.selectTasks
    congr 1
    refine List.filter_congr fun row _ => ?_
    congr 1
    rw [Bool.eq_iff_iff, decide_eq_true_eq]
    exact inRoom_iff_key hids row hacc
  calc (db.tasksInRoom k).length = ((db.tasksInRoom k).map TeamTask.toTaskRow).length := (List.length_map _).symm
    _ = (db.selectTasks fun row => row.inWorkroom && decide (row.workroomKey = k)).length := by
        rw [Db.map_tasksInRoom, hsame]
    _ = ((db.selectTasks TaskRow.inWorkroom).filter fun row => decide (row.workroomKey = k)).length :=
        (Db.length_filter_selectTasks db _ _).symm
    _ = acc.taskCount := (Db.get?_workroomGroups hacc).2.taskCount.symm

/-- The statuses a room has seen are those of its tasks. -/
theorem mem_statuses {k : String} {acc : RoomAcc} (hacc : db.workroomGroups.get? k = some acc) {s : TaskStatus} :
    s ∈ acc.statuses ↔ ∃ task ∈ db.tasksInRoom k, task.status = s := by
  rw [(Db.get?_workroomGroups hacc).2.statuses, List.mem_map]
  simp only [List.mem_filter, Db.mem_selectTasks, decide_eq_true_eq]
  constructor
  · rintro ⟨row, ⟨⟨hrow, hstatus⟩, hkey⟩, rfl⟩
    exact ⟨⟨row, db.stepsForTask row.id⟩, (mem_tasksInRoom_iff_key hids hacc).2 ⟨Db.get_of_mem hrow, hstatus, hkey⟩, rfl⟩
  · rintro ⟨task, htask, rfl⟩
    obtain ⟨hget, hstatus, hkey⟩ := (mem_tasksInRoom_iff_key hids hacc).1 htask
    exact ⟨task.toTaskRow, ⟨⟨(Db.get_eq_some.1 hget).1, hstatus⟩, hkey⟩, rfl⟩

end Partition

/-- On a table without the empty id the rooms partition the tasks that are neither drafts nor cancelled, the query of a
room returns the tasks of the room, as many as are counted, and the rollup is that of their statuses. -/
theorem workrooms_partition (db : Db) (hids : ∀ row ∈ db.tasks.rows, row.id ≠ "") :
    (∀ row ∈ db.tasks.rows, row.status ≠ .planning → row.status ≠ .cancelled →
      ∃! room, room ∈ db.listWorkrooms ∧ room.roomId = row.workroomKey) ∧
    (db.listWorkrooms.map Workroom.roomId).Nodup ∧
    ∀ room ∈ db.listWorkrooms,
      (db.tasksInRoom room.roomId).length = room.taskCount ∧
      (∀ task, task ∈ db.tasksInRoom room.roomId ↔ db.get task.id = some task ∧
        (task.status ≠ .planning ∧ task.status ≠ .cancelled) ∧ task.workroomKey = room.roomId) ∧
      (room.status = .ket ↔ ∃ task ∈ db.tasksInRoom room.roomId, task.status = .stalled) ∧
      (room.status = .xong ↔ ∀ task ∈ db.tasksInRoom room.roomId, task.status = .done) := by
  have hvisible : ∀ row : TaskRow, row.inWorkroom = true ↔ row.status ≠ .planning ∧ row.status ≠ .cancelled := by
    intro row
    simp [TaskRow.inWorkroom]
  refine ⟨?_, db.nodup_listWorkrooms, ?_⟩
  · intro row hrow hplanning hcancelled
    obtain ⟨room, hroom, hkey⟩ := Db.exists_listWorkrooms hrow ((hvisible row).2 ⟨hplanning, hcancelled⟩)
    refine ⟨room, ⟨hroom, hkey⟩, ?_⟩
    rintro other ⟨hother, hkey'⟩
    exact Db.workroom_unique hother hroom (hkey'.trans hkey.symm)
  · intro room hroom
    obtain ⟨k, acc, hacc, rfl⟩ := Db.mem_listWorkrooms.1 hroom
    obtain rfl : acc.roomId = k := (Db.get?_workroomGroups hacc).1
    refine ⟨length_tasksInRoom hids hacc, ?_, ?_, ?_⟩
    · intro task
      rw [← hvisible]
      exact mem_tasksInRoom_iff_key hids hacc
    · exact RoomAcc.rollup_eq_ket.trans (mem_statuses hids hacc)
    · refine RoomAcc.rollup_eq_xong.trans ⟨?_, ?_⟩
      · intro hall task htask
        exact hall _ ((mem_statuses hids hacc).2 ⟨task, htask, rfl⟩)
      · intro hall s hs
        obtain ⟨task, htask, rfl⟩ := (mem_statuses hids hacc).1 hs
        exact hall task htask

/-- A row of a task without a plan. -/
def bareTask (id : String) (status : TaskStatus) (roomId : String) (createdAt : Time) : TaskRow where
  id := id
  title := id
  originalRequest := ""
  status := status
  createdAt := createdAt
  assignedBy := ""
  costUsdTotal := 0
  planHash := none
  decomposeCostUsd := 0
  aggregateCostUsd := 0
  picId := ""
  roomId := roomId

/-- A task in its own room, one that has joined it, and one that stands alone. -/
def threeTasks : Db :=
  { Db.empty with
    tasks :=
      { rows := [bareTask "a" .stalled "" 1, bareTask "b" .done "a" 2, bareTask "c" .done "" 3]
        nodup := by decide } }

theorem workrooms_partition_three : threeTasks.listWorkrooms.map Workroom.roomId = ["c", "a"] ∧
    (threeTasks.listWorkrooms.map Workroom.roomId).Nodup :=
  ⟨by decide +kernel, (workrooms_partition threeTasks (by decide)).2.1⟩

/-- Two tasks without a room, one of them under the empty id. -/
def emptyIdTasks : Db :=
  { Db.empty with
    tasks :=
      { rows := [bareTask "" .opened "" 1, bareTask "b" .opened "" 2]
        nodup := by decide } }

/-- The room of the empty id counts one task, its query returns the other one as well. -/
theorem workrooms_overlap_empty_id :
    ¬ ∀ db : Db, ∀ room ∈ db.listWorkrooms, (db.tasksInRoom room.roomId).length = room.taskCount := by
  intro h
  have hroom : ({ roomId := "", title := "", taskCount := 1, updatedAt := 1, status := .dangChay } : Workroom) ∈
      emptyIdTasks.listWorkrooms := by
    decide +kernel
  have hlength : (emptyIdTasks.tasksInRoom "").length = 2 := by
    decide +kernel
  exact absurd (hlength.symm.trans (h emptyIdTasks _ hroom)) (by decide)

end ProjectManager
