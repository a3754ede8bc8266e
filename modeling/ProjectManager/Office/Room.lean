import ProjectManager.Actions.Value
import ProjectManager.Lib.Table

/-!
# The room store of the office

The table `messages` that the timeline of the office lives in: rows are only ever appended, under an
auto-increment number that orders them.  `RoomTable.list` reads a room after a cursor, and
`RoomTable.insert_eq` says that an insertion appends one row under the next number.
-/

namespace ProjectManager

open Table

/-- `OfficeMessage`. -/
structure OfficeMessage where
  seq : ℕ
  roomId : String
  ts : String
  author : String
  kind : String
  body : List (String × Val)

/-- `OFFICE_ROOM_ID`. -/
def officeRoomId : String :=
  "office"

/-- `VALID_KINDS`. -/
def validKinds : List String :=
  ["ceo", "assignment", "step_status", "handoff", "milestone", "consult", "review"]

/-- The table `messages`. -/
abbrev RoomTable :=
  Auto OfficeMessage ℕ (fun m => m.seq) (fun m => m.seq)

/-- A row before it has its number. -/
structure OfficeDraft where
  roomId : String
  ts : String
  author : String
  kind : String
  body : List (String × Val)

/-- The row under its number. -/
def OfficeDraft.message (draft : OfficeDraft) (seq : ℕ) : OfficeMessage where
  seq := seq
  roomId := draft.roomId
  ts := draft.ts
  author := draft.author
  kind := draft.kind
  body := draft.body

/-- `append`, up to its insertions: the rows that it inserts, one commit after the other.  An unknown kind is
an error. -/
def appendDrafts (summarize : String → List (String × Val) → List (String × Val)) (ts : String)
    (event : OfficeDraft) (alsoOffice : Bool) : Option (List OfficeDraft) :=
  if event.kind ∉ validKinds then
    none
  else
    let projected := { event with ts := ts, body := summarize event.kind event.body }
    some (projected :: if alsoOffice ∧ event.roomId ≠ officeRoomId then [{ projected with roomId := officeRoomId }] else [])

namespace RoomTable

/-- `_insert`. -/
def insert (t : RoomTable) (draft : OfficeDraft) : RoomTable :=
  (t.insert? draft.message fun _ => rfl).getD t

/-- `list`. -/
def list (t : RoomTable) (roomId : String) (sinceSeq : ℤ) : List OfficeMessage :=
  t.rows.filter fun m => decide (m.roomId = roomId) && decide (sinceSeq < m.seq)

variable {t : RoomTable} {draft : OfficeDraft} {roomId : String} {sinceSeq : ℤ} {m : OfficeMessage}

/-- A number that is new is never refused. -/
theorem insert_eq (t : RoomTable) (draft : OfficeDraft) :
    (t.insert draft).rows = t.rows ++ [draft.message (t.last + 1)] ∧ (t.insert draft).last = t.last + 1 := by
  unfold insert
  cases h : t.insert? draft.message fun _ => rfl with
  | some t' =>
      exact (Auto.insert?_eq_some h).2
  | none =>
      obtain ⟨m, hm, hseq⟩ := List.mem_map.1 (Auto.insert?_eq_none.1 h)
      have hle := t.le_last m hm
      have hnew : m.seq = t.last + 1 := hseq
      omega

theorem mem_insert : m ∈ (t.insert draft).rows ↔ m ∈ t.rows ∨ m = draft.message (t.last + 1) := by
  rw [(insert_eq t draft).1, List.mem_append, List.mem_singleton]

theorem mem_list : m ∈ t.list roomId sinceSeq ↔ m ∈ t.rows ∧ m.roomId = roomId ∧ sinceSeq < m.seq := by
  simp [list]

/-- A room is read in the order of its numbers. -/
theorem list_sorted : (t.list roomId sinceSeq).Pairwise fun a b => a.seq < b.seq :=
  t.sorted.filter _

end RoomTable

end ProjectManager
