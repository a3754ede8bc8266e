import Mathlib
import ProjectManager.Actions.Mediation
import ProjectManager.Office.Room

/-!
# The room stream

The store-tail of one room for any number of clients: `_initial_cursor` and `_tail` on the server, the
browser's `EventSource` and `useOfficeStream` on the other side.  A cursor lives in the generator as long as a
connection lasts, and in the last id of the client beyond that.  `stream_exactly_once` says that whatever is
appended, polled, cut off and connected again, what a client has received is a beginning of its room after the
initial cursor, in order, each row once, and that a poll that was carried through has left nothing out.
-/

namespace ProjectManager

/-! ### The server -/

/-- What one frame carries: the number of the row as its id, and the data. -/
structure Frame where
  id : String
  seq : ℕ
  ts : String
  author : String
  kind : String
  body : List (String × Val)

/-- The frame of a row. -/
def frameOf (m : OfficeMessage) : Frame where
  id := toString m.seq
  seq := m.seq
  ts := m.ts
  author := m.author
  kind := m.kind
  body := m.body

/-- `_initial_cursor`. -/
def initialCursor (py : Python) (lastEventId sinceSeq : Option String) : ℤ :=
  match lastEventId.bind py.parseInt with
  | some n => n
  | none =>
      match sinceSeq.bind py.parseInt with
      | some n => n
      | none => 0

/-- A connection: the generator's cursor, what is left of the rows that it has read, and the frames on their
way.  `polled` is the last number of the store at the last poll. -/
structure StreamConnection where
  cursor : ℤ
  page : List OfficeMessage
  wire : List Frame
  polled : Option ℕ

/-- The poll reads the rows after the cursor. -/
def StreamConnection.poll (c : StreamConnection) (t : RoomTable) (roomId : String) : StreamConnection :=
  { c with page := t.list roomId c.cursor, polled := some t.last }

/-! ### The client -/

/-- A client: the room, the query of its address, the frames received, and the connection if there is one. -/
structure StreamClient where
  roomId : String
  sinceSeq : Option String
  received : List Frame
  connection : Option StreamConnection

namespace StreamClient

/-- The header `Last-Event-ID`, as the browser sends it. -/
def lastEventId (client : StreamClient) : Option String :=
  client.received.getLast?.map fun f => f.id

/-- A new connection. -/
def connect (py : Python) (client : StreamClient) : StreamClient :=
  { client with connection := some ⟨initialCursor py client.lastEventId client.sinceSeq, [], [], none⟩ }

/-- The cursor with which the client begins. -/
def initial (py : Python) (client : StreamClient) : ℤ :=
  initialCursor py none client.sinceSeq

end StreamClient

/-- `onmessage`: a row that the timeline has is dropped. -/
def onMessage (messages : List Frame) (f : Frame) : List Frame :=
  if f.seq ∈ messages.map fun g => g.seq then messages else messages ++ [f]

/-- The timeline that `useOfficeStream` shows. -/
def timeline (received : List Frame) : List Frame :=
  received.foldl onMessage []

/-! ### Runs -/

/-- The store and the clients. -/
structure StreamWorld (ι : Type) where
  table : RoomTable
  clients : ι → StreamClient

/-- One step of a client, with what the store holds. -/
inductive ClientStep (py : Python) (t : RoomTable) : StreamClient → StreamClient → Prop where
  /-- the browser connects, for the first time or again -/
  | connect {client : StreamClient} (h : client.connection = none) : ClientStep py t client (client.connect py)
  /-- the generator polls when it has yielded what it had read -/
  | poll {client : StreamClient} {c : StreamConnection} (h : client.connection = some c) (hdone : c.page = []) :
      ClientStep py t client { client with connection := some (c.poll t client.roomId) }
  /-- the generator yields the next row -/
  | yield {client : StreamClient} {c : StreamConnection} {m : OfficeMessage} {rest : List OfficeMessage}
      (h : client.connection = some c) (hpage : c.page = m :: rest) :
      ClientStep py t client
        { client with connection := some { c with cursor := m.seq, page := rest, wire := c.wire ++ [frameOf m] } }
  /-- a frame arrives -/
  | deliver {client : StreamClient} {c : StreamConnection} {f : Frame} {rest : List Frame}
      (h : client.connection = some c) (hwire : c.wire = f :: rest) :
      ClientStep py t client
        { client with received := client.received ++ [f], connection := some { c with wire := rest } }
  /-- the connection breaks -/
  | disconnect {client : StreamClient} : ClientStep py t client { client with connection := none }

/-- One step: some process inserts a row, or a client takes a step. -/
inductive StreamStep {ι : Type} [DecidableEq ι] (py : Python) : StreamWorld ι → StreamWorld ι → Prop where
  | insert {w : StreamWorld ι} (draft : OfficeDraft) : StreamStep py w { w with table := w.table.insert draft }
  | client {w : StreamWorld ι} (i : ι) {client : StreamClient} (h : ClientStep py w.table (w.clients i) client) :
      StreamStep py w { w with clients := Function.update w.clients i client }

/-- The runs from one world to another. -/
inductive StreamRun {ι : Type} [DecidableEq ι] (py : Python) (w : StreamWorld ι) : StreamWorld ι → Prop where
  | refl : StreamRun py w w
  | step {w' w'' : StreamWorld ι} (h : StreamRun py w w') (hstep : StreamStep py w' w'') : StreamRun py w w''

/-- The rows of a room after a cursor. -/
def roomFrames (t : RoomTable) (roomId : String) (initial : ℤ) : List Frame :=
  (t.list roomId initial).map frameOf

/-- The cursor behind the frames that were sent. -/
def cursorAfter (initial : ℤ) (sent : List Frame) : ℤ :=
  (sent.getLast?.map fun f => (f.seq : ℤ)).getD initial

/-! ### Reading after a cursor -/

section Reading

variable {t : RoomTable} {roomId : String} {initial : ℤ} {draft : OfficeDraft}

/-- A later cursor reads less. -/
theorem list_filter {c : ℤ} (h : initial ≤ c) :
    t.list roomId c = (t.list roomId initial).filter fun m => decide (c < m.seq) := by
  unfold RoomTable.list
  rw [List.filter_filter]
  refine List.filter_congr fun m _ => ?_
  by_cases hc : c < m.seq
  · have hinitial : initial < m.seq := by omega
    simp [hc, hinitial]
  · simp [hc]

/-- Behind the rows that were sent, a poll reads the others. -/
theorem list_cursorAfter {sent rest : List OfficeMessage} (h : t.list roomId initial = sent ++ rest) :
    t.list roomId (cursorAfter initial (sent.map frameOf)) = rest := by
  rcases List.eq_nil_or_concat sent with rfl | ⟨sent, last, rfl⟩
  · exact h
  have hcursor : cursorAfter initial ((sent.concat last).map frameOf) = last.seq := by
    simp [cursorAfter, frameOf]
  have hlast : initial < last.seq := by
    have hmem : last ∈ t.list roomId initial := by simp [h]
    exact (RoomTable.mem_list.1 hmem).2.2
  have hsorted : (sent.concat last ++ rest).Pairwise fun a b => a.seq < b.seq := h ▸ RoomTable.list_sorted
  rw [List.concat_eq_append, List.append_assoc, List.pairwise_append, List.singleton_append, List.pairwise_cons] at hsorted
  obtain ⟨-, ⟨hafter, -⟩, hbefore⟩ := hsorted
  have hnone : sent.filter (fun m => decide ((last.seq : ℤ) < m.seq)) = [] := by
    refine List.filter_eq_nil_iff.2 fun m hm => ?_
    have hlt := hbefore m hm last (by simp)
    simp only [decide_eq_true_eq]
    omega
  have hself : [last].filter (fun m => decide ((last.seq : ℤ) < m.seq)) = [] := by simp
  have hall : rest.filter (fun m => decide ((last.seq : ℤ) < m.seq)) = rest := by
    refine List.filter_eq_self.2 fun m hm => ?_
    have hlt := hafter m hm
    simp only [decide_eq_true_eq]
    omega
  rw [hcursor, list_filter (Int.le_of_lt hlast), h, List.concat_eq_append, List.append_assoc, List.filter_append, hnone,
    List.nil_append, List.filter_append, hself, hall, List.nil_append]

/-- What was sent and what a poll reads behind it are all rows of the room. -/
theorem frames_after {sent : List Frame} (h : sent <+: roomFrames t roomId initial) :
    sent ++ (t.list roomId (cursorAfter initial sent)).map frameOf = roomFrames t roomId initial := by
  obtain ⟨rest, hrest⟩ := h
  unfold roomFrames at hrest ⊢
  obtain ⟨rows, others, hrows, rfl, -⟩ := List.map_eq_append_iff.1 hrest.symm
  rw [list_cursorAfter hrows, hrows, List.map_append]

/-- A new row comes behind all others. -/
theorem roomFrames_insert : roomFrames t roomId initial <+: roomFrames (t.insert draft) roomId initial := by
  unfold roomFrames RoomTable.list
  rw [(RoomTable.insert_eq t draft).1, List.filter_append, List.map_append]
  exact List.prefix_append _ _

theorem mem_list_insert {m : OfficeMessage} (h : m ∈ (t.insert draft).list roomId initial) (hold : m.seq ≤ t.last) :
    m ∈ t.list roomId initial := by
  rw [RoomTable.mem_list, RoomTable.mem_insert] at h
  obtain ⟨hm | rfl, hrest⟩ := h
  · exact RoomTable.mem_list.2 ⟨hm, hrest⟩
  · have hnew : t.last + 1 ≤ t.last := hold
    omega

/-- A frame says which row it is of by its id. -/
theorem id_of_mem {f : Frame} (h : f ∈ roomFrames t roomId initial) : f.id = toString f.seq := by
  obtain ⟨m, -, rfl⟩ := List.mem_map.1 h
  rfl

end Reading

/-! ### The invariant -/

/-- `int` reads what `str` has written of a number. -/
def ReadsNumbers (py : Python) : Prop :=
  ∀ n : ℕ, py.parseInt (toString n) = some (n : ℤ)

/-- What a connection has to do with the frames that were received. -/
structure ConnectionOk (t : RoomTable) (roomId : String) (initial : ℤ) (received : List Frame) (c : StreamConnection) :
    Prop where
  sent : received ++ c.wire ++ c.page.map frameOf <+: roomFrames t roomId initial
  cursor : c.cursor = cursorAfter initial (received ++ c.wire)
  polled : ∀ h, c.polled = some h → h ≤ t.last ∧ ∀ m ∈ t.list roomId initial, m.seq ≤ h →
    frameOf m ∈ received ++ c.wire ++ c.page.map frameOf

/-- What holds of a client at any time. -/
structure ClientOk (py : Python) (t : RoomTable) (client : StreamClient) : Prop where
  received : client.received <+: roomFrames t client.roomId (client.initial py)
  connection : ∀ c, client.connection = some c →
    ConnectionOk t client.roomId (client.initial py) client.received c

section Invariant

variable {py : Python} {t : RoomTable} {client client' : StreamClient} {draft : OfficeDraft}

theorem ClientOk.insert (h : ClientOk py t client) : ClientOk py (t.insert draft) client := by
  refine ⟨h.received.trans roomFrames_insert, fun c hc => ?_⟩
  have hok := h.connection c hc
  refine ⟨hok.sent.trans roomFrames_insert, hok.cursor, fun n hn => ?_⟩
  obtain ⟨hle, hall⟩ := hok.polled n hn
  rw [(RoomTable.insert_eq t draft).2]
  exact ⟨Nat.le_succ_of_le hle, fun m hm hmn => hall m (mem_list_insert hm (hmn.trans hle)) hmn⟩

/-- A client that connects again begins behind what it has received. -/
theorem resume (hparse : ReadsNumbers py) (h : ClientOk py t client) :
    initialCursor py client.lastEventId client.sinceSeq = cursorAfter (client.initial py) client.received := by
  unfold StreamClient.lastEventId cursorAfter
  cases hlast : client.received.getLast? with
  | none =>
      rfl
  | some f =>
      have hid := id_of_mem (h.received.subset (List.mem_of_getLast? hlast))
      simp only [initialCursor, Option.map_some, Option.bind_some, hid, hparse f.seq, Option.getD_some]

theorem ClientOk.step (hparse : ReadsNumbers py) (h : ClientOk py t client) (hstep : ClientStep py t client client') :
    ClientOk py t client' := by
  cases hstep with
  | connect _ =>
      refine ⟨h.received, fun c hc => ?_⟩
      obtain rfl := Option.some.inj hc
      refine ⟨?_, ?_, fun n hn => by cases hn⟩
      · have hsent : client.received ++ [] ++ [] <+: roomFrames t client.roomId (client.initial py) := by
          simpa using h.received
        exact hsent
      · have hcursor := resume hparse h
        rw [← List.append_nil client.received] at hcursor
        exact hcursor
  | @poll c hconn hdone =>
      have hok := h.connection c hconn
      have hsent : client.received ++ c.wire <+: roomFrames t client.roomId (client.initial py) := by
        simpa [hdone] using hok.sent
      have hall := frames_after hsent
      rw [← hok.cursor] at hall
      refine ⟨h.received, fun c' hc' => ?_⟩
      obtain rfl := Option.some.inj hc'
      refine ⟨?_, hok.cursor, fun n hn => ?_⟩
      · exact hall ▸ List.prefix_rfl
      · obtain rfl := Option.some.inj hn
        refine ⟨le_rfl, fun m hm _ => ?_⟩
        have hmem : frameOf m ∈ roomFrames t client.roomId (client.initial py) := List.mem_map_of_mem hm
        exact hall ▸ hmem
  | @yield c m rest hconn hpage =>
      have hok := h.connection c hconn
      have hsame : client.received ++ (c.wire ++ [frameOf m]) ++ rest.map frameOf =
          client.received ++ c.wire ++ c.page.map frameOf := by simp [hpage]
      refine ⟨h.received, fun c' hc' => ?_⟩
      obtain rfl := Option.some.inj hc'
      refine ⟨hsame ▸ hok.sent, ?_, fun n hn => hsame ▸ hok.polled n hn⟩
      rw [← List.append_assoc]
      simp [cursorAfter, frameOf]
  | @deliver c f rest hconn hwire =>
      have hok := h.connection c hconn
      have hsame : client.received ++ [f] ++ rest = client.received ++ c.wire := by simp [hwire]
      refine ⟨?_, fun c' hc' => ?_⟩
      · have hbegins : client.received ++ [f] <+: client.received ++ c.wire ++ c.page.map frameOf := by
          rw [← hsame, List.append_assoc]
          exact List.prefix_append _ _
        exact hbegins.trans hok.sent
      · obtain rfl := Option.some.inj hc'
        exact ⟨hsame ▸ hok.sent, hsame ▸ hok.cursor, fun n hn => hsame ▸ hok.polled n hn⟩
  | disconnect =>
      exact ⟨h.received, by simp⟩

/-- What was received stays received, in the same room from the same cursor. -/
theorem ClientStep.keeps (h : ClientStep py t client client') : client.received <+: client'.received ∧
    client'.roomId = client.roomId ∧ client'.initial py = client.initial py := by
  cases h with
  | deliver _ _ =>
      exact ⟨List.prefix_append _ _, rfl, rfl⟩
  | _ =>
      exact ⟨List.prefix_rfl, rfl, rfl⟩

end Invariant

section Runs

variable {ι : Type} [DecidableEq ι] {py : Python} {w w' : StreamWorld ι}

theorem clientOk_of_run (hparse : ReadsNumbers py) (h : StreamRun py w w') (hinit : ∀ i, ClientOk py w.table (w.clients i)) :
    ∀ i, ClientOk py w'.table (w'.clients i) := by
  induction h with
  | refl =>
      exact hinit
  | step _ hstep ih =>
      intro i
      cases hstep with
      | insert draft =>
          exact (ih i).insert
      | client j hclient =>
          by_cases hij : i = j
          · subst hij
            simpa using (ih i).step hparse hclient
          · simpa [hij] using ih i

theorem StreamRun.keeps (h : StreamRun py w w') (i : ι) : (w.clients i).received <+: (w'.clients i).received ∧
    (w'.clients i).roomId = (w.clients i).roomId ∧ (w'.clients i).initial py = (w.clients i).initial py := by
  induction h with
  | refl =>
      exact ⟨List.prefix_rfl, rfl, rfl⟩
  | step _ hstep ih =>
      cases hstep with
      | insert draft =>
          exact ih
      | client j hclient =>
          by_cases hij : i = j
          · subst hij
            obtain ⟨hreceived, hroom, hinitial⟩ := hclient.keeps
            simp only [Function.update_self]
            exact ⟨ih.1.trans hreceived, hroom.trans ih.2.1, hinitial.trans ih.2.2⟩
          · simpa [hij] using ih

end Runs

/-! ### The timeline -/

/-- Frames in order are all shown. -/
theorem timeline_of_sorted {frames : List Frame} (h : frames.Pairwise fun a b => a.seq < b.seq) :
    timeline frames = frames := by
  unfold timeline
  induction frames using List.reverseRecOn with
  | nil =>
      rfl
  | append_singleton frames f ih =>
      rw [List.pairwise_append] at h
      have hnew : f.seq ∉ frames.map fun g => g.seq := by
        intro hmem
        obtain ⟨g, hg, heq⟩ := List.mem_map.1 hmem
        have hlt := h.2.2 g hg f (by simp)
        omega
      rw [List.foldl_append, ih h.1]
      simp [onMessage, hnew]

/-- A beginning: no client has connected yet. -/
def StreamInit {ι : Type} (w : StreamWorld ι) : Prop :=
  ∀ i, (w.clients i).received = [] ∧ (w.clients i).connection = none

/-- In every run of any clients over any appends, what a client has received is a beginning of the rows of its
room after its initial cursor, in the order of their numbers, and the timeline shows exactly this.  When a poll
has been carried through, every row that was committed before it has been received, and stays so. -/
theorem stream_exactly_once {ι : Type} [DecidableEq ι] {py : Python} (hparse : ReadsNumbers py)
    {w₀ w w' : StreamWorld ι} (hinit : StreamInit w₀) (h : StreamRun py w₀ w) (h' : StreamRun py w w') (i : ι) :
    (w'.clients i).received <+: roomFrames w'.table (w₀.clients i).roomId ((w₀.clients i).initial py) ∧
      ((w'.clients i).received.Pairwise fun a b => a.seq < b.seq) ∧
      timeline (w'.clients i).received = (w'.clients i).received ∧
      ∀ c last, (w.clients i).connection = some c → c.page = [] → c.wire = [] → c.polled = some last →
        ∀ m ∈ w.table.list (w₀.clients i).roomId ((w₀.clients i).initial py), m.seq ≤ last →
          frameOf m ∈ (w'.clients i).received := by
  have hbegin : ∀ j, ClientOk py w₀.table (w₀.clients j) := fun j =>
    ⟨by simp [(hinit j).1], by simp [(hinit j).2]⟩
  have hok := clientOk_of_run hparse h hbegin
  have hok' := clientOk_of_run hparse h' hok
  obtain ⟨-, hroom, hinitial⟩ := h.keeps i
  obtain ⟨hmore, hroom', hinitial'⟩ := h'.keeps i
  have hreceived := (hok' i).received
  rw [hroom', hroom, hinitial', hinitial] at hreceived
  have hsorted : (w'.clients i).received.Pairwise fun a b => a.seq < b.seq := by
    refine List.Pairwise.sublist hreceived.sublist ?_
    unfold roomFrames
    rw [List.pairwise_map]
    exact RoomTable.list_sorted
  refine ⟨hreceived, hsorted, timeline_of_sorted hsorted, fun c last hconn hpage hwire hpolled m hm hle => ?_⟩
  have hall := ((hok i).connection c hconn).polled last hpolled
  rw [hroom, hinitial] at hall
  have hmem := hall.2 m hm hle
  rw [hpage, hwire] at hmem
  exact hmore.subset (by simpa using hmem)

/-- A client of the office room, from the beginning. -/
def sampleClient : StreamClient :=
  ⟨officeRoomId, none, [], none⟩

/-- One client and an empty store. -/
def sampleStream : StreamWorld Unit :=
  ⟨.empty, fun _ => sampleClient⟩

/-- A row of the office room. -/
def sampleDraft : OfficeDraft where
  roomId := officeRoomId
  ts := "2026-07-30T09:00:00+00:00"
  author := "coordinator"
  kind := "milestone"
  body := []

theorem samplePython_readsNumbers : ReadsNumbers samplePython :=
  Nat.toInt?_repr

/-- A row is inserted, and when the poll that reads it has been carried through, the client has received it. -/
theorem stream_exactly_once_sample : ∃ w : StreamWorld Unit, StreamRun samplePython sampleStream w ∧
    frameOf (sampleDraft.message 1) ∈ (w.clients ()).received := by
  have hpage : (RoomTable.insert .empty sampleDraft).list officeRoomId 0 = [sampleDraft.message 1] := by
    unfold RoomTable.list
    rw [(RoomTable.insert_eq _ _).1]
    simp [Table.Auto.empty, sampleDraft, OfficeDraft.message]
  have hrow : sampleDraft.message 1 ∈ (RoomTable.insert .empty sampleDraft).list officeRoomId 0 := by
    simp [hpage]
  have hinsert : StreamRun samplePython sampleStream ⟨RoomTable.insert .empty sampleDraft, fun _ => sampleClient⟩ :=
    .step .refl (.insert sampleDraft)
  have hconnect := hinsert.step (.client () (.connect rfl))
  have hpoll := hconnect.step (.client () (.poll rfl rfl))
  have hyield := hpoll.step (.client () (.yield rfl hpage))
  have hdeliver := hyield.step (.client () (.deliver rfl rfl))
  have hall := stream_exactly_once samplePython_readsNumbers (fun _ => ⟨rfl, rfl⟩) hdeliver .refl ()
  have hlast : (RoomTable.insert .empty sampleDraft).last = 1 := (RoomTable.insert_eq _ _).2
  exact ⟨_, hdeliver, hall.2.2.2 _ _ rfl rfl rfl rfl _ hrow hlast.ge⟩

end ProjectManager
