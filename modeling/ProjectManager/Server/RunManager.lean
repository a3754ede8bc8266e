import Mathlib.Data.Finset.Card
import Mathlib.Logic.Function.Basic
import ProjectManager.Lib.Fifo

/-!
# The run manager

Runs that the server starts on demand.  A run is driven by a task of the event loop, its graph runs in a thread that
posts its chunks to the loop, and a reader takes them from a bounded queue.  `Step` is one step of the loop, of a thread
or of a reader.  `slots_and_terminals` says what holds after any steps: the slots are those of the runs that are not
over, and a run that is over has put its one terminal last.
-/

namespace ProjectManager

namespace RunManager

/-! ### Runs -/

/-- The status of a `Terminal`. -/
inductive TerminalStatus where
  | delivered
  | notDelivered
  | interrupted
  | error
deriving DecidableEq

/-- `Terminal`. -/
structure Terminal where
  status : TerminalStatus
  threadId : Option String
  summary : Option String
  message : Option String
deriving DecidableEq

/-- What is read of a chunk: the summary under `__interrupt__`, and the delivered flag of the delta under `deliver`. -/
structure Chunk where
  interrupt : Option (Option String)
  deliver : Option Bool
deriving DecidableEq

/-- An item of the queue of a run. -/
inductive Item where
  | chunk (chunk : Chunk)
  | terminal (terminal : Terminal)
deriving DecidableEq

/-- `RunHandle.status`. -/
inductive Status where
  | running
  | terminal
deriving DecidableEq

/-- `RunHandle`. -/
structure RunHandle where
  runId : String
  agentId : String
  threadId : String
  kind : String
  audience : String
  queue : List Item
  status : Status
  terminal : Option Terminal

/-- The slot of a run. -/
def RunHandle.key (handle : RunHandle) : String × String :=
  (handle.agentId, handle.threadId)

/-- `terminal_for_delivery`. -/
def terminalForDelivery (lastDelta : Option Bool) : Terminal :=
  ⟨if lastDelta.getD false then .delivered else .notDelivered, none, none, none⟩

/-- `terminal_for_interrupt`. -/
def terminalForInterrupt (threadId : String) (summary : Option String) : Terminal :=
  ⟨.interrupted, some threadId, summary, none⟩

/-- The terminal of a run whose thread has ended: its own, or one with the text of the exception. -/
def terminalOf : Except String Terminal → Terminal
  | .ok terminal => terminal
  | .error message => ⟨.error, none, none, some (String.ofList (message.toList.take 200))⟩

/-! ### The queue -/

/-- `_QUEUE_MAX`. -/
def queueMax : ℕ :=
  256

/-- `put_nowait`, which raises when the queue is full. -/
def putNowait (queue : List Item) (item : Item) : Option (List Item) :=
  if queueMax ≤ queue.length then none else some (queue ++ [item])

/-- `get_nowait`, which raises when the queue is empty. -/
def getNowait : List Item → Option (Item × List Item)
  | [] => none
  | item :: rest => some (item, rest)

/-- `_put_nonblocking`, with what happens at the queue. -/
def putNonblocking (queue : List Item) (item : Item) : List Item × List (Fifo.Event Item) :=
  match putNowait queue item with
  | some queue => (queue, [.received item])
  | none =>
      let (queue, dropped) : List Item × List (Fifo.Event Item) :=
        match getNowait queue with
        | some (oldest, rest) => (rest, [.dropped oldest])
        | none => (queue, [])
      match putNowait queue item with
      | some queue => (queue, dropped ++ [.received item])
      | none => (queue, dropped)

/-! ### The manager -/

/-- What the loop has to call: the beginning of `_drive`, a `_put_nonblocking` that a thread has posted, the end of a
thread, and `_drive` after it. -/
inductive Callback where
  | drive (runId : String)
  | put (runId : String) (chunk : Chunk)
  | threadDone (runId : String)
  | resume (runId : String)
deriving DecidableEq

/-- The run of a callback. -/
def Callback.runId : Callback → String
  | .drive runId => runId
  | .put runId _ => runId
  | .threadDone runId => runId
  | .resume runId => runId

/-- The thread of a run: not yet begun, in the loop over the chunks, on its way out of the session pool, or ended with
a terminal or the text of an exception. -/
inductive Thread where
  | idle
  | streaming (lastDelta : Option Bool)
  | leaving (terminal : Terminal)
  | ended (result : Except String Terminal)

/-- The thread of a run is between its beginning and its end. -/
def Thread.Working (thread : Thread) : Prop :=
  (∃ lastDelta, thread = .streaming lastDelta) ∨ ∃ t, thread = .leaving t

/-- The manager, the handles of all runs, which outlive their eviction, and what is under way. -/
structure World where
  runs : List String
  active : Finset (String × String)
  cap : ℕ
  handles : String → Option RunHandle
  threads : String → Thread
  ready : List Callback
  timers : List String

/-- What `start` raises. -/
inductive StartError where
  | invalidAgentId (agentId : String)
  | sameThreadRunning (threadId : String)
  | capReached (message : String)

/-- A character of an agent id after the first. -/
def agentIdChar (c : Char) : Bool :=
  ('a' ≤ c && c ≤ 'z') || ('0' ≤ c && c ≤ '9') || c = '_' || c = '-'

/-- A match of `^[a-z0-9][a-z0-9_-]*$`, where the end may be before a last line break. -/
def agentIdMatches (agentId : String) : Bool :=
  let chars := if agentId.toList.getLast? = some '\n' then agentId.toList.dropLast else agentId.toList
  match chars with
  | [] => false
  | first :: rest => agentIdChar first && first ≠ '_' && first ≠ '-' && rest.all agentIdChar

/-- `agent_thread_id`. -/
def agentThreadId (agentId kind audience : String) : Except StartError String :=
  if agentIdMatches agentId then .ok (agentId ++ ":" ++ kind ++ ":" ++ audience) else .error (.invalidAgentId agentId)

namespace World

/-- A new run is registered and its task created. -/
def register (w : World) (handle : RunHandle) : World :=
  { w with
    runs := w.runs ++ [handle.runId]
    active := insert handle.key w.active
    handles := Function.update w.handles handle.runId (some handle)
    threads := Function.update w.threads handle.runId .idle
    ready := w.ready ++ [.drive handle.runId] }

/-- `RunManager.start`. -/
def start (w : World) (agentId kind audience runId : String) : Except StartError World :=
  match agentThreadId agentId kind audience with
  | .error exc => .error exc
  | .ok threadId =>
      if (agentId, threadId) ∈ w.active then
        .error (.sameThreadRunning threadId)
      else if w.cap ≤ w.active.card then
        .error (.capReached ("active runs at cap " ++ toString w.cap))
      else
        .ok (w.register ⟨runId, agentId, threadId, kind, audience, [], .running, none⟩)

/-- A thread goes on. -/
def thread (w : World) (runId : String) (t : Thread) (posted : List Callback) : World :=
  { w with
    threads := Function.update w.threads runId t
    ready := w.ready ++ posted }

/-- A handle changes. -/
def set (w : World) (runId : String) (handle : RunHandle) : World :=
  { w with handles := Function.update w.handles runId (some handle) }

/-- `_drive` after its thread: the terminal is recorded and put, the slot is released, and the eviction scheduled. -/
def conclude (w : World) (handle : RunHandle) (result : Except String Terminal) : World × List (Fifo.Event Item) :=
  let terminal := terminalOf result
  let (queue, events) := putNonblocking handle.queue (.terminal terminal)
  ({ w.set handle.runId { handle with status := .terminal, terminal := some terminal, queue := queue } with
    active := w.active.erase handle.key
    timers := w.timers ++ [handle.runId] }, events)

/-- `_evict`. -/
def evict (w : World) (runId : String) : World :=
  { w with
    runs := w.runs.filter (· ≠ runId)
    timers := w.timers.erase runId }

end World

/-! ### Steps -/

/-- What happened at the queue of a run. -/
abbrev Log :=
  List (String × Fifo.Event Item)

/-- The events of a run. -/
def logOf (log : Log) (runId : String) : List (Fifo.Event Item) :=
  log.filterMap fun e => if e.1 = runId then some e.2 else none

/-- One step, with what happens at the queues. -/
inductive Step : World → Log → World → Prop where
  | start {w w' : World} {agentId kind audience runId : String} (hfresh : w.handles runId = none)
      (hstart : w.start agentId kind audience runId = .ok w') : Step w [] w'
  | drive {w : World} {runId : String} {rest : List Callback} (hready : w.ready = .drive runId :: rest) :
      Step w [] (({ w with ready := rest } : World).thread runId (.streaming none) [])
  | stream {w : World} {runId : String} {lastDelta : Option Bool} (chunk : Chunk)
      (hthread : w.threads runId = .streaming lastDelta) (hgoes : chunk.interrupt = none) :
      Step w [] (w.thread runId (.streaming (chunk.deliver.or lastDelta)) [.put runId chunk])
  | interrupt {w : World} {runId : String} {handle : RunHandle} {lastDelta : Option Bool} {summary : Option String}
      (chunk : Chunk) (hhandle : w.handles runId = some handle) (hthread : w.threads runId = .streaming lastDelta)
      (hstops : chunk.interrupt = some summary) :
      Step w [] (w.thread runId (.leaving (terminalForInterrupt handle.threadId summary)) [])
  | exhaust {w : World} {runId : String} {lastDelta : Option Bool} (hthread : w.threads runId = .streaming lastDelta) :
      Step w [] (w.thread runId (.leaving (terminalForDelivery lastDelta)) [])
  | leave {w : World} {runId : String} {terminal : Terminal} (hthread : w.threads runId = .leaving terminal) :
      Step w [] (w.thread runId (.ended (.ok terminal)) [.threadDone runId])
  | crash {w : World} {runId : String} (message : String)
      (hworking : (w.threads runId).Working) :
      Step w [] (w.thread runId (.ended (.error message)) [.threadDone runId])
  | put {w : World} {runId : String} {handle : RunHandle} {chunk : Chunk} {rest : List Callback}
      (hready : w.ready = .put runId chunk :: rest) (hhandle : w.handles runId = some handle) :
      Step w ((putNonblocking handle.queue (.chunk chunk)).2.map fun e => (runId, e))
        (({ w with ready := rest } : World).set runId
          { handle with queue := (putNonblocking handle.queue (.chunk chunk)).1 })
  | threadDone {w : World} {runId : String} {rest : List Callback} (hready : w.ready = .threadDone runId :: rest) :
      Step w [] { w with ready := rest ++ [.resume runId] }
  | resume {w : World} {runId : String} {handle : RunHandle} {result : Except String Terminal} {rest : List Callback}
      (hready : w.ready = .resume runId :: rest) (hhandle : w.handles runId = some handle)
      (hthread : w.threads runId = .ended result) :
      Step w ((({ w with ready := rest } : World).conclude handle result).2.map fun e => (runId, e))
        (({ w with ready := rest } : World).conclude handle result).1
  | get {w : World} {runId : String} {handle : RunHandle} {item : Item} {rest : List Item}
      (hhandle : w.handles runId = some handle) (hitem : getNowait handle.queue = some (item, rest)) :
      Step w [(runId, .taken item)] (w.set runId { handle with queue := rest })
  | evict {w : World} {runId : String} (htimer : runId ∈ w.timers) : Step w [] (w.evict runId)

/-- A manager without runs. -/
def World.empty (cap : ℕ) : World where
  runs := []
  active := ∅
  cap := cap
  handles := fun _ => none
  threads := fun _ => .idle
  ready := []
  timers := []

/-- What is reached by steps, with what has happened at the queues. -/
inductive Reached (cap : ℕ) : Log → World → Prop where
  | empty : Reached cap [] (.empty cap)
  | step {log events : Log} {w w' : World} (h : Reached cap log w) (hstep : Step w events w') :
      Reached cap (log ++ events) w'

/-! ### Slots -/

section Slots

variable {w w' : World} {runId : String} {handle : RunHandle} {key : String × String}

/-- The slot that a run holds: a run that is over holds none. -/
def World.slot (w : World) (runId : String) : Option (String × String) :=
  match w.handles runId with
  | none => none
  | some handle => if handle.status = .running then some handle.key else none

/-- The active keys are those of the runs that are not over, which have different keys and are within the cap. -/
structure SlotsOk (w : World) : Prop where
  held : ∀ key, key ∈ w.active ↔ ∃ runId, w.slot runId = some key
  single : ∀ runId runId' key, w.slot runId = some key → w.slot runId' = some key → runId = runId'
  within : w.active.card ≤ w.cap

/-- A step that leaves the slots. -/
theorem SlotsOk.same (h : SlotsOk w) (hslot : w'.slot = w.slot) (hactive : w'.active = w.active) (hcap : w'.cap = w.cap) :
    SlotsOk w' where
  held := by
    rw [hslot, hactive]
    exact h.held
  single := by
    rw [hslot]
    exact h.single
  within := by
    rw [hactive, hcap]
    exact h.within

/-- A run takes a free slot. -/
theorem SlotsOk.acquire (h : SlotsOk w) (hslot : w'.slot = Function.update w.slot runId (some key))
    (hfree : w.slot runId = none) (hkey : key ∉ w.active) (hactive : w'.active = insert key w.active)
    (hcap : w'.cap = w.cap) (hroom : w.active.card < w.cap) : SlotsOk w' where
  held := fun key' => by
    rw [hactive, Finset.mem_insert, h.held, hslot]
    constructor
    · rintro (rfl | ⟨other, hother⟩)
      · exact ⟨runId, Function.update_self _ _ _⟩
      · refine ⟨other, ?_⟩
        rw [Function.update_of_ne]
        · exact hother
        · rintro rfl
          cases hfree.symm.trans hother
    · rintro ⟨other, hother⟩
      by_cases heq : other = runId
      · rw [heq, Function.update_self] at hother
        exact .inl (Option.some.inj hother).symm
      · rw [Function.update_of_ne heq] at hother
        exact .inr ⟨other, hother⟩
  single := fun a b key' ha hb => by
    rw [hslot] at ha hb
    have hnew : ∀ other, other ≠ runId → w.slot other ≠ some key := fun other _ hother =>
      hkey ((h.held key).2 ⟨other, hother⟩)
    by_cases hra : a = runId <;> by_cases hrb : b = runId
    · exact hra.trans hrb.symm
    · rw [hra, Function.update_self] at ha
      rw [Function.update_of_ne hrb] at hb
      cases Option.some.inj ha
      exact absurd hb (hnew b hrb)
    · rw [hrb, Function.update_self] at hb
      rw [Function.update_of_ne hra] at ha
      cases Option.some.inj hb
      exact absurd ha (hnew a hra)
    · rw [Function.update_of_ne hra] at ha
      rw [Function.update_of_ne hrb] at hb
      exact h.single a b key' ha hb
  within := by
    rw [hactive, hcap, Finset.card_insert_of_notMem hkey]
    exact hroom

/-- A run releases its slot. -/
theorem SlotsOk.release (h : SlotsOk w) (hslot : w'.slot = Function.update w.slot runId none)
    (hheld : w.slot runId = some key) (hactive : w'.active = w.active.erase key) (hcap : w'.cap = w.cap) :
    SlotsOk w' where
  held := fun key' => by
    rw [hactive, Finset.mem_erase, h.held, hslot]
    constructor
    · rintro ⟨hne, other, hother⟩
      refine ⟨other, ?_⟩
      rw [Function.update_of_ne]
      · exact hother
      · rintro rfl
        exact hne (Option.some.inj (hother.symm.trans hheld))
    · rintro ⟨other, hother⟩
      by_cases heq : other = runId
      · rw [heq, Function.update_self] at hother
        cases hother
      · rw [Function.update_of_ne heq] at hother
        refine ⟨?_, other, hother⟩
        rintro rfl
        exact heq (h.single other runId key' hother hheld)
  single := fun a b key' ha hb => by
    rw [hslot] at ha hb
    by_cases hra : a = runId
    · rw [hra, Function.update_self] at ha
      cases ha
    · by_cases hrb : b = runId
      · rw [hrb, Function.update_self] at hb
        cases hb
      · rw [Function.update_of_ne hra] at ha
        rw [Function.update_of_ne hrb] at hb
        exact h.single a b key' ha hb
  within := by
    rw [hactive, hcap]
    exact (Finset.card_erase_le).trans h.within

/-- The slots after a handle was replaced by one of the same run. -/
theorem slot_set (hhandle : w.handles runId = some handle) {handle' : RunHandle} (hstatus : handle'.status = handle.status)
    (hkey : handle'.key = handle.key) : (w.set runId handle').slot = w.slot := by
  funext other
  unfold World.slot World.set
  by_cases heq : other = runId
  · subst heq
    simp only [Function.update_self, hhandle, hstatus, hkey]
  · simp only [Function.update_of_ne heq]

end Slots

/-! ### One run -/

section OneRun

variable {w w' : World} {log log' : Log} {runId other : String} {handle : RunHandle} {thread : Thread}
  {events : List (Fifo.Event Item)} {queue : List Item} {ready rest : List Callback} {c : Callback}

/-- The callbacks of a run. -/
def pendingOf (ready : List Callback) (runId : String) : List Callback :=
  ready.filter fun c => decide (c.runId = runId)

theorem pendingOf_append (ready ready' : List Callback) (runId : String) :
    pendingOf (ready ++ ready') runId = pendingOf ready runId ++ pendingOf ready' runId :=
  List.filter_append ..

theorem pendingOf_own (h : c.runId = runId) : pendingOf (c :: rest) runId = c :: pendingOf rest runId := by
  simp [pendingOf, h]

theorem pendingOf_other (h : c.runId ≠ runId) : pendingOf (c :: rest) runId = pendingOf rest runId := by
  simp [pendingOf, h]

theorem logOf_append (log log' : Log) (runId : String) : logOf (log ++ log') runId = logOf log runId ++ logOf log' runId :=
  List.filterMap_append

theorem logOf_own (events : List (Fifo.Event Item)) : logOf (events.map fun e => (runId, e)) runId = events := by
  unfold logOf
  rw [List.filterMap_map]
  simp

theorem logOf_other (h : other ≠ runId) (events : List (Fifo.Event Item)) :
    logOf (events.map fun e => (runId, e)) other = [] := by
  unfold logOf
  rw [List.filterMap_map, List.filterMap_eq_nil_iff]
  exact fun e _ => if_neg (Ne.symm h)

/-- What the loop has to call for a run, by what its thread has done: a chunk is put before the thread's end is known,
and that before `_drive` goes on. -/
inductive Awaits (runId : String) : Thread → List Callback → Prop where
  | idle : Awaits runId .idle [.drive runId]
  | streaming {lastDelta : Option Bool} (chunks : List Chunk) :
      Awaits runId (.streaming lastDelta) (chunks.map (.put runId))
  | leaving {t : Terminal} (chunks : List Chunk) : Awaits runId (.leaving t) (chunks.map (.put runId))
  | ended {result : Except String Terminal} (chunks : List Chunk) :
      Awaits runId (.ended result) (chunks.map (.put runId) ++ [.threadDone runId])
  | settled {result : Except String Terminal} : Awaits runId (.ended result) [.resume runId]

/-- The queue is explained by what happened at it, is bounded, and has dropped no terminal. -/
structure QueueOk (events : List (Fifo.Event Item)) (queue : List Item) : Prop where
  explained : Fifo.Explains events queue
  bounded : queue.length ≤ queueMax
  undropped : ∀ t, .dropped (.terminal t) ∉ events

/-- A run that is not over. -/
structure Running (runId : String) (registered timed : Prop) (events : List (Fifo.Event Item)) (handle : RunHandle) :
    Prop where
  runId : handle.runId = runId
  status : handle.status = .running
  terminal : handle.terminal = none
  queue : QueueOk events handle.queue
  chunks : ∀ t, .terminal t ∉ Fifo.received events
  registered : registered
  untimed : ¬ timed

/-- A run that is over: its queue has received the terminal of the handle last, and no other. -/
structure Over (runId : String) (events : List (Fifo.Event Item)) (handle : RunHandle) : Prop where
  runId : handle.runId = runId
  status : handle.status = .terminal
  queue : QueueOk events handle.queue
  last : ∃ t front, handle.terminal = some t ∧ Fifo.received events = front ++ [.terminal t] ∧
    ∀ t', .terminal t' ∉ front

/-- What holds of a run: before its start, while it is running, and when it is over. -/
inductive RunOk (runId : String) (registered timed : Prop) (thread : Thread) (pending : List Callback)
    (events : List (Fifo.Event Item)) : Option RunHandle → Prop where
  | absent (hthread : thread = .idle) (hpending : pending = []) (hevents : events = []) (htimed : ¬ timed) :
      RunOk runId registered timed thread pending events none
  | running {handle : RunHandle} (hrunning : Running runId registered timed events handle)
      (hawaits : Awaits runId thread pending) : RunOk runId registered timed thread pending events (some handle)
  | concluded {handle : RunHandle} (hover : Over runId events handle) (hended : ∃ result, thread = .ended result)
      (hpending : pending = []) : RunOk runId registered timed thread pending events (some handle)

/-- A run is well in a world. -/
def World.RunOk (w : World) (log : Log) (runId : String) : Prop :=
  RunManager.RunOk runId (runId ∈ w.runs) (runId ∈ w.timers) (w.threads runId) (pendingOf w.ready runId)
    (logOf log runId) (w.handles runId)

/-- A step of another run. -/
theorem World.RunOk.untouched (h : w.RunOk log runId) (hhandle : w'.handles runId = w.handles runId)
    (hthread : w'.threads runId = w.threads runId) (hpending : pendingOf w'.ready runId = pendingOf w.ready runId)
    (hlog : logOf log' runId = logOf log runId) (hruns : runId ∈ w'.runs ↔ runId ∈ w.runs)
    (htimers : runId ∈ w'.timers ↔ runId ∈ w.timers) : w'.RunOk log' runId := by
  unfold World.RunOk
  rw [hhandle, hthread, hpending, hlog, propext hruns, propext htimers]
  exact h

/-- A put: the queue takes the item, and drops its oldest one when it is full. -/
theorem QueueOk.put {item : Item} (h : QueueOk events queue) (hchunks : ∀ t, .terminal t ∉ Fifo.received events) :
    QueueOk (events ++ (putNonblocking queue item).2) (putNonblocking queue item).1 ∧
      Fifo.received (events ++ (putNonblocking queue item).2) = Fifo.received events ++ [item] := by
  by_cases hroom : queue.length < queueMax
  · have hput : putNonblocking queue item = (queue ++ [item], [.received item]) := by
      simp [putNonblocking, putNowait, not_le.2 hroom]
    rw [hput]
    refine ⟨⟨h.explained.receive item, ?_, fun t ht => ?_⟩, Fifo.received_append _ _⟩
    · simp only [List.length_append, List.length_singleton]
      omega
    · rcases List.mem_append.1 ht with hold | hnew
      · exact h.undropped t hold
      · cases List.mem_singleton.1 hnew
  · cases queue with
    | nil =>
        exact absurd (by decide : 0 < queueMax) hroom
    | cons oldest rest =>
        have hbounded := h.bounded
        simp only [List.length_cons] at hbounded hroom
        have hput : putNonblocking (oldest :: rest) item = (rest ++ [item], [.dropped oldest, .received item]) := by
          simp [putNonblocking, putNowait, getNowait, not_lt.1 hroom, not_le.2 (by omega : rest.length < queueMax)]
        rw [hput]
        have holdest : oldest ∈ Fifo.received events := h.explained.mem_received (List.mem_cons_self ..)
        have hdropped := h.explained.drop.receive item
        rw [List.append_assoc] at hdropped
        refine ⟨⟨hdropped, ?_, fun t ht => ?_⟩, Fifo.received_append _ _⟩
        · simp only [List.length_append, List.length_singleton]
          omega
        · rcases List.mem_append.1 ht with hold | hnew
          · exact h.undropped t hold
          · simp only [List.mem_cons, Fifo.Event.dropped.injEq, List.not_mem_nil, reduceCtorEq, or_false] at hnew
            exact hchunks t (hnew ▸ holdest)

/-- A get. -/
theorem QueueOk.get {item : Item} (h : QueueOk events (item :: queue)) : QueueOk (events ++ [.taken item]) queue where
  explained := h.explained.take
  bounded := (Nat.le_succ _).trans h.bounded
  undropped := fun t ht => by
    rcases List.mem_append.1 ht with hold | hnew
    · exact h.undropped t hold
    · cases List.mem_singleton.1 hnew

theorem received_taken (item : Item) : Fifo.received (events ++ [.taken item]) = Fifo.received events := by
  simp [Fifo.received]

/-- What is left to call after a callback of the run. -/
def AwaitsAfter (runId : String) (thread : Thread) (rest : List Callback) : Callback → Prop
  | .put _ _ => Awaits runId thread rest
  | .threadDone _ => rest = [] ∧ ∃ result, thread = .ended result
  | _ => rest = []

theorem Awaits.next (h : Awaits runId thread (c :: rest)) : AwaitsAfter runId thread rest c := by
  generalize hpending : c :: rest = pending at h
  cases h with
  | idle =>
      cases hpending
      exact rfl
  | streaming chunks =>
      cases chunks with
      | nil =>
          cases hpending
      | cons chunk chunks =>
          cases hpending
          exact .streaming chunks
  | leaving chunks =>
      cases chunks with
      | nil =>
          cases hpending
      | cons chunk chunks =>
          cases hpending
          exact .leaving chunks
  | ended chunks =>
      cases chunks with
      | nil =>
          cases hpending
          exact ⟨rfl, _, rfl⟩
      | cons chunk chunks =>
          cases hpending
          exact .ended chunks
  | settled =>
      cases hpending
      exact rfl

/-- A run of a world that is not over. -/
abbrev World.Running (w : World) (log : Log) (runId : String) (handle : RunHandle) : Prop :=
  RunManager.Running runId (runId ∈ w.runs) (runId ∈ w.timers) (logOf log runId) handle

/-- A run whose callback is next is running. -/
theorem World.RunOk.called (h : w.RunOk log runId) (hready : w.ready = c :: rest) (hid : c.runId = runId) :
    ∃ handle, w.handles runId = some handle ∧ w.Running log runId handle ∧
      Awaits runId (w.threads runId) (c :: pendingOf rest runId) := by
  unfold World.RunOk at h
  rw [hready, pendingOf_own hid] at h
  generalize hhandle : w.handles runId = handle? at h
  cases h with
  | absent _ hpending _ _ =>
      cases hpending
  | running hrunning hawaits =>
      exact ⟨_, rfl, hrunning, hawaits⟩
  | concluded _ _ hpending =>
      cases hpending

theorem Thread.Working.puts {pending : List Callback} (h : thread.Working) (hawaits : Awaits runId thread pending) :
    ∃ chunks : List Chunk, pending = chunks.map (.put runId) := by
  rcases h with ⟨_, rfl⟩ | ⟨_, rfl⟩
  · cases hawaits with
    | streaming chunks =>
        exact ⟨chunks, rfl⟩
  · cases hawaits with
    | leaving chunks =>
        exact ⟨chunks, rfl⟩

/-- A run whose thread works is running, and only puts are to be called for it. -/
theorem World.RunOk.working (h : w.RunOk log runId) (hworking : (w.threads runId).Working) :
    ∃ handle, w.handles runId = some handle ∧ w.Running log runId handle ∧
      ∃ chunks : List Chunk, pendingOf w.ready runId = chunks.map (.put runId) := by
  unfold World.RunOk at h
  generalize hhandle : w.handles runId = handle? at h
  cases h with
  | absent hidle _ _ _ =>
      rw [hidle] at hworking
      rcases hworking with ⟨_, h⟩ | ⟨_, h⟩ <;> cases h
  | running hrunning hawaits =>
      exact ⟨_, rfl, hrunning, hworking.puts hawaits⟩
  | concluded _ hended _ =>
      obtain ⟨_, hended⟩ := hended
      rw [hended] at hworking
      rcases hworking with ⟨_, h⟩ | ⟨_, h⟩ <;> cases h

end OneRun

/-! ### One step -/

section OneStep

variable {w w' : World} {log events : Log} {runId : String} {handle : RunHandle}

/-- What a step of one run leaves of the others; what it does not touch at all is left by definition. -/
structure Frame (w w' : World) (log log' : Log) (runId : String) : Prop where
  handle : ∀ other, other ≠ runId → w'.handles other = w.handles other := by exact fun _ _ => rfl
  thread : ∀ other, other ≠ runId → w'.threads other = w.threads other := by exact fun _ _ => rfl
  pending : ∀ other, other ≠ runId → pendingOf w'.ready other = pendingOf w.ready other := by exact fun _ _ => rfl
  events : ∀ other, other ≠ runId → logOf log' other = logOf log other := by simp
  runs : ∀ other, other ≠ runId → (other ∈ w'.runs ↔ other ∈ w.runs) := by exact fun _ _ => Iff.rfl
  timers : ∀ other, other ≠ runId → (other ∈ w'.timers ↔ other ∈ w.timers) := by exact fun _ _ => Iff.rfl

theorem Frame.runsOk {log' : Log} (h : ∀ other, w.RunOk log other) (hframe : Frame w w' log log' runId)
    (hown : w'.RunOk log' runId) : ∀ other, w'.RunOk log' other := by
  intro other
  by_cases heq : other = runId
  · rw [heq]
    exact hown
  · exact (h other).untouched (hframe.handle other heq) (hframe.thread other heq) (hframe.pending other heq)
      (hframe.events other heq) (hframe.runs other heq) (hframe.timers other heq)

theorem pendingOf_posted {posted ready : List Callback} {other : String} (hposted : ∀ c ∈ posted, c.runId = runId)
    (hother : other ≠ runId) : pendingOf (ready ++ posted) other = pendingOf ready other := by
  have hnone : pendingOf posted other = [] :=
    List.filter_eq_nil_iff.2 fun c hc hid => hother ((of_decide_eq_true hid).symm.trans (hposted c hc))
  rw [pendingOf_append, hnone, List.append_nil]

/-- A thread goes on and posts callbacks of its run. -/
theorem Frame.thread_posted {t : Thread} {posted : List Callback} (hposted : ∀ c ∈ posted, c.runId = runId) :
    Frame w (w.thread runId t posted) log (log ++ []) runId where
  thread := fun other hother => Function.update_of_ne hother _ _
  pending := fun other hother => pendingOf_posted hposted hother

theorem thread_runsOk {t : Thread} {posted : List Callback} (h : ∀ other, w.RunOk log other)
    (hhandle : w.handles runId = some handle) (hrunning : w.Running log runId handle)
    (hposted : ∀ c ∈ posted, c.runId = runId) (hawaits : Awaits runId t (pendingOf w.ready runId ++ posted)) :
    ∀ other, (w.thread runId t posted).RunOk (log ++ []) other := by
  refine (Frame.thread_posted hposted).runsOk h ?_
  have hown : pendingOf posted runId = posted := List.filter_eq_self.2 fun c hc => decide_eq_true (hposted c hc)
  rw [List.append_nil]
  unfold World.RunOk World.thread
  simp only [hhandle, Function.update_self, pendingOf_append, hown]
  exact .running hrunning hawaits

theorem start_eq {agentId kind audience : String} (hstart : w.start agentId kind audience runId = .ok w') :
    ∃ handle, handle.runId = runId ∧ handle.status = .running ∧ handle.terminal = none ∧ handle.queue = [] ∧
      handle.key ∉ w.active ∧ w.active.card < w.cap ∧ w' = w.register handle := by
  unfold World.start at hstart
  split at hstart
  · cases hstart
  · rename_i threadId _
    split at hstart
    · cases hstart
    · rename_i hfree
      split at hstart
      · cases hstart
      · rename_i hroom
        cases hstart
        exact ⟨⟨runId, agentId, threadId, kind, audience, [], .running, none⟩, rfl, rfl, rfl, rfl, hfree,
          not_le.1 hroom, rfl⟩

theorem queueOk_nil : QueueOk [] [] :=
  ⟨Fifo.explains_nil, Nat.zero_le _, fun _ => List.not_mem_nil⟩

theorem pendingOf_rest {ready rest : List Callback} {c : Callback} {other : String} (hready : ready = c :: rest)
    (hother : other ≠ c.runId) : pendingOf rest other = pendingOf ready other := by
  rw [hready, pendingOf_other hother.symm]

theorem logOf_events_other {own : List (Fifo.Event Item)} {other : String} (hother : other ≠ runId) :
    logOf (log ++ own.map fun e => (runId, e)) other = logOf log other := by
  rw [logOf_append, logOf_other hother, List.append_nil]

theorem logOf_events_own (own : List (Fifo.Event Item)) :
    logOf (log ++ own.map fun e => (runId, e)) runId = logOf log runId ++ own := by
  rw [logOf_append, logOf_own]

theorem start_runsOk {agentId kind audience : String} (h : ∀ other, w.RunOk log other)
    (hfresh : w.handles runId = none) (hstart : w.start agentId kind audience runId = .ok w') :
    ∀ other, w'.RunOk (log ++ []) other := by
  obtain ⟨handle, rfl, hstatus, hterminal, hqueue, -, -, rfl⟩ := start_eq hstart
  have hframe : Frame w (w.register handle) log (log ++ []) handle.runId := {
    handle := fun other hother => Function.update_of_ne hother _ _
    thread := fun other hother => Function.update_of_ne hother _ _
    pending := fun other hother => pendingOf_posted (by simp [Callback.runId]) hother
    runs := fun other hother => by simp [World.register, hother] }
  refine hframe.runsOk h ?_
  have habsent := h handle.runId
  unfold World.RunOk at habsent ⊢
  rw [hfresh] at habsent
  cases habsent with
  | absent hthread hpending hevents htimed =>
      simp only [World.register, Function.update_self, pendingOf_append, hpending, List.append_nil, hevents]
      refine .running ⟨rfl, hstatus, hterminal, hqueue ▸ queueOk_nil, fun _ => List.not_mem_nil, by simp, htimed⟩ ?_
      rw [List.nil_append, pendingOf_own (by rfl)]
      exact .idle

theorem drive_runsOk {rest : List Callback} (h : ∀ other, w.RunOk log other) (hready : w.ready = .drive runId :: rest) :
    ∀ other, (({ w with ready := rest } : World).thread runId (.streaming none) []).RunOk (log ++ []) other := by
  obtain ⟨handle, hhandle, hrunning, hawaits⟩ := (h runId).called hready rfl
  have hnone : pendingOf rest runId = [] := hawaits.next
  have hframe : Frame w (({ w with ready := rest } : World).thread runId (.streaming none) []) log (log ++ []) runId := {
    thread := fun other hother => Function.update_of_ne hother _ _
    pending := fun other hother => by
      rw [← pendingOf_rest hready hother]
      exact congrArg (pendingOf · other) (List.append_nil rest) }
  refine hframe.runsOk h ?_
  unfold World.RunOk World.thread
  simp only [Function.update_self, List.append_nil, hnone, hhandle]
  exact .running hrunning (.streaming [])

theorem put_runsOk {chunk : Chunk} {rest : List Callback} (h : ∀ other, w.RunOk log other)
    (hready : w.ready = .put runId chunk :: rest) (hhandle : w.handles runId = some handle) :
    ∀ other, (({ w with ready := rest } : World).set runId
      { handle with queue := (putNonblocking handle.queue (.chunk chunk)).1 }).RunOk
        (log ++ (putNonblocking handle.queue (.chunk chunk)).2.map fun e => (runId, e)) other := by
  obtain ⟨_, hsame, hrunning, hawaits⟩ := (h runId).called hready rfl
  cases Option.some.inj (hhandle.symm.trans hsame)
  have hframe : Frame w (({ w with ready := rest } : World).set runId
      { handle with queue := (putNonblocking handle.queue (.chunk chunk)).1 }) log
      (log ++ (putNonblocking handle.queue (.chunk chunk)).2.map fun e => (runId, e)) runId := {
    handle := fun other hother => Function.update_of_ne hother _ _
    pending := fun other hother => pendingOf_rest hready hother
    events := fun other hother => logOf_events_other hother }
  refine hframe.runsOk h ?_
  obtain ⟨hqueue, hreceived⟩ := @QueueOk.put _ _ (.chunk chunk) hrunning.queue hrunning.chunks
  unfold World.RunOk World.set
  simp only [Function.update_self, logOf_events_own]
  refine .running { hrunning with
    queue := hqueue
    chunks := fun t ht => ?_ } hawaits.next
  rw [hreceived, List.mem_append, List.mem_singleton] at ht
  exact ht.elim (hrunning.chunks t) fun heq => nomatch heq

theorem threadDone_runsOk {rest : List Callback} (h : ∀ other, w.RunOk log other)
    (hready : w.ready = .threadDone runId :: rest) :
    ∀ other, ({ w with ready := rest ++ [.resume runId] } : World).RunOk (log ++ []) other := by
  obtain ⟨handle, hhandle, hrunning, hawaits⟩ := (h runId).called hready rfl
  obtain ⟨hnone, result, hended⟩ : pendingOf rest runId = [] ∧ ∃ result, w.threads runId = .ended result :=
    hawaits.next
  have hframe : Frame w { w with ready := rest ++ [.resume runId] } log (log ++ []) runId := {
    pending := fun other hother =>
      (pendingOf_posted (by simp [Callback.runId]) hother).trans (pendingOf_rest hready hother) }
  refine hframe.runsOk h ?_
  unfold World.RunOk
  simp only [pendingOf_append, hnone, List.append_nil, hhandle, hended]
  refine .running hrunning ?_
  rw [List.nil_append, pendingOf_own (by rfl)]
  exact .settled

/-- A run that ends: nothing of its thread is left to put, so that its terminal is last. -/
theorem resume_runsOk {result : Except String Terminal} {rest : List Callback} (h : ∀ other, w.RunOk log other)
    (hready : w.ready = .resume runId :: rest) (hhandle : w.handles runId = some handle)
    (hthread : w.threads runId = .ended result) :
    ∀ other, (({ w with ready := rest } : World).conclude handle result).1.RunOk
      (log ++ (({ w with ready := rest } : World).conclude handle result).2.map fun e => (runId, e)) other := by
  obtain ⟨_, hsame, hrunning, hawaits⟩ := (h runId).called hready rfl
  cases Option.some.inj (hhandle.symm.trans hsame)
  have hnone : pendingOf rest runId = [] := hawaits.next
  have hframe : Frame w (({ w with ready := rest } : World).conclude handle result).1 log
      (log ++ (({ w with ready := rest } : World).conclude handle result).2.map fun e => (runId, e)) runId := {
    handle := fun other hother => Function.update_of_ne (hrunning.runId ▸ hother) _ _
    pending := fun other hother => pendingOf_rest hready hother
    events := fun other hother => logOf_events_other hother
    timers := fun other hother => by simp [World.conclude, hrunning.runId, hother] }
  refine hframe.runsOk h ?_
  obtain ⟨hqueue, hreceived⟩ := @QueueOk.put _ _ (.terminal (terminalOf result)) hrunning.queue hrunning.chunks
  unfold World.RunOk
  rw [logOf_events_own]
  simp only [World.conclude, World.set, hrunning.runId, Function.update_self]
  exact .concluded ⟨rfl, rfl, hqueue, _, _, rfl, hreceived, hrunning.chunks⟩ ⟨result, hthread⟩ hnone

theorem getNowait_eq {queue rest : List Item} {item : Item} (h : getNowait queue = some (item, rest)) :
    queue = item :: rest := by
  cases queue with
  | nil =>
      cases h
  | cons first others =>
      cases h
      rfl

theorem get_runsOk {item : Item} {rest : List Item} (h : ∀ other, w.RunOk log other)
    (hhandle : w.handles runId = some handle) (hitem : getNowait handle.queue = some (item, rest)) :
    ∀ other, (w.set runId { handle with queue := rest }).RunOk (log ++ [(runId, .taken item)]) other := by
  have hqueue := getNowait_eq hitem
  have hlog : logOf (log ++ [(runId, .taken item)]) runId = logOf log runId ++ [.taken item] :=
    logOf_events_own [.taken item]
  have hframe : Frame w (w.set runId { handle with queue := rest }) log (log ++ [(runId, .taken item)]) runId := {
    handle := fun other hother => Function.update_of_ne hother _ _
    events := fun other hother => @logOf_events_other log runId [.taken item] other hother }
  refine hframe.runsOk h ?_
  have hown := h runId
  unfold World.RunOk at hown ⊢
  rw [hlog]
  unfold World.set
  simp only [Function.update_self]
  rw [hhandle] at hown
  cases hown with
  | running hrunning hawaits =>
      refine .running { hrunning with
        queue := (hqueue ▸ hrunning.queue).get
        chunks := ?_ } hawaits
      rw [received_taken]
      exact hrunning.chunks
  | concluded hover hended hpending =>
      refine .concluded ⟨hover.runId, hover.status, (hqueue ▸ hover.queue).get, ?_⟩ hended hpending
      rw [received_taken]
      exact hover.last

theorem evict_runsOk (h : ∀ other, w.RunOk log other) (htimer : runId ∈ w.timers) :
    ∀ other, (w.evict runId).RunOk (log ++ []) other := by
  have hframe : Frame w (w.evict runId) log (log ++ []) runId := {
    runs := fun other hother => by simp [World.evict, hother]
    timers := fun other hother => List.mem_erase_of_ne hother }
  refine hframe.runsOk h ?_
  have hown := h runId
  unfold World.RunOk at hown ⊢
  rw [List.append_nil]
  unfold World.evict
  generalize w.handles runId = handle? at hown
  cases hown with
  | absent _ _ _ htimed =>
      exact absurd htimer htimed
  | running hrunning _ =>
      exact absurd htimer hrunning.untimed
  | concluded hover hended hpending =>
      exact .concluded hover hended hpending

/-- One step keeps every run well. -/
theorem Step.runsOk (hstep : Step w events w') (h : ∀ other, w.RunOk log other) :
    ∀ other, w'.RunOk (log ++ events) other := by
  cases hstep with
  | start hfresh hstart =>
      exact start_runsOk h hfresh hstart
  | drive hready =>
      exact drive_runsOk h hready
  | @stream runId lastDelta chunk hthread hgoes =>
      obtain ⟨handle, hhandle, hrunning, chunks, hpending⟩ := (h runId).working (.inl ⟨_, hthread⟩)
      refine thread_runsOk h hhandle hrunning (by simp [Callback.runId]) ?_
      rw [hpending]
      have hposted := @Awaits.streaming runId (chunk.deliver.or lastDelta) (chunks ++ [chunk])
      rw [List.map_append] at hposted
      exact hposted
  | @interrupt runId _ lastDelta summary chunk _ hthread hstops =>
      obtain ⟨handle, hhandle, hrunning, chunks, hpending⟩ := (h runId).working (.inl ⟨_, hthread⟩)
      refine thread_runsOk h hhandle hrunning (by simp) ?_
      rw [hpending, List.append_nil]
      exact .leaving chunks
  | @exhaust runId lastDelta hthread =>
      obtain ⟨handle, hhandle, hrunning, chunks, hpending⟩ := (h runId).working (.inl ⟨_, hthread⟩)
      refine thread_runsOk h hhandle hrunning (by simp) ?_
      rw [hpending, List.append_nil]
      exact .leaving chunks
  | @leave runId terminal hthread =>
      obtain ⟨handle, hhandle, hrunning, chunks, hpending⟩ := (h runId).working (.inr ⟨_, hthread⟩)
      refine thread_runsOk h hhandle hrunning (by simp [Callback.runId]) ?_
      rw [hpending]
      exact .ended chunks
  | @crash runId message hworking =>
      obtain ⟨handle, hhandle, hrunning, chunks, hpending⟩ := (h runId).working hworking
      refine thread_runsOk h hhandle hrunning (by simp [Callback.runId]) ?_
      rw [hpending]
      exact .ended chunks
  | put hready hhandle =>
      exact put_runsOk h hready hhandle
  | threadDone hready =>
      exact threadDone_runsOk h hready
  | resume hready hhandle hthread =>
      exact resume_runsOk h hready hhandle hthread
  | get hhandle hitem =>
      exact get_runsOk h hhandle hitem
  | evict htimer =>
      exact evict_runsOk h htimer

/-- One step keeps the slots. -/
theorem Step.slotsOk (hstep : Step w events w') (h : ∀ other, w.RunOk log other) (hslots : SlotsOk w) :
    SlotsOk w' := by
  cases hstep with
  | @start _ agentId kind audience runId hfresh hstart =>
      obtain ⟨handle, rfl, hstatus, -, -, hfree, hroom, rfl⟩ := start_eq hstart
      refine @SlotsOk.acquire w _ handle.runId handle.key hslots ?_ ?_ hfree rfl rfl hroom
      · funext other
        unfold World.slot World.register
        by_cases heq : other = handle.runId
        · simp only [heq, Function.update_self, hstatus, if_true]
        · simp only [Function.update_of_ne heq]
      · unfold World.slot
        rw [hfresh]
  | drive hready =>
      exact hslots.same rfl rfl rfl
  | stream chunk hthread hgoes =>
      exact hslots.same rfl rfl rfl
  | interrupt chunk hhandle hthread hstops =>
      exact hslots.same rfl rfl rfl
  | exhaust hthread =>
      exact hslots.same rfl rfl rfl
  | leave hthread =>
      exact hslots.same rfl rfl rfl
  | crash message hworking =>
      exact hslots.same rfl rfl rfl
  | @put runId handle chunk rest hready hhandle =>
      have hsame : ({ w with ready := rest } : World).handles runId = some handle := hhandle
      exact hslots.same (slot_set hsame rfl rfl) rfl rfl
  | threadDone hready =>
      exact hslots.same rfl rfl rfl
  | @resume runId handle result rest hready hhandle hthread =>
      obtain ⟨_, hsame, hrunning, -⟩ := (h runId).called hready rfl
      cases Option.some.inj (hhandle.symm.trans hsame)
      refine @SlotsOk.release w _ runId handle.key hslots ?_ ?_ rfl rfl
      · funext other
        unfold World.slot World.conclude World.set
        by_cases heq : other = runId
        · simp [heq, hrunning.runId]
        · simp only [hrunning.runId, Function.update_of_ne heq]
      · unfold World.slot
        rw [hhandle]
        exact if_pos hrunning.status
  | get hhandle hitem =>
      exact hslots.same (slot_set hhandle rfl rfl) rfl rfl
  | evict htimer =>
      exact hslots.same rfl rfl rfl

end OneStep

/-! ### All steps -/

section AllSteps

variable {cap : ℕ} {log : Log} {w : World}

theorem Reached.runsOk (h : Reached cap log w) : ∀ runId, w.RunOk log runId := by
  induction h with
  | empty =>
      exact fun runId => .absent rfl rfl rfl List.not_mem_nil
  | step _ hstep ih =>
      exact hstep.runsOk ih

theorem Reached.slotsOk (h : Reached cap log w) : SlotsOk w := by
  induction h with
  | empty =>
      have hnone : ∀ runId key, (World.empty cap).slot runId ≠ some key := fun _ _ hslot => by
        cases hslot
      exact {
        held := fun key => ⟨fun hkey => absurd hkey (Finset.notMem_empty key), fun ⟨_, hslot⟩ => absurd hslot (hnone _ _)⟩
        single := fun _ _ _ hslot => absurd hslot (hnone _ _)
        within := Nat.zero_le _ }
  | step hreached hstep ih =>
      exact hstep.slotsOk hreached.runsOk ih

theorem start_ok {w : World} {agentId kind audience runId threadId : String}
    (hthread : agentThreadId agentId kind audience = .ok threadId) (hfree : (agentId, threadId) ∉ w.active)
    (hroom : w.active.card < w.cap) : w.start agentId kind audience runId =
      .ok (w.register ⟨runId, agentId, threadId, kind, audience, [], .running, none⟩) := by
  simp only [World.start, hthread, hfree, if_false, not_le.2 hroom]

theorem start_cap {w w' : World} {agentId kind audience runId : String}
    (h : w.start agentId kind audience runId = .ok w') : w'.cap = w.cap := by
  obtain ⟨handle, -, -, -, -, -, -, rfl⟩ := start_eq h
  rfl

theorem Reached.cap_eq (h : Reached cap log w) : w.cap = cap := by
  induction h with
  | empty =>
      rfl
  | step _ hstep ih =>
      rw [← ih]
      cases hstep with
      | start hfresh hstart =>
          exact start_cap hstart
      | _ =>
          rfl

/-- The queue of a run that is over has received one terminal, the one of the handle, as its last item; it was not
dropped, and is still last in the queue or was taken. -/
def TerminalLast (events : List (Fifo.Event Item)) (handle : RunHandle) : Prop :=
  ∃ t front, handle.terminal = some t ∧ Fifo.received events = front ++ [.terminal t] ∧
    (∀ t', .terminal t' ∉ front) ∧ (∀ t', .dropped (.terminal t') ∉ events) ∧
      ((∃ front', handle.queue = front' ++ [.terminal t]) ∨ handle.queue = [] ∧ .taken (.terminal t) ∈ events)

theorem Over.terminalLast {runId : String} {events : List (Fifo.Event Item)} {handle : RunHandle}
    (h : Over runId events handle) : TerminalLast events handle := by
  obtain ⟨t, front, hterminal, hreceived, hfront⟩ := h.last
  refine ⟨t, front, hterminal, hreceived, hfront, h.queue.undropped, ?_⟩
  rcases h.queue.explained.last hreceived with hlast | ⟨hempty, hdropped | htaken⟩
  · exact .inl hlast
  · exact absurd hdropped (h.queue.undropped t)
  · exact .inr ⟨hempty, htaken⟩

theorem slot_eq_some {runId : String} {key : String × String} : w.slot runId = some key ↔
    ∃ handle, w.handles runId = some handle ∧ handle.status = .running ∧ handle.key = key := by
  unfold World.slot
  cases hhandle : w.handles runId with
  | none =>
      simp
  | some handle =>
      simp only [Option.some.injEq, exists_eq_left']
      by_cases hstatus : handle.status = .running
      · simp [hstatus]
      · simp [hstatus]

/-- After any steps the active keys are those of the runs that are not over, within the cap and one run for a key, and
each run that is over has its one terminal last. -/
theorem slots_and_terminals (h : Reached cap log w) :
    w.active.card ≤ cap ∧
    (∀ runId runId' handle handle', w.handles runId = some handle → w.handles runId' = some handle' →
      handle.status = .running → handle'.status = .running → handle.key = handle'.key → runId = runId') ∧
    (∀ key, key ∈ w.active ↔ ∃ runId handle, runId ∈ w.runs ∧ w.handles runId = some handle ∧
      handle.status = .running ∧ handle.key = key) ∧
    ∀ runId handle, w.handles runId = some handle →
      (handle.status = .running → ∀ t, .terminal t ∉ Fifo.received (logOf log runId)) ∧
      (handle.status = .terminal → TerminalLast (logOf log runId) handle) := by
  have hslots := h.slotsOk
  have hruns := h.runsOk
  refine ⟨h.cap_eq ▸ hslots.within, fun runId runId' handle handle' hhandle hhandle' hstatus hstatus' hkey => ?_,
    fun key => ?_, fun runId handle hhandle => ?_⟩
  · exact hslots.single runId runId' handle'.key (slot_eq_some.2 ⟨handle, hhandle, hstatus, hkey⟩)
      (slot_eq_some.2 ⟨handle', hhandle', hstatus', rfl⟩)
  · rw [hslots.held]
    constructor
    · rintro ⟨runId, hslot⟩
      obtain ⟨handle, hhandle, hstatus, hkey⟩ := slot_eq_some.1 hslot
      have hrun := hruns runId
      unfold World.RunOk at hrun
      rw [hhandle] at hrun
      cases hrun with
      | running hrunning _ =>
          exact ⟨runId, handle, hrunning.registered, hhandle, hstatus, hkey⟩
      | concluded hover _ _ =>
          cases hstatus.symm.trans hover.status
    · rintro ⟨runId, handle, -, hhandle, hstatus, hkey⟩
      exact ⟨runId, slot_eq_some.2 ⟨handle, hhandle, hstatus, hkey⟩⟩
  · have hrun := hruns runId
    unfold World.RunOk at hrun
    rw [hhandle] at hrun
    cases hrun with
    | running hrunning _ =>
        refine ⟨fun _ => hrunning.chunks, fun hover => ?_⟩
        cases hrunning.status.symm.trans hover
    | concluded hover _ _ =>
        refine ⟨fun hstatus => ?_, fun _ => hover.terminalLast⟩
        cases hstatus.symm.trans hover.status

/-- A run whose graph crashes. -/
theorem slots_and_terminals_sample : ∃ log w handle, Reached 1 log w ∧ w.handles "r1" = some handle ∧
    handle.terminal = some ⟨.error, none, none, some "boom"⟩ ∧ TerminalLast (logOf log "r1") handle := by
  have hthread : agentThreadId "acme" "daily" "internal" = .ok ("acme" ++ ":" ++ "daily" ++ ":" ++ "internal") :=
    if_pos (by decide +kernel)
  have hstart := Reached.empty.step (.start rfl (@start_ok (.empty 1) "acme" "daily" "internal" "r1" _ hthread
    (Finset.notMem_empty _) Nat.one_pos))
  have hcrash := (hstart.step (.drive rfl)).step (@Step.crash _ "r1" "boom" (.inl ⟨none, rfl⟩))
  have hended := hcrash.step (.threadDone rfl)
  have hover := hended.step (.resume rfl rfl rfl)
  exact ⟨_, _, _, hover, rfl, by decide +kernel, ((slots_and_terminals hover).2.2.2 "r1" _ rfl).2 rfl⟩

end AllSteps

end RunManager

end ProjectManager
