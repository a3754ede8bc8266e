import Mathlib.Data.List.Sort
import Mathlib.Data.String.Basic
import Mathlib.Logic.Function.Basic
import ProjectManager.Actions.Value
import ProjectManager.Lib.Fifo

/-!
# The session pool

One pool for a run: threads that call tools, and on the pool's own loop one owner task for each session, which opens the
session, serves its queue and closes it.  An event is one uninterrupted piece of a thread or of the loop: `Event.Enabled`
says where the code stands when it can happen, and `Event.effect` what it does.  A wait that is bounded may end at any
time.
-/

namespace ProjectManager

namespace Mcp

/-! ### Owners and calls -/

/-- What a call ends with: a result, or what it raises. -/
abbrev Outcome :=
  Except String String

/-- Where an owner task stands. -/
inductive OwnerPhase where
  | absent
  | scheduled
  | opening
  | waiting
  | serving (call : ℕ)
  | stopped
deriving DecidableEq

/-- `_ServerState` -/
structure ServerState where
  /-- the name in the spec -/
  name : String
  phase : OwnerPhase
  /-- the future `ready` -/
  ready : Option (Except String Unit)
  queue : List ℕ
  tools : List String
  /-- `owner.cancel` is on its way -/
  cancelling : Bool

/-- Where `call` stands. -/
inductive CallPhase where
  | absent
  | looking
  | starting (owner : ℕ)
  | awaiting (owner : ℕ)
  | putting (owner : ℕ)
  | blocked (owner : ℕ)
  | ended (outcome : Outcome)

/-- A call of a tool, in a thread of its own; `future` is that of its `_Request`. -/
structure ToolCall where
  server : String
  tool : String
  phase : CallPhase
  future : Option Outcome

/-- `McpSessionPool`, with the owners ever scheduled and the calls ever made. -/
structure Pool where
  closed : Bool
  /-- the loop thread runs -/
  looping : Bool
  /-- `_servers` -/
  servers : String → Option ℕ
  owners : ℕ → ServerState
  calls : ℕ → ToolCall
  /-- the owner at whose queue a call is still to be put although its thread has given up -/
  strays : ℕ → Option ℕ

/-- A pool as it is entered. -/
def Pool.new : Pool where
  closed := false
  looping := true
  servers := fun _ => none
  owners := fun _ => ⟨"", .absent, none, [], [], false⟩
  calls := fun _ => ⟨"", "", .absent, none⟩
  strays := fun _ => none

namespace Pool

variable (p : Pool)

def setServer (name : String) (owner : Option ℕ) : Pool :=
  { p with servers := Function.update p.servers name owner }

def setOwner (o : ℕ) (s : ServerState) : Pool :=
  { p with owners := Function.update p.owners o s }

def setCall (c : ℕ) (x : ToolCall) : Pool :=
  { p with calls := Function.update p.calls c x }

/-- The call goes on. -/
def goTo (c : ℕ) (phase : CallPhase) : Pool :=
  p.setCall c { p.calls c with phase := phase }

/-- `owner.cancel` -/
def cancel (o : ℕ) : Pool :=
  p.setOwner o { p.owners o with cancelling := true }

/-- The future of a call is set, unless it is. -/
def resolve (c : ℕ) (outcome : Outcome) : Pool :=
  p.setCall c { p.calls c with future := some ((p.calls c).future.getD outcome) }

/-- `_drain_failures`, with the request in flight before it. -/
def fail (msg : String) (cs : List ℕ) : Pool :=
  { p with calls := fun c =>
      if c ∈ cs then { p.calls c with future := some ((p.calls c).future.getD (.error msg)) } else p.calls c }

end Pool

/-! ### Events -/

/-- `_serve_one`: what the future is set to when the session answers. -/
def served (py : Python) (s : ServerState) (tool : String) (answer : Outcome) : Outcome :=
  if tool ∈ s.tools then
    answer
  else
    .error ("MCP tool " ++ py.repr (.str tool) ++ " not found on server " ++ py.repr (.str s.name) ++ ". Available: " ++
      ", ".intercalate (s.tools.insertionSort (· ≤ ·)))

/-- The error of the requests that a cancelled owner leaves. -/
def closedText (py : Python) (name : String) : String :=
  "MCP server " ++ py.repr (.str name) ++ " session closed"

/-- One piece of a thread or of the loop. -/
inductive Event where
  /-- `call` finds the pool open and the spec valid -/
  | enter (c : ℕ) (server tool : String)
  /-- `_ensure_server` finds the server -/
  | found (c o : ℕ)
  /-- it does not, and schedules `_start` -/
  | schedule (c o : ℕ)
  /-- `_start` -/
  | start (o : ℕ)
  | startTimeout (c o : ℕ)
  /-- the new owner is published -/
  | publish (c o : ℕ)
  /-- another thread was first: the new owner is a spare -/
  | dropSpare (c o existing : ℕ)
  /-- the session is open -/
  | opened (o : ℕ) (tools : List String)
  | openFailed (o : ℕ) (msg : String) (left : List ℕ)
  | ready (c o : ℕ)
  | notReady (c o : ℕ) (msg : String)
  | readyTimeout (c o : ℕ)
  | put (c o : ℕ)
  | putTimeout (c o : ℕ)
  /-- the put of a call that has given up -/
  | latePut (c o : ℕ)
  | take (c o : ℕ)
  | serve (c o : ℕ) (answer : Outcome)
  /-- the cancellation reaches the owner, with the request in flight and the queue -/
  | stop (o : ℕ) (inFlight left : List ℕ)
  | answered (c o : ℕ) (outcome : Outcome)
  | callTimeout (c o : ℕ)
  /-- `close` sets its flag -/
  | close
  /-- `_shutdown` cancels the published owners -/
  | shutdown
  /-- the loop is stopped -/
  | stopLoop

/-- The request in flight. -/
def OwnerPhase.inFlight : OwnerPhase → List ℕ
  | serving c => [c]
  | _ => []

/-- The task of the owner runs. -/
def OwnerPhase.Live (phase : OwnerPhase) : Prop :=
  phase ≠ .absent ∧ phase ≠ .scheduled ∧ phase ≠ .stopped

/-- The event can happen now. -/
def Event.Enabled (p : Pool) : Event → Prop
  | enter c _ _ => p.closed = false ∧ (p.calls c).phase = .absent
  | found c o => (p.calls c).phase = .looking ∧ p.servers (p.calls c).server = some o
  | schedule c o =>
      (p.calls c).phase = .looking ∧ p.servers (p.calls c).server = none ∧ (p.owners o).phase = .absent
  | start o => p.looping = true ∧ (p.owners o).phase = .scheduled
  | startTimeout c o => (p.calls c).phase = .starting o ∧ (p.owners o).phase = .scheduled
  | publish c o =>
      (p.calls c).phase = .starting o ∧ (p.owners o).phase ≠ .scheduled ∧ p.servers (p.calls c).server = none
  | dropSpare c o existing =>
      (p.calls c).phase = .starting o ∧ (p.owners o).phase ≠ .scheduled ∧
        p.servers (p.calls c).server = some existing
  | opened o _ => p.looping = true ∧ (p.owners o).phase = .opening
  | openFailed o _ left => p.looping = true ∧ (p.owners o).phase = .opening ∧ left = (p.owners o).queue
  | ready c o => (p.calls c).phase = .awaiting o ∧ (p.owners o).ready = some (.ok ())
  | notReady c o msg => (p.calls c).phase = .awaiting o ∧ (p.owners o).ready = some (.error msg)
  | readyTimeout c o => (p.calls c).phase = .awaiting o ∧ (p.owners o).ready = none
  | put c o => p.looping = true ∧ (p.calls c).phase = .putting o
  | putTimeout c o => (p.calls c).phase = .putting o
  | latePut c o => p.looping = true ∧ p.strays c = some o
  | take c o => p.looping = true ∧ (p.owners o).phase = .waiting ∧ (p.owners o).queue.head? = some c
  | serve c o _ => p.looping = true ∧ (p.owners o).phase = .serving c
  | stop o inFlight left =>
      p.looping = true ∧ (p.owners o).phase.Live ∧ (p.owners o).cancelling = true ∧
        inFlight = (p.owners o).phase.inFlight ∧ left = (p.owners o).queue
  | answered c o outcome => (p.calls c).phase = .blocked o ∧ (p.calls c).future = some outcome
  | callTimeout c o => (p.calls c).phase = .blocked o ∧ (p.calls c).future = none
  | close => p.closed = false
  | shutdown => p.closed = true ∧ p.looping = true
  | stopLoop => p.closed = true

/-- The pool behind the event. -/
def Event.effect (py : Python) (p : Pool) : Event → Pool
  | enter c server tool => p.setCall c ⟨server, tool, .looking, none⟩
  | found c o => p.goTo c (.awaiting o)
  | schedule c o => (p.setOwner o ⟨(p.calls c).server, .scheduled, none, [], [], false⟩).goTo c (.starting o)
  | start o => p.setOwner o { p.owners o with phase := .opening }
  | startTimeout c _ =>
      p.goTo c (.ended (.error ("MCP pool loop did not start the owner for " ++ py.repr (.str (p.calls c).server) ++
        " within 5s.")))
  | publish c o => (p.setServer (p.calls c).server (some o)).goTo c (.awaiting o)
  | dropSpare c o existing => (p.cancel o).goTo c (.awaiting existing)
  | opened o tools => p.setOwner o { p.owners o with phase := .waiting, ready := some (.ok ()), tools := tools }
  | openFailed o msg left =>
      (p.setOwner o { p.owners o with phase := .stopped, ready := some (.error msg), queue := [] }).fail msg left
  | ready c o => p.goTo c (.putting o)
  | notReady c _ msg => p.goTo c (.ended (.error msg))
  | readyTimeout c _ => p.goTo c (.ended (.error "TimeoutError"))
  | put c o => (p.setOwner o { p.owners o with queue := (p.owners o).queue ++ [c] }).goTo c (.blocked o)
  | putTimeout c o =>
      { p.goTo c (.ended (.error "TimeoutError")) with strays := Function.update p.strays c (some o) }
  | latePut c o =>
      { p.setOwner o { p.owners o with queue := (p.owners o).queue ++ [c] } with
        strays := Function.update p.strays c none }
  | take c o => p.setOwner o { p.owners o with phase := .serving c, queue := (p.owners o).queue.tail }
  | serve c o answer =>
      (p.setOwner o { p.owners o with phase := .waiting }).resolve c (served py (p.owners o) (p.calls c).tool answer)
  | stop o inFlight left =>
      (p.setOwner o { p.owners o with phase := .stopped, queue := [] }).fail (closedText py (p.owners o).name)
        (inFlight ++ left)
  | answered c _ outcome => p.goTo c (.ended outcome)
  | callTimeout c o =>
      ((p.cancel o).setServer (p.owners o).name none).goTo c (.ended (.error ("MCP server " ++
        py.repr (.str (p.calls c).server) ++ " timed out after 60s calling " ++ py.repr (.str (p.calls c).tool) ++ ".")))
  | close => { p with closed := true }
  | shutdown =>
      { p with owners := fun o =>
          if p.servers (p.owners o).name = some o then { p.owners o with cancelling := true } else p.owners o }
  | stopLoop => { p with looping := false }

instance (phase : OwnerPhase) : Decidable phase.Live :=
  inferInstanceAs (Decidable (_ ∧ _ ∧ _))

/-- The events of a run of the pool so far, and the pool. -/
inductive Run (py : Python) : List Event → Pool → Prop where
  | new : Run py [] .new
  | next {log : List Event} {p : Pool} (h : Run py log p) {e : Event} (he : e.Enabled p) :
      Run py (log ++ [e]) (e.effect py p)

end Mcp

end ProjectManager
