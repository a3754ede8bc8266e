import Mathlib.Data.Finset.Erase
import Mathlib.Data.Finset.Insert
import ProjectManager.Actions.Mediation
import ProjectManager.Lib.OrderedMap
import ProjectManager.Server.OfficeEventProjection

/-!
# The desks of the office

`deriveAgentDesks` reduces the messages of the office room to a map of desks, `agentIdsInOrder` lists the agents that the
same messages name.  The first one makes a desk for every handoff and review, also under the empty id, and for an assignment
only when it names its task; the other one skips empty ids and takes every assignment.
`ids_are_desks_iff` says for which runs the two agree all along.
-/

namespace ProjectManager.Web

/-! ### Messages -/

/-- `OfficeEventBody`, as far as the desks read it; a field that is undefined or null is `none`. -/
structure OfficeEventBody where
  taskTitle : Option String := none
  stepTitle : Option String := none
  status : Option String := none
  assignedTo : Option String := none
  phase : Option String := none
  attemptId : Option String := none
  /-- `from` -/
  asker : Option String := none
  /-- `to` -/
  colleague : Option String := none
  pic : Option String := none
  taskId : Option String := none
  milestone : Option String := none

/-- `OfficeMessage`. -/
structure OfficeMessage where
  author : String
  kind : OfficeEventKind
  body : OfficeEventBody

/-- A text field of the parsed body. -/
def textField (body : List (String × Val)) (name : String) : Option String :=
  match body.lookup name with
  | some (.str s) => some s
  | _ => none

/-- The body of a message, read from the row. -/
def OfficeEventBody.ofDict (body : List (String × Val)) : OfficeEventBody where
  taskTitle := textField body "task_title"
  stepTitle := textField body "step_title"
  status := textField body "status"
  assignedTo := textField body "assigned_to"
  phase := textField body "phase"
  attemptId := textField body "attempt_id"
  asker := textField body "from"
  colleague := textField body "to"
  pic := textField body "pic"
  taskId := textField body "task_id"
  milestone := textField body "milestone"

/-- The body of the message is an output of the projection. -/
def OfficeMessage.Projected (py : Python) (m : OfficeMessage) : Prop :=
  ∃ raw body, summarizeOfficeEvent py m.kind raw = .ok body ∧ m.body = .ofDict body

/-- The text of a field, when it counts as true. -/
def truthy (field : Option String) : Option String :=
  field.filter fun s => decide (s ≠ "")

theorem truthy_eq_some {field : Option String} {s : String} : truthy field = some s ↔ field = some s ∧ s ≠ "" := by
  simp [truthy, Option.filter_eq_some_iff]

theorem truthy_eq_none {field : Option String} : truthy field = none ↔ field = none ∨ field = some "" := by
  cases field with
  | none =>
      simp [truthy]
  | some s =>
      simp [truthy]

/-! ### Desks -/

/-- `AgentState`. -/
inductive AgentState where
  | idle | assigned | working | done
deriving DecidableEq, Repr

/-- What a desk shows of its step. -/
structure DeskView where
  state : AgentState := .idle
  taskTitle : Option String := none
  stepTitle : Option String := none
  phase : Option String := none
  attemptId : Option String := none
deriving DecidableEq, Repr

/-- `AgentDeskState`; the id is the key of the desk. -/
structure AgentDeskState extends DeskView where
  consultWith : Option String := none
  picTasks : Finset String := ∅
deriving DecidableEq

/-- The map of desks. -/
abbrev Desks :=
  OrderedMap String AgentDeskState

/-- `nextState`. -/
def nextState (prev : AgentState) (status : Option String) : AgentState :=
  if status = some "started" then .working else if status = some "failed" then .idle else prev

/-- `ensure`. -/
def ensure (desks : Desks) (id : String) : Desks :=
  desks.ensure id {}

/-- `endConsult`. -/
def endConsult (desks : Desks) (id : String) : Desks :=
  let released := match (desks.get? id).bind fun d => truthy d.consultWith with
    | none => desks
    | some partner =>
        desks.modify partner fun p => if p.consultWith = some id then { p with consultWith := none } else p
  released.modify id fun d => { d with consultWith := none }

/-- What a `step_status` that is not dropped writes. -/
def DeskView.advance (d : DeskView) (body : OfficeEventBody) : DeskView :=
  { d with
    taskTitle := body.taskTitle.or d.taskTitle
    stepTitle := body.stepTitle.or d.stepTitle
    phase := body.phase.or d.phase
    state := nextState (if d.state = .idle then .assigned else d.state) body.status }

/-- The `step_status` case, from the attempt guard on. -/
def DeskView.stepStatus (d : DeskView) (body : OfficeEventBody) : DeskView :=
  match truthy body.attemptId with
  | none =>
      if body.status = some "started" then
        -- a dispatch: the start of a new attempt
        { d with attemptId := none, phase := none }.advance body
      else
        d.advance body
  | some incoming =>
      match truthy d.attemptId with
      | some current =>
          -- another attempt than the one of the desk: dropped
          if incoming ≠ current then d else { d with attemptId := some incoming }.advance body
      | none => { d with attemptId := some incoming }.advance body

/-- What a `handoff` or a `review` writes. -/
def DeskView.delivered (d : DeskView) (body : OfficeEventBody) : DeskView :=
  { d with taskTitle := body.taskTitle.or d.taskTitle, stepTitle := body.stepTitle.or d.stepTitle, state := .done }

/-- The cases `handoff` and `review`. -/
def deliver (desks : Desks) (m : OfficeMessage) : Desks :=
  let assignedTo := m.body.assignedTo.getD m.author
  (endConsult (ensure desks assignedTo) assignedTo).modify assignedTo fun d =>
    { d with toDeskView := d.delivered m.body }

/-- One end of a `consult`. -/
def consultEnd (desks : Desks) (end_ other : Option String) : Desks :=
  match truthy end_ with
  | none => desks
  | some id => (ensure desks id).modify id fun d => { d with consultWith := other }

/-- One message of the loop. -/
def reduce (desks : Desks) (m : OfficeMessage) : Desks :=
  match m.kind with
  | .assignment =>
      match truthy m.body.pic, truthy m.body.taskId with
      | some pic, some taskId =>
          (ensure desks pic).modify pic fun d => { d with picTasks := insert taskId d.picTasks }
      | _, _ => desks
  | .stepStatus =>
      match truthy m.body.assignedTo with
      | none => desks
      | some assignedTo =>
          (endConsult (ensure desks assignedTo) assignedTo).modify assignedTo fun d =>
            { d with toDeskView := d.stepStatus m.body }
  | .handoff => deliver desks m
  | .review => deliver desks m
  | .milestone =>
      match truthy m.body.taskId with
      | some taskId =>
          if m.body.milestone = some "done" then
            desks.map fun d => { d with picTasks := d.picTasks.erase taskId }
          else
            desks
      | none => desks
  | .consult => consultEnd (consultEnd desks m.body.asker m.body.colleague) m.body.colleague m.body.asker
  | .ceo => desks
  | .other => desks

/-- `deriveAgentDesks`. -/
def deriveAgentDesks (messages : List OfficeMessage) : Desks :=
  messages.foldl reduce .empty

/-- `add`; the set mirrors the list. -/
def addId (seen : List String) (id : Option String) : List String :=
  match truthy id with
  | none => seen
  | some id => if id ∈ seen then seen else seen ++ [id]

/-- What `agentIdsInOrder` adds for a message. -/
def OfficeMessage.ids (m : OfficeMessage) : List (Option String) :=
  match m.kind with
  | .stepStatus => [m.body.assignedTo]
  | .handoff => [some (m.body.assignedTo.getD m.author)]
  | .review => [some (m.body.assignedTo.getD m.author)]
  | .consult => [m.body.asker, m.body.colleague]
  | .assignment => [m.body.pic]
  | _ => []

/-- `agentIdsInOrder`. -/
def agentIdsInOrder (messages : List OfficeMessage) : List String :=
  messages.foldl (fun seen m => m.ids.foldl addId seen) []

@[simp] theorem deriveAgentDesks_append (messages : List OfficeMessage) (m : OfficeMessage) :
    deriveAgentDesks (messages ++ [m]) = reduce (deriveAgentDesks messages) m := by
  simp [deriveAgentDesks]

@[simp] theorem agentIdsInOrder_append (messages : List OfficeMessage) (m : OfficeMessage) :
    agentIdsInOrder (messages ++ [m]) = m.ids.foldl addId (agentIdsInOrder messages) := by
  simp [agentIdsInOrder]

/-! ### Keys -/

section Keys

variable {desks : Desks} {m : OfficeMessage} {messages : List OfficeMessage}

/-- The ids with one more at the end, if it is new. -/
def withId (ids : List String) (id : String) : List String :=
  if id ∈ ids then ids else ids ++ [id]

@[simp] theorem keys_ensure (desks : Desks) (id : String) : (ensure desks id).keys = withId desks.keys id :=
  desks.keys_ensure id {}

@[simp] theorem keys_endConsult (desks : Desks) (id : String) : (endConsult desks id).keys = desks.keys := by
  simp only [endConsult, OrderedMap.keys_modify]
  split
  · rfl
  · rw [OrderedMap.keys_modify]

theorem keys_consultEnd (desks : Desks) (end_ other : Option String) :
    (consultEnd desks end_ other).keys = addId desks.keys end_ := by
  unfold consultEnd addId
  split
  · rfl
  · rw [OrderedMap.keys_modify, keys_ensure, withId]

theorem keys_deliver (desks : Desks) (m : OfficeMessage) :
    (deliver desks m).keys = withId desks.keys (m.body.assignedTo.getD m.author) := by
  simp [deliver]

theorem addId_some {ids : List String} {id : String} (h : id ≠ "") : addId ids (some id) = withId ids id := by
  have hgiven : truthy (some id) = some id := truthy_eq_some.2 ⟨rfl, h⟩
  simp only [addId, hgiven, withId]

theorem mem_withId {ids : List String} {id id' : String} : id' ∈ withId ids id ↔ id' ∈ ids ∨ id' = id := by
  unfold withId
  split
  · rename_i hold
    constructor
    · exact .inl
    · rintro (h | rfl)
      · exact h
      · exact hold
  · simp

theorem empty_notMem_addId {ids : List String} {id : Option String} (h : "" ∉ ids) : "" ∉ addId ids id := by
  unfold addId
  split
  · exact h
  · rename_i id' hid
    obtain ⟨-, hne⟩ := truthy_eq_some.1 hid
    intro hmem
    obtain hold | rfl := mem_withId.1 hmem
    · exact h hold
    · exact hne rfl

/-- What a message must be for the two to go on together: the one who delivers has an id, and an assignment that names a
new agent names its task. -/
def NamesDesk (desks : Desks) (m : OfficeMessage) : Prop :=
  (m.kind = .handoff ∨ m.kind = .review → m.body.assignedTo.getD m.author ≠ "") ∧
    (m.kind = .assignment → ∀ pic, truthy m.body.pic = some pic → truthy m.body.taskId = none → pic ∈ desks.keys)

/-- The list of the agents is the list of the desks, and no desk is without an id. -/
def IdsAreDesks (messages : List OfficeMessage) : Prop :=
  agentIdsInOrder messages = (deriveAgentDesks messages).keys ∧ "" ∉ (deriveAgentDesks messages).keys

theorem agree_deliver (hempty : "" ∉ desks.keys) :
    (addId desks.keys (some (m.body.assignedTo.getD m.author)) = (deliver desks m).keys ∧ "" ∉ (deliver desks m).keys) ↔
      m.body.assignedTo.getD m.author ≠ "" := by
  rw [keys_deliver]
  constructor
  · rintro ⟨-, hnone⟩ hid
    exact hnone (mem_withId.2 (.inr hid.symm))
  · intro hid
    refine ⟨addId_some hid, fun hmem => ?_⟩
    obtain hold | heq := mem_withId.1 hmem
    · exact hempty hold
    · exact hid heq.symm

/-- One message: the ids and the desks go on together just when the message names its desk. -/
theorem agree_reduce (hempty : "" ∉ desks.keys) :
    (m.ids.foldl addId desks.keys = (reduce desks m).keys ∧ "" ∉ (reduce desks m).keys) ↔ NamesDesk desks m := by
  obtain ⟨author, kind, body⟩ := m
  cases kind with
  | assignment =>
      simp only [OfficeMessage.ids, reduce, NamesDesk, List.foldl_cons, List.foldl_nil]
      cases hpic : truthy body.pic with
      | none =>
          simpa [addId, hpic] using hempty
      | some pic =>
          obtain ⟨-, hne⟩ := truthy_eq_some.1 hpic
          cases htask : truthy body.taskId with
          | none =>
              simp only [addId, hpic]
              constructor
              · rintro ⟨hsame, -⟩
                refine ⟨by simp, fun _ pic' hpic' _ => ?_⟩
                obtain rfl := Option.some.inj hpic'
                by_contra hnew
                rw [if_neg hnew] at hsame
                simp at hsame
              · rintro ⟨-, hold⟩
                exact ⟨if_pos (hold trivial pic rfl trivial), hempty⟩
          | some taskId =>
              simp only [addId, hpic, OrderedMap.keys_modify, keys_ensure]
              refine iff_of_true ⟨rfl, fun hmem => ?_⟩ ⟨by simp, by simp⟩
              obtain hold | heq := mem_withId.1 hmem
              · exact hempty hold
              · exact hne heq.symm
  | stepStatus =>
      simp only [OfficeMessage.ids, reduce, NamesDesk, List.foldl_cons, List.foldl_nil]
      cases hid : truthy body.assignedTo with
      | none =>
          simpa [addId, hid] using hempty
      | some id =>
          obtain ⟨-, hne⟩ := truthy_eq_some.1 hid
          simp only [addId, hid, OrderedMap.keys_modify, keys_endConsult, keys_ensure]
          refine iff_of_true ⟨rfl, fun hmem => ?_⟩ ⟨by simp, by simp⟩
          obtain hold | heq := mem_withId.1 hmem
          · exact hempty hold
          · exact hne heq.symm
  | handoff =>
      refine (agree_deliver hempty).trans ?_
      simp [NamesDesk]
  | review =>
      refine (agree_deliver hempty).trans ?_
      simp [NamesDesk]
  | milestone =>
      have hkeys : (reduce desks ⟨author, .milestone, body⟩).keys = desks.keys := by
        simp only [reduce]
        split
        · split
          · exact desks.keys_map _
          · rfl
        · rfl
      rw [hkeys]
      exact iff_of_true ⟨rfl, hempty⟩ ⟨by simp, by simp⟩
  | consult =>
      simp only [OfficeMessage.ids, reduce, keys_consultEnd, List.foldl_cons, List.foldl_nil]
      exact iff_of_true ⟨trivial, empty_notMem_addId (empty_notMem_addId hempty)⟩ ⟨by simp, by simp⟩
  | ceo =>
      exact iff_of_true ⟨rfl, hempty⟩ ⟨by simp, by simp⟩
  | other =>
      exact iff_of_true ⟨rfl, hempty⟩ ⟨by simp, by simp⟩

end Keys

/-! ### Every run -/

/-- All along a list of messages the agents that are named are the desks, just when each message names its desk. -/
theorem ids_are_desks_iff (messages : List OfficeMessage) :
    (∀ past, past <+: messages → IdsAreDesks past) ↔
      ∀ past m later, messages = past ++ m :: later → NamesDesk (deriveAgentDesks past) m := by
  constructor
  · rintro hagree past m later rfl
    have hpast := hagree past (List.prefix_append _ _)
    have hnext := hagree (past ++ [m]) ⟨later, by simp⟩
    unfold IdsAreDesks at hnext
    rw [agentIdsInOrder_append, deriveAgentDesks_append, hpast.1] at hnext
    exact (agree_reduce hpast.2).1 hnext
  · intro hnames past hpast
    induction past using List.reverseRecOn with
    | nil =>
        exact ⟨rfl, by simp [deriveAgentDesks]⟩
    | append_singleton past m ih =>
        obtain ⟨later, hlater⟩ := hpast
        have hsplit : messages = past ++ m :: later := by simp [← hlater]
        obtain ⟨hids, hempty⟩ := ih ⟨m :: later, hsplit.symm⟩
        unfold IdsAreDesks
        rw [agentIdsInOrder_append, deriveAgentDesks_append, hids]
        exact (agree_reduce hempty).2 (hnames past m later hsplit)

/-- A handoff whose row names nobody. -/
def strayHandoff : OfficeMessage :=
  ⟨"dev", .handoff, .ofDict [("task_title", .str "Demo"), ("step_title", .str ""), ("message", .str "done"),
    ("assigned_to", .str "")]⟩

/-- The empty text is no missing field: the desk without an id is made, and no agent is listed. -/
theorem ids_are_not_desks : ¬ ∀ messages : List OfficeMessage, (∀ m ∈ messages, m.Projected samplePython) →
    IdsAreDesks messages := by
  intro hall
  have hprojected : strayHandoff.Projected samplePython :=
    ⟨[("task_title", .str "Demo"), ("message", .str "done")], _, rfl, rfl⟩
  obtain ⟨hids, -⟩ := hall [strayHandoff] (by simpa using hprojected)
  exact absurd hids (by decide)

end ProjectManager.Web
