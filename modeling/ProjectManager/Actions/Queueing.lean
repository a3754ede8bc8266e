import ProjectManager.Actions.Redaction

/-!
# Which calls touch the queue

Of the stages of a call on a gateway only the queueing itself issues a call that touches the approval queue; all
others go through whatever rules their caller sets for the queue (`LeavesQueue`).  From that follows what a whole
`enqueue_for_approval`, run by itself, has done (`enqueueForApproval_queues`): it has appended one row and answers
with its number, or it has left the queue alone and answers with something else.
-/

namespace ProjectManager

open Process

/-- The call does not touch the approval queue. -/
def GateCall.LeavesQueue : GateCall → Prop
  | .enqueue .. => False
  | .transitionIfPending .. => False
  | .setStatus .. => False
  | _ => True

/-- The result of a call that has queued nothing. -/
def GatewayResult.Unqueued (r : GatewayResult) : Prop :=
  r.status ≠ .pendingApproval

section Stages

variable {py : Python} {H : GateCall → Prop} (hH : ∀ c, c.LeavesQueue → H c)

include hH

theorem only_record {a : Action} {tool verdict reason rationale result : String} {dryRun : Bool} {α : Type}
    {F : α → Prop} {r : α} (hr : F r) :
    ((Gateway.record py a tool verdict reason rationale dryRun result).bind fun _ => Prog.ret r).Only H F :=
  ⟨hH _ trivial, fun _ => hr⟩

theorem only_recordRaise {a : Action} {tool verdict reason rationale result msg : String} {dryRun : Bool} {α : Type}
    {F : α → Prop} :
    ((Gateway.record py a tool verdict reason rationale dryRun result).bind fun _ => Prog.raise msg).Only H F :=
  ⟨hH _ trivial, fun _ => trivial⟩

theorem only_runVerdict {g : Gateway} {a : Action} {tool rationale : String} {hasHandler approved : Bool}
    {v : BlockVerdict} :
    (g.runVerdict py a tool rationale hasHandler approved v).Only H GatewayResult.Unqueued := by
  unfold Gateway.runVerdict
  split
  · exact only_recordRaise hH
  unfold Gateway.runPassed
  split
  · exact only_recordRaise hH
  split
  · exact only_record hH (by simp [GatewayResult.Unqueued])
  refine ⟨hH _ trivial, fun admitted => ?_⟩
  cases admitted with
  | false =>
      exact only_recordRaise hH
  | true =>
      refine (Prog.Only.ofExcept (actionDedupKey py a)).bind fun key _ => ⟨hH _ trivial, fun claimed => ?_⟩
      cases claimed with
      | false =>
          exact only_record hH (by simp [GatewayResult.Unqueued])
      | true =>
          change (Gateway.runHandler py a tool key rationale hasHandler).Only H GatewayResult.Unqueued
          unfold Gateway.runHandler
          split
          · exact ⟨hH _ trivial, fun _ => only_record hH (by simp [GatewayResult.Unqueued])⟩
          refine ⟨hH _ trivial, fun outcome => ?_⟩
          cases outcome with
          | error exc =>
              exact ⟨hH _ trivial, fun _ => only_recordRaise hH⟩
          | ok summary =>
              exact only_record hH (by simp [GatewayResult.Unqueued])

theorem only_executeApproved {g : Gateway} {action : Val} {hasHandler : Bool} {rationale : String} :
    (g.executeApproved py action hasHandler rationale).Only H GatewayResult.Unqueued := by
  unfold Gateway.executeApproved
  refine (Prog.Only.ofExcept (Gateway.checkedAction py action "un-run")).bind fun a _ => ?_
  refine (Prog.Only.ofExcept (actionLabel py a)).bind fun tool _ => ?_
  exact ⟨hH _ trivial, fun files => only_runVerdict hH⟩

theorem only_claimSlot {stype : SemanticType} {date : String} {max left : ℕ} :
    (Gateway.claimSlot stype date max left).Only H fun _ => True := by
  induction left with
  | zero =>
      exact trivial
  | succ left ih =>
      refine ⟨hH _ trivial, fun claimed => ?_⟩
      cases claimed with
      | true => exact trivial
      | false => exact ih

/-- The trust ladder claims slots at most. -/
theorem only_autoRationale {g : Gateway} {a : Action} {origin : Origin} {hasHandler : Bool} :
    (g.autoRationale py a origin hasHandler).Only H fun _ => True := by
  unfold Gateway.autoRationale
  split
  · unfold Gateway.tryAutoApprove
    split
    · exact trivial
    refine (Prog.Only.ofExcept _).bind fun decision _ => ?_
    split
    · exact trivial
    unfold Gateway.claimDailySlot
    split
    · exact trivial
    split
    · exact trivial
    split
    · exact trivial
    exact ⟨hH _ trivial, fun date => (only_claimSlot hH).bind fun _ _ => trivial⟩
  · exact trivial

end Stages

/-! ### A call run by itself -/

section Alone

variable {py : Python} {w : GateWorld}

/-- Calls that do not touch the queue leave it as it is. -/
theorem approvals_handle {c : GateCall} (hc : c.LeavesQueue) : (c.handle py w).2.approvals = w.approvals := by
  cases c with
  | claim key =>
      simp only [GateCall.handle]
      split <;> rfl
  | enqueue | transitionIfPending | setStatus => cases hc
  | _ => rfl

/-- The queue after an action is queued. -/
theorem last_enqueue {a : Action} {reason rationale : String} :
    ((GateCall.enqueue a reason rationale).handle py w).2.approvals.last = w.approvals.last + 1 := by
  simp only [GateCall.handle]
  split
  · rename_i approvals hinsert
    exact (Table.Auto.insert?_eq_some hinsert).2.2
  · rename_i hinsert
    obtain ⟨row, hrow, hid⟩ := List.mem_map.1 (Table.Auto.insert?_eq_none.1 hinsert)
    have hid : row.id = w.approvals.last + 1 := hid
    have := w.approvals.le_last row hrow
    omega

/-- A program that does not touch the queue, run by itself. -/
theorem approvals_run {α : Type} {F : α → Prop} {p : GateProg α} (h : p.Only GateCall.LeavesQueue F) :
    (p.run (GateCall.handle py) w).2.approvals = w.approvals ∧ ∀ a, (p.run (GateCall.handle py) w).1 = .ok a → F a :=
  h.run_keeps (I := fun w' : GateWorld => w'.approvals = w.approvals) (fun _ _ hc hw => (approvals_handle hc).trans hw) rfl

/-- The end of a call that has queued an action for a reason, or has not. -/
inductive QueueEnd (py : Python) (action : Val) (reason rationale : String) (w : GateWorld) :
    Except String GatewayResult → GateWorld → Prop where
  | left {out : Except String GatewayResult} {w' : GateWorld} (happrovals : w'.approvals = w.approvals)
      (hout : ∀ r, out = .ok r → r.Unqueued) : QueueEnd py action reason rationale w out w'
  | queued {a : Action} {r : GatewayResult} {w' : GateWorld} (haction : action = .dict a)
      (hrows : w'.approvals.rows = w.approvals.rows ++
        [⟨w.approvals.last + 1, redactEntries py a, reason, .pending, rationale⟩])
      (hlast : w'.approvals.last = w.approvals.last + 1) (hstatus : r.status = .pendingApproval)
      (hid : r.approvalId = some (w.approvals.last + 1)) : QueueEnd py action reason rationale w (.ok r) w'

/-- Every run of the program by itself ends so. -/
def Queues (py : Python) (action : Val) (reason rationale : String) (p : GateProg GatewayResult) : Prop :=
  ∀ w w' : GateWorld, w'.approvals = w.approvals →
    QueueEnd py action reason rationale w (p.run (GateCall.handle py) w').1 (p.run (GateCall.handle py) w').2

variable {action : Val} {reason rationale : String}

theorem Queues.of_run {p : GateProg GatewayResult} (h : Queues py action reason rationale p)
    {out : Except String GatewayResult} {w' : GateWorld} (hrun : p.run (GateCall.handle py) w = (out, w')) :
    QueueEnd py action reason rationale w out w' := by
  have hend := h w w rfl
  rw [hrun] at hend
  exact hend

theorem Queues.of_only {p : GateProg GatewayResult} (h : p.Only GateCall.LeavesQueue GatewayResult.Unqueued) :
    Queues py action reason rationale p :=
  fun _ _ hw => .left ((approvals_run h).1.trans hw) (approvals_run h).2

/-- A program that goes on after one that does not touch the queue. -/
theorem Queues.after {α : Type} {F : α → Prop} {p : GateProg α} {f : α → GateProg GatewayResult}
    (h : p.Only GateCall.LeavesQueue F) (hf : ∀ a, Queues py action reason rationale (f a)) :
    Queues py action reason rationale (p.bind f) := by
  intro w w' hw
  rw [Prog.run_bind]
  cases hrun : p.run (GateCall.handle py) w' with
  | mk out w₁ =>
      have hw₁ : w₁.approvals = w.approvals := by
        have hkept : (p.run (GateCall.handle py) w').2.approvals = w'.approvals := (approvals_run h).1
        rw [hrun] at hkept
        exact hkept.trans hw
      cases out with
      | ok a => exact hf a w w₁ hw₁
      | error msg => exact .left hw₁ fun r hr => by cases hr

theorem Queues.ofExcept {α : Type} {x : Except String α} {f : α → GateProg GatewayResult}
    (hf : ∀ a, x = .ok a → Queues py action reason rationale (f a)) :
    Queues py action reason rationale ((Prog.ofExcept x).bind f) := by
  cases x with
  | ok a => exact hf a rfl
  | error msg => exact fun w w' hw => .left hw fun r hr => by cases hr

/-- The queueing itself. -/
theorem queues_enqueue {a : Action} {tool : String} :
    Queues py (.dict a) reason rationale (Gateway.enqueue py a tool reason rationale) := by
  intro w w' hw
  have hrows : ((GateCall.enqueue a reason rationale).handle py w').2.approvals.rows = _ := rows_enqueue
  have hlast : ((GateCall.enqueue a reason rationale).handle py w').2.approvals.last = _ := last_enqueue
  rw [hw] at hrows hlast
  exact .queued rfl hrows hlast rfl (congrArg (fun t => some (Table.Auto.last t + 1)) hw)

/-- `enqueue_for_approval` has queued the action under its reason, or has left the queue alone. -/
theorem queues_enqueueForApproval {g : Gateway} {senderId transport chatId : String} {hasHandler : Bool} :
    Queues py action reason rationale
      (g.enqueueForApproval py action reason rationale senderId transport chatId hasHandler) := by
  unfold Gateway.enqueueForApproval
  refine Queues.ofExcept fun a ha => Queues.ofExcept fun tool _ => ?_
  obtain rfl := dict_of_checked ha
  refine Queues.after (F := fun _ => True) ⟨trivial, fun _ => trivial⟩ fun files => ?_
  split
  · exact .of_only (only_record (fun _ hc => hc) (by simp [GatewayResult.Unqueued]))
  · refine Queues.after (only_autoRationale fun _ hc => hc) fun auto => ?_
    cases auto with
    | some auto => exact .of_only (only_executeApproved fun _ hc => hc)
    | none => exact queues_enqueue

end Alone

end ProjectManager
