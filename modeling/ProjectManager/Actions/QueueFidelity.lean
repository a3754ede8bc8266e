import ProjectManager.Actions.Queueing

/-!
# What comes back from the queue

An action is queued in its redacted form, and `approve` hands the handler the row as it stands.  So the handler
gets the submitted action exactly when redaction leaves the action as it is (`queue_fidelity`), which is more than
that no secret is found in it: `contains_secret` lets an empty or a nested value pass under a key that names a
secret, and `redact` masks it.
-/

namespace ProjectManager

open Process

/-! ### Actions that redaction leaves alone -/

mutual

/-- Nothing in the value is masked: only the mask stands under a key that names a secret, and no other text has
a secret. -/
def Val.Unmasked (py : Python) : Val → Prop
  | .dict entries => EntriesUnmasked py entries
  | .list items => ItemsUnmasked py items
  | .str text => findSecret py text = none
  | _ => True

/-- The entries of a dict that redaction leaves alone. -/
def EntriesUnmasked (py : Python) : List (String × Val) → Prop
  | [] => True
  | (key, v) :: rest =>
      (if keyIsSecret py key = true then v = .str redacted else v.Unmasked py) ∧ EntriesUnmasked py rest

/-- The items of a list that redaction leaves alone. -/
def ItemsUnmasked (py : Python) : List Val → Prop
  | [] => True
  | v :: rest => v.Unmasked py ∧ ItemsUnmasked py rest

end

section

variable {py : Python}

mutual

theorem redact_eq_iff (hstar : py.isDecimal '*' = false) : ∀ v : Val, redact py v = v ↔ v.Unmasked py
  | .dict entries => by
      simp only [redact, Val.dict.injEq, Val.Unmasked]
      exact redactEntries_eq_iff hstar entries
  | .list items => by
      simp only [redact, Val.list.injEq, Val.Unmasked]
      exact redactItems_eq_iff hstar items
  | .str text => by
      simp only [redact, Val.str.injEq, Val.Unmasked]
      exact redactText_eq_iff hstar
  | .none => iff_of_true rfl trivial
  | .bool _ => iff_of_true rfl trivial
  | .int _ => iff_of_true rfl trivial
  | .float _ => iff_of_true rfl trivial

theorem redactEntries_eq_iff (hstar : py.isDecimal '*' = false) :
    ∀ entries : List (String × Val), redactEntries py entries = entries ↔ EntriesUnmasked py entries
  | [] => iff_of_true rfl trivial
  | (key, v) :: rest => by
      have hrest := redactEntries_eq_iff hstar rest
      by_cases hkey : keyIsSecret py key = true
      · simp only [redactEntries, EntriesUnmasked, hkey, if_true, List.cons.injEq, Prod.mk.injEq, true_and, hrest]
        exact and_congr_left' eq_comm
      · simp only [redactEntries, EntriesUnmasked, hkey, Bool.false_eq_true, if_false, List.cons.injEq,
          Prod.mk.injEq, true_and, hrest, redact_eq_iff hstar v]

theorem redactItems_eq_iff (hstar : py.isDecimal '*' = false) :
    ∀ items : List Val, redactItems py items = items ↔ ItemsUnmasked py items
  | [] => iff_of_true rfl trivial
  | v :: rest => by
      simp only [redactItems, ItemsUnmasked, List.cons.injEq, redact_eq_iff hstar v, redactItems_eq_iff hstar rest]

end

/-! ### What a call queues and runs -/

/-- The action of a call that may queue it. -/
def GateRequest.submitted : GateRequest → Option Val
  | execute _ action _ _ => some action
  | enqueueForApproval _ action _ _ _ _ _ _ => some action
  | _ => none

/-- Only the action itself is queued. -/
def GateCall.QueuesOnly (action : Val) : GateCall → Prop
  | .enqueue a _ _ => action = .dict a
  | _ => True

variable {action : Val}

theorem queuesOnly_of_leaves {c : GateCall} (h : c.LeavesQueue) : c.QueuesOnly action := by
  cases c with
  | enqueue a reason rationale => cases h
  | _ => trivial

/-- A stage that does not touch the queue queues nothing else. -/
theorem submits_of_only {α : Type} {F : α → Prop} {p : GateProg α} (h : p.Only (GateCall.QueuesOnly action) F) :
    p.Only (GateCall.QueuesOnly action) fun _ => True :=
  h.mono fun _ hc => hc

theorem submits_ask {α : Type} {c : GateCall} {f : c.Resp → GateProg α} (hc : c.QueuesOnly action)
    (hf : ∀ r, (f r).Only (GateCall.QueuesOnly action) fun _ => True) :
    ((gate c).bind f).Only (GateCall.QueuesOnly action) fun _ => True :=
  ⟨hc, hf⟩

theorem submits_ofExcept {α β : Type} {x : Except String α} {f : α → GateProg β}
    (hf : ∀ a, x = .ok a → (f a).Only (GateCall.QueuesOnly action) fun _ => True) :
    ((Prog.ofExcept x).bind f).Only (GateCall.QueuesOnly action) fun _ => True := by
  cases x with
  | ok a =>
      exact hf a rfl
  | error msg =>
      exact trivial

/-- The trust ladder runs the action or queues it. -/
theorem submits_ladder {g : Gateway} {a : Action} {tool reason rationale : String} {origin : Origin} {hasHandler : Bool}
    (h : action = .dict a) :
    ((g.autoRationale py a origin hasHandler).bind fun auto =>
      match auto with
      | some auto => g.executeApproved py action hasHandler auto
      | none => Gateway.enqueue py a tool reason rationale).Only (GateCall.QueuesOnly action) fun _ => True := by
  refine (only_autoRationale fun _ => queuesOnly_of_leaves).bind fun auto _ => ?_
  cases auto with
  | some auto => exact submits_of_only (only_executeApproved fun _ => queuesOnly_of_leaves)
  | none => exact ⟨h, fun _ => ⟨trivial, fun _ => trivial⟩⟩

theorem submits_execute {g : Gateway} {hasHandler : Bool} {rationale : String} :
    (g.execute py action hasHandler rationale).Only (GateCall.QueuesOnly action) fun _ => True := by
  unfold Gateway.execute
  refine submits_ofExcept fun a ha => submits_ofExcept fun tool _ => ?_
  refine submits_ask trivial fun files => ?_
  refine submits_ofExcept fun interrupt _ => ?_
  split
  · exact submits_ladder (dict_of_checked ha)
  · exact submits_of_only (only_runVerdict fun _ => queuesOnly_of_leaves)

theorem submits_enqueueForApproval {g : Gateway} {reason rationale senderId transport chatId : String}
    {hasHandler : Bool} :
    (g.enqueueForApproval py action reason rationale senderId transport chatId hasHandler).Only
      (GateCall.QueuesOnly action) fun _ => True := by
  unfold Gateway.enqueueForApproval
  refine submits_ofExcept fun a ha => submits_ofExcept fun tool _ => ?_
  refine submits_ask trivial fun files => ?_
  split
  · exact only_record (fun _ => queuesOnly_of_leaves) trivial
  · exact submits_ladder (dict_of_checked ha)

/-- What a call queues is what was submitted, and what `approve` runs is what it has read. -/
def GateRequest.Relays (request : GateRequest) (log : GateLog) : GateCall → Prop
  | .enqueue a _ _ => ∀ action, request.submitted = some action → action = .dict a
  | .invoke a => ∀ g id, request = .approve g id → ∃ row rest, log = ⟨.getApproval id, some row⟩ :: rest ∧ row.action = a
  | _ => True

theorem relays_approve (g : Gateway) (id : ℕ) :
    Guarded (GateRequest.Relays (.approve g id)) (g.approve py id) [] := by
  have hP : OnlyInvoke (GateRequest.Relays (.approve g id)) := by
    intro log c hc
    cases c with
    | invoke a =>
        exact absurd rfl (hc a)
    | enqueue a reason rationale =>
        intro action h
        cases h
    | _ =>
        exact trivial
  unfold Gateway.approve
  refine guarded_ask hP (by simp) fun row => ?_
  cases row with
  | none =>
      exact trivial
  | some row =>
      refine guarded_ask hP (by simp) fun won => ?_
      cases won with
      | false =>
          exact trivial
      | true =>
          have hrun : Guarded (GateRequest.Relays (.approve g id))
              (g.executeApproved py (.dict row.action) true s!"approved (id={id})")
              ([] ++ [⟨.getApproval id, some row⟩] ++ [⟨.transitionIfPending id .approved, true⟩]) := by
            refine guarded_executeApproved hP fun a files hdict _ _ _ key => ?_
            intro g' id' happrove
            obtain ⟨-, rfl⟩ := GateRequest.approve.inj happrove
            exact ⟨row, _, rfl, Val.dict.inj hdict⟩
          exact hrun.catchWith fun log msg _ => guarded_ask hP (by simp) fun _ => trivial

/-- Every call on a gateway relays actions as they are. -/
theorem relays_prog (request : GateRequest) : Guarded request.Relays (request.prog py) [] := by
  have hqueues : ∀ {α : Type} {prog : GateProg α} {action : Val}, request.submitted = some action →
      prog.Only (GateCall.QueuesOnly action) (fun _ => True) → Guarded request.Relays prog [] := by
    intro α prog action hsub h
    refine (h.follows (P := request.Relays) ?_ []).mono (fun _ _ _ => trivial) fun _ _ _ => trivial
    intro log c hc
    cases c with
    | enqueue a reason rationale =>
        intro action' haction'
        rw [hsub] at haction'
        rw [← Option.some.inj haction']
        exact hc
    | invoke a =>
        rintro g id rfl
        cases hsub
    | _ =>
        exact trivial
  have hother : request.submitted = none → (∀ g id, request ≠ .approve g id) →
      Guarded request.Relays (request.prog py) [] := by
    intro hsub happrove
    refine Prog.Follows.of_forall fun log c => ?_
    cases c with
    | enqueue a reason rationale =>
        intro action haction
        rw [hsub] at haction
        cases haction
    | invoke a =>
        exact fun g id h => absurd h (happrove g id)
    | _ =>
        exact trivial
  cases request with
  | execute g action hasHandler rationale =>
      exact (hqueues rfl submits_execute).bind fun _ _ => trivial
  | enqueueForApproval g action reason rationale senderId transport chatId hasHandler =>
      exact (hqueues rfl submits_enqueueForApproval).bind fun _ _ => trivial
  | approve g id =>
      exact (relays_approve g id).bind fun _ _ => trivial
  | executeApproved g action hasHandler rationale =>
      exact hother rfl (by simp)
  | reject g id =>
      exact hother rfl (by simp)

/-! ### Rows keep their actions -/

/-- The entry shows the action of an approval. -/
def Shows (py : Python) (id : ℕ) (a : Action) : (Σ c : GateCall, c.Resp) → Prop
  | ⟨.enqueue b _ _, n⟩ => n = id ∧ redactEntries py b = a
  | ⟨.getApproval n, some row⟩ => n = id ∧ row.action = a
  | _ => False

/-- The queue holds the action under the id. -/
def HoldsAction (w : GateWorld) (id : ℕ) (a : Action) : Prop :=
  ∃ row ∈ w.approvals.rows, row.id = id ∧ row.action = a

variable {w : GateWorld} {id : ℕ} {a b : Action}

theorem HoldsAction.unique (h : HoldsAction w id a) (h' : HoldsAction w id b) : a = b := by
  obtain ⟨row, hrow, hid, rfl⟩ := h
  obtain ⟨row', hrow', hid', rfl⟩ := h'
  rw [Table.eq_of_key w.approvals.nodup hrow hrow' (hid.trans hid'.symm)]

/-- No call changes the action of a row, and a call shows only what is in the queue then. -/
theorem holdsAction_handle (py : Python) (c : GateCall)
    (h : HoldsAction w id a ∨ Shows py id a ⟨c, (c.handle py w).1⟩) : HoldsAction (c.handle py w).2 id a := by
  have hupdate : ∀ (p : PendingApproval → Bool) (status : ApprovalStatus), HoldsAction w id a →
      HoldsAction (w.updateApprovals p status) id a := by
    rintro p status ⟨row, hrow, hid, haction⟩
    refine ⟨_, List.mem_map_of_mem hrow, ?_⟩
    split
    · exact ⟨hid, haction⟩
    · exact ⟨hid, haction⟩
  cases c with
  | enqueue b reason rationale =>
      unfold HoldsAction
      rw [rows_enqueue]
      obtain ⟨row, hrow, hrest⟩ | ⟨hid, haction⟩ := h
      · exact ⟨row, List.mem_append_left _ hrow, hrest⟩
      · exact ⟨_, List.mem_append_right _ List.mem_cons_self, hid, haction⟩
  | getApproval n =>
      obtain h | hshown := h
      · exact h
      · simp only [GateCall.handle] at hshown
        cases hfind : w.approvals.find? n with
        | none =>
            rw [hfind] at hshown
            cases hshown
        | some row =>
            rw [hfind] at hshown
            obtain ⟨hrow, hid⟩ := Table.Auto.find?_eq_some.1 hfind
            exact ⟨row, hrow, hid.trans hshown.1, hshown.2⟩
  | transitionIfPending n status =>
      exact hupdate _ status (h.resolve_right not_false)
  | setStatus n status =>
      exact hupdate _ status (h.resolve_right not_false)
  | claim key =>
      have hsame : ((GateCall.claim key).handle py w).2.approvals = w.approvals := by
        simp only [GateCall.handle]
        split <;> rfl
      unfold HoldsAction
      rw [hsame]
      exact h.resolve_right not_false
  | _ =>
      exact h.resolve_right not_false

variable {comes : GateRequest → Prop} {allows : GatePool → GateRequest → GateCall → Prop} {events : List GateEvent}
  {pool : GatePool}

/-- What a call of a run shows is in the queue at its end. -/
theorem holdsAction_of_shows (h : (gateRuns py comes allows).Chronicle gateIdle events pool) :
    ∀ ev ∈ events, Shows py id a ev.entry → HoldsAction pool.world id a := by
  induction h with
  | init _ =>
      intro ev hev
      cases hev
  | @run events w front back p e k log _ _ ih =>
      intro ev hev hshows
      obtain hev | hev := List.mem_append.1 hev
      · exact holdsAction_handle py e (Or.inl (ih ev hev hshows))
      · obtain rfl := List.mem_singleton.1 hev
        exact holdsAction_handle py e (Or.inr hshows)
  | start _ _ ih =>
      exact ih
  | leave _ ih =>
      exact ih
  | ext _ hext ih =>
      obtain ⟨monotonic, localDate, files, handler, rfl⟩ := hext
      exact ih

/-- Every call of a run relays actions as they are. -/
theorem relays_of_chronicle (h : (gateRuns py comes allows).Chronicle gateIdle events pool) :
    ∀ ev ∈ events, ev.party.Relays ev.before ev.entry.1 := by
  refine h.obeyed (Q := fun _ _ _ => True) (X := fun _ _ _ => True) (fun _ h => h) ?_ ?_
  · rintro pool request prog ⟨-, rfl⟩
    exact relays_prog request
  · intro e request prog hfork
    cases hfork

end

/-- The handler of an approved action gets the submitted action, redacted. -/
theorem handed_eq_redacted {py : Python} {comes : GateRequest → Prop}
    {allows : GatePool → GateRequest → GateCall → Prop} {events : List GateEvent} {pool : GatePool}
    (h : (gateRuns py comes allows).Chronicle gateIdle events pool) {ev ev' : GateEvent} (hev : ev ∈ events)
    (hev' : ev' ∈ events) {a queued : Action} {reason rationale : String} {id : ℕ}
    (hsubmitted : ev.party.submitted = some (.dict a)) (hqueued : ev.entry = ⟨.enqueue queued reason rationale, id⟩)
    {g : Gateway} {b : Action} (happrove : ev'.party = .approve g id) (hinvoke : ev'.entry.1 = .invoke b) :
    b = redactEntries py a := by
  -- the row holds the submitted action, redacted
  have hrow : HoldsAction pool.world id (redactEntries py a) := by
    have hrelays := relays_of_chronicle h ev hev
    rw [hqueued] at hrelays
    obtain rfl := Val.dict.inj (hrelays _ hsubmitted)
    apply holdsAction_of_shows h ev hev
    rw [hqueued]
    exact ⟨rfl, rfl⟩
  -- the handler gets what the call has read from the row
  have hread : HoldsAction pool.world id b := by
    have hrelays := relays_of_chronicle h ev' hev'
    rw [hinvoke] at hrelays
    obtain ⟨row, rest, hlog, haction⟩ := hrelays g id happrove
    have hlog : ev'.before = [] ++ ⟨.getApproval id, some row⟩ :: rest := hlog
    obtain ⟨_, _, ev₀, _, _, hev₀, _, _, hentry⟩ := h.before_event (fun _ h => h) hev' hlog
    apply holdsAction_of_shows h ev₀ hev₀
    rw [hentry]
    exact ⟨rfl, haction⟩
  exact hread.unique hrow

/-- The handler of an approved action gets the action that was submitted, exactly when nothing in it is masked. -/
theorem queue_fidelity {py : Python} (hstar : py.isDecimal '*' = false) {comes : GateRequest → Prop}
    {allows : GatePool → GateRequest → GateCall → Prop} {events : List GateEvent} {pool : GatePool}
    (h : (gateRuns py comes allows).Chronicle gateIdle events pool) {ev ev' : GateEvent} (hev : ev ∈ events)
    (hev' : ev' ∈ events) {a queued : Action} {reason rationale : String} {id : ℕ}
    (hsubmitted : ev.party.submitted = some (.dict a)) (hqueued : ev.entry = ⟨.enqueue queued reason rationale, id⟩)
    {g : Gateway} {b : Action} (happrove : ev'.party = .approve g id) (hinvoke : ev'.entry.1 = .invoke b) :
    b = a ↔ EntriesUnmasked py a := by
  rw [handed_eq_redacted h hev hev' hsubmitted hqueued happrove hinvoke]
  exact redactEntries_eq_iff hstar a

/-! ### A mail with a cookie -/

/-- A mail with a field of its own. -/
def cookieMail (cookie : Val) : Action :=
  [("type", .str "email_send"), ("to", .str "a@b.c"), ("body", .str "xin chào"), ("cookie", cookie)]

/-- The call that submits the mail. -/
def submitMail (cookie : Val) : GateRequest :=
  .execute sampleGateway (.dict (cookieMail cookie)) true "report"

/-- Only the mail is submitted, and its approval decided. -/
def mailComes (cookie : Val) (request : GateRequest) : Prop :=
  request = submitMail cookie ∨ request = .approve sampleGateway 1

/-- The mail is submitted, and approved. -/
def approvedMail (cookie : Val) : List GateEvent × GatePool :=
  gateSchedule samplePython (mailComes cookie) (fun _ _ _ => True) (fun _ _ _ => true) sampleGateWorld
    [.come (submitMail cookie), .call 0 9, .come (.approve sampleGateway 1), .call 1 9]

/-- The event queues an action under the id 1. -/
def queuesFirst (ev : GateEvent) : Bool :=
  match ev.party, ev.entry with
  | .execute .., ⟨.enqueue .., n⟩ => n == 1
  | _, _ => false

/-- The event runs a handler for the approval. -/
def runsApproved (ev : GateEvent) : Bool :=
  match ev.party, ev.entry with
  | .approve .., ⟨.invoke _, _⟩ => true
  | _, _ => false

theorem chronicle_approvedMail (cookie : Val) :
    (gateRuns samplePython (mailComes cookie) fun _ _ _ => True).Chronicle gateIdle (approvedMail cookie).1
      (approvedMail cookie).2 :=
  chronicle_gateSchedule (fun _ _ _ _ => trivial) sampleGateWorld (by simp [mailComes])

/-- The event that queues the mail, and the one that runs its handler. -/
theorem approvedMail_runs {cookie : Val} (hqueues : (approvedMail cookie).1.any queuesFirst = true)
    (hruns : (approvedMail cookie).1.any runsApproved = true) :
    ∃ ev ∈ (approvedMail cookie).1, ∃ ev' ∈ (approvedMail cookie).1, ∃ queued reason rationale b,
      ev.party.submitted = some (.dict (cookieMail cookie)) ∧ ev.entry = ⟨.enqueue queued reason rationale, 1⟩ ∧
        ev'.party = .approve sampleGateway 1 ∧ ev'.entry.1 = .invoke b := by
  obtain ⟨ev, hev, htest⟩ := List.any_eq_true.1 hqueues
  obtain ⟨ev', hev', htest'⟩ := List.any_eq_true.1 hruns
  have hparty := comes_of_chronicle (chronicle_approvedMail cookie) ev hev
  have hparty' := comes_of_chronicle (chronicle_approvedMail cookie) ev' hev'
  unfold queuesFirst at htest
  unfold runsApproved at htest'
  split at htest
  · rename_i hexecute hentry
    split at htest'
    · rename_i happrove hinvoke
      rw [beq_iff_eq] at htest
      subst htest
      obtain hsubmit | hsubmit := hparty
      · obtain hsubmit' | hsubmit' := hparty'
        · rw [happrove] at hsubmit'
          cases hsubmit'
        · refine ⟨ev, hev, ev', hev', _, _, _, _, ?_, hentry, hsubmit', congrArg Sigma.fst hinvoke⟩
          rw [hsubmit]
          rfl
      · rw [hexecute] at hsubmit
        cases hsubmit
    · cases htest'
  · cases htest

/-- The text under the key `cookie`. -/
def cookieText (a : Action) : String :=
  match a.lookup "cookie" with
  | some (.str text) => text
  | _ => "no text"

/-- The mail comes back with the mask in the place of its empty cookie. -/
theorem queue_masks_empty :
    ¬ ∀ ev ∈ (approvedMail (.str "")).1, ∀ ev' ∈ (approvedMail (.str "")).1, ∀ a queued reason rationale id g b,
      ev.party.submitted = some (.dict a) → ev.entry = ⟨.enqueue queued reason rationale, id⟩ →
        ev'.party = .approve g id → ev'.entry.1 = .invoke b → b = a := by
  intro hfidelity
  obtain ⟨hqueues, hruns⟩ : (approvedMail (.str "")).1.any queuesFirst = true ∧
      (approvedMail (.str "")).1.any runsApproved = true := by
    decide +kernel
  obtain ⟨ev, hev, ev', hev', queued, reason, rationale, b, hsubmitted, hqueued, happrove, hinvoke⟩ :=
    approvedMail_runs hqueues hruns
  have hsame := hfidelity ev hev ev' hev' _ queued reason rationale 1 _ b hsubmitted hqueued happrove hinvoke
  have hredacted := handed_eq_redacted (chronicle_approvedMail _) hev hev' hsubmitted hqueued happrove hinvoke
  have hne : cookieText (redactEntries samplePython (cookieMail (.str ""))) ≠ cookieText (cookieMail (.str "")) := by
    decide +kernel
  exact hne (congrArg cookieText (hredacted.symm.trans hsame))

/-- With the mask itself for a cookie the mail comes back as it was submitted. -/
theorem queue_fidelity_mail : ∃ ev ∈ (approvedMail (.str redacted)).1, ∃ ev' ∈ (approvedMail (.str redacted)).1,
    ∃ queued reason rationale b, ev.party.submitted = some (.dict (cookieMail (.str redacted))) ∧
      ev.entry = ⟨.enqueue queued reason rationale, 1⟩ ∧ ev'.party = .approve sampleGateway 1 ∧
        ev'.entry.1 = .invoke b ∧ b = cookieMail (.str redacted) := by
  obtain ⟨hqueues, hruns⟩ : (approvedMail (.str redacted)).1.any queuesFirst = true ∧
      (approvedMail (.str redacted)).1.any runsApproved = true := by
    decide +kernel
  obtain ⟨ev, hev, ev', hev', queued, reason, rationale, b, hsubmitted, hqueued, happrove, hinvoke⟩ :=
    approvedMail_runs hqueues hruns
  refine ⟨ev, hev, ev', hev', queued, reason, rationale, b, hsubmitted, hqueued, happrove, hinvoke, ?_⟩
  rw [queue_fidelity rfl (chronicle_approvedMail _) hev hev' hsubmitted hqueued happrove hinvoke]
  have hplain : ∀ key text, keyIsSecret samplePython key = false ∧ findSecret samplePython text = none →
      if keyIsSecret samplePython key = true then Val.str text = .str redacted else
        (Val.str text).Unmasked samplePython := by
    intro key text h
    rw [if_neg (by simp [h.1])]
    exact h.2
  refine ⟨hplain _ _ ?_, hplain _ _ ?_, hplain _ _ ?_, ?_, trivial⟩
  · decide +kernel
  · decide +kernel
  · decide +kernel
  · rw [if_pos (by decide +kernel)]

end ProjectManager
