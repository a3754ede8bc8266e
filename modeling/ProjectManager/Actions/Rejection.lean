import ProjectManager.Actions.Contract

/-!
# Rejections

`approve` moves an approval from pending by compare-and-set; its failure path and `reject` overwrite the
status whatever it is.  `approvalClaims`: as long as no rejection overwrites an approved status, every
approval has at most one deciding call at a time, and keeps the status that the call has given it.
`rejection_final` says what then holds of a rejected approval; `rejection_overtaken` is a run in which a
rejection comes while the handler is about to run.
-/

namespace ProjectManager

open Process

/-- The status of an approval. -/
def GateWorld.status? (w : GateWorld) (id : ℕ) : Option ApprovalStatus :=
  (w.approvals.find? id).map fun row => row.status

/-- A rejection is written only while the approval is there and not approved. -/
def RejectsOpen (pool : GatePool) (_ : GateRequest) : GateCall → Prop
  | .setStatus id .rejected => pool.world.status? id = some .pending ∨ pool.world.status? id = some .rejected
  | _ => True

/-- The call decides the approval: it has moved it from pending, and no handler has run through yet. -/
def Deciding (request : GateRequest) (log : GateLog) (id : ℕ) : Prop :=
  (∃ g, request = .approve g id) ∧ request.Decided log ∧ Vain log

/-- A handler is invoked for the approval. -/
def InvokesFor (id : ℕ) (ev : GateEvent) : Prop :=
  ∃ g a, ev.party = .approve g id ∧ ev.entry.1 = .invoke a

/-- A handler has run through for the approval. -/
def ExecutedFor (id : ℕ) (ev : GateEvent) : Prop :=
  ∃ g a summary, ev.party = .approve g id ∧ ev.entry = ⟨.invoke a, .ok summary⟩

/-- What the finality of rejections asks of a run. -/
structure RejectionFinal (py : Python) (events : List GateEvent) (pool : GatePool) : Prop where
  /-- after a rejection no handler is invoked for the approval -/
  stops : events.Pairwise fun ev ev' => ∀ id, ev.entry.1 = .setStatus id .rejected → ¬ InvokesFor id ev'
  /-- a rejected approval was never executed -/
  unexecuted : ∀ id, pool.world.status? id = some .rejected → ∀ ev ∈ events, ¬ ExecutedFor id ev
  /-- a decided approval becomes pending again only by the call that decided it, which has failed -/
  reopened : ∀ past ev later id, events = past ++ ev :: later → ev.world.status? id ≠ none →
    ev.world.status? id ≠ some .pending → (ev.entry.1.handle py ev.world).2.status? id = some .pending →
    ev.entry.1 = .setStatus id .pending ∧ Deciding ev.party ev.before id ∧ ev.world.status? id = some .approved ∧
      ∃ earlier win between, past = earlier ++ win :: between ∧ win.party = ev.party ∧
        win.entry = ⟨.transitionIfPending id .approved, true⟩ ∧
        ∀ ev' ∈ between, ev'.world.status? id = some .approved

section Rejection

variable {py : Python} {comes : GateRequest → Prop} {events : List GateEvent} {pool : GatePool} {w : GateWorld}
  {log : GateLog} {id : ℕ}

/-! ### Statuses -/

theorem status?_updateApprovals {p : PendingApproval → Bool} {status : ApprovalStatus} :
    (w.updateApprovals p status).status? id =
      (w.approvals.find? id).map fun row => if p row then status else row.status := by
  unfold GateWorld.status? GateWorld.updateApprovals
  rw [Table.Auto.find?_updateWhere, Option.map_map]
  congr 1
  funext row
  by_cases hp : p row = true <;> simp [hp]

/-- What a call can do to the status of an approval. -/
theorem status?_handle (py : Python) (w : GateWorld) (id : ℕ) (c : GateCall) :
    (c.handle py w).2.status? id = w.status? id ∨
      w.status? id = none ∧ (c.handle py w).2.status? id = some .pending ∨
      (∃ status, c = .transitionIfPending id status ∧ w.status? id = some .pending ∧
        (c.handle py w).2.status? id = some status) ∨
      ∃ status, c = .setStatus id status ∧ w.status? id ≠ none ∧ (c.handle py w).2.status? id = some status := by
  have hfound : ∀ {row : PendingApproval}, w.approvals.find? id = some row → row.id = id ∧
      w.status? id = some row.status := by
    intro row hrow
    exact ⟨(Table.Auto.find?_eq_some.1 hrow).2, by simp [GateWorld.status?, hrow]⟩
  have hmissing : w.approvals.find? id = none → w.status? id = none := by
    intro hnone
    simp [GateWorld.status?, hnone]
  cases c with
  | enqueue action reason rationale =>
      simp only [GateCall.handle]
      split
      · rename_i approvals hinsert
        obtain ⟨-, hrows, -⟩ := Table.Auto.insert?_eq_some hinsert
        cases hrow : w.approvals.find? id with
        | some row =>
            refine .inl ?_
            have hsame : approvals.find? id = some row := by
              unfold Table.Auto.find? at hrow ⊢
              simp [hrows, List.find?_append, hrow]
            simp [GateWorld.status?, hsame, hrow]
        | none =>
            have hlast : approvals.find? id = if w.approvals.last + 1 = id then
                some ⟨w.approvals.last + 1, redactEntries py action, reason, .pending, rationale⟩ else none := by
              unfold Table.Auto.find? at hrow ⊢
              rw [hrows, List.find?_append, hrow]
              by_cases hid : w.approvals.last + 1 = id <;> simp [hid]
            by_cases hid : w.approvals.last + 1 = id
            · refine .inr (.inl ⟨hmissing hrow, ?_⟩)
              simp [GateWorld.status?, hlast, hid]
            · refine .inl ?_
              simp [GateWorld.status?, hlast, hid, hrow]
      · exact .inl rfl
  | transitionIfPending id' status =>
      simp only [GateCall.handle, status?_updateApprovals]
      cases hrow : w.approvals.find? id with
      | none =>
          exact .inl (hmissing hrow).symm
      | some row =>
          obtain ⟨hid, hstatus⟩ := hfound hrow
          by_cases hmatch : row.id = id' ∧ row.status = .pending
          · refine .inr (.inr (.inl ⟨status, ?_, ?_, ?_⟩))
            · rw [← hmatch.1, hid]
            · rw [hstatus, hmatch.2]
            · simp [hmatch.1, hmatch.2]
          · refine .inl ?_
            rw [hstatus]
            simp only [Option.map_some, Bool.and_eq_true, decide_eq_true_eq, if_neg hmatch]
  | setStatus id' status =>
      simp only [GateCall.handle, status?_updateApprovals]
      cases hrow : w.approvals.find? id with
      | none =>
          exact .inl (hmissing hrow).symm
      | some row =>
          obtain ⟨hid, hstatus⟩ := hfound hrow
          by_cases hmatch : row.id = id'
          · refine .inr (.inr (.inr ⟨status, ?_, ?_, ?_⟩))
            · rw [← hmatch, hid]
            · simp [hstatus]
            · simp [hmatch]
          · refine .inl ?_
            rw [hstatus]
            simp [hmatch]
  | claim key =>
      refine .inl ?_
      simp only [GateCall.handle]
      split <;> rfl
  | _ =>
      exact .inl rfl

/-- A status that is written is there. -/
theorem status?_setStatus (py : Python) {status : ApprovalStatus} (h : w.status? id ≠ none) :
    ((GateCall.setStatus id status).handle py w).2.status? id = some status := by
  obtain ⟨row, hrow⟩ : ∃ row, w.approvals.find? id = some row := by
    rw [← Option.ne_none_iff_exists']
    intro hnone
    exact h (by simp [GateWorld.status?, hnone])
  simp only [GateCall.handle, status?_updateApprovals, hrow, Option.map_some, (Table.Auto.find?_eq_some.1 hrow).2,
    decide_true, if_true]

/-- The compare-and-set succeeds on a pending approval. -/
theorem pending_of_transition {status : ApprovalStatus}
    (h : ((GateCall.transitionIfPending id status).handle py w).1 = true) :
    w.status? id = some .pending ∧
      ((GateCall.transitionIfPending id status).handle py w).2.status? id = some status := by
  simp only [GateCall.handle, List.any_eq_true, Bool.and_eq_true, decide_eq_true_eq] at h
  obtain ⟨row, hrow, hid, hstatus⟩ := h
  have hfind : w.approvals.find? id = some row := Table.Auto.find?_eq_some.2 ⟨hrow, hid⟩
  constructor
  · simp [GateWorld.status?, hfind, hstatus]
  · simp only [GateCall.handle, status?_updateApprovals]
    simp [hfind, hid, hstatus]

/-! ### Deciding calls -/

theorem Vain.of_append {more : GateLog} (h : Vain (log ++ more)) : Vain log :=
  fun x hx => h x (List.mem_append_left _ hx)

/-- A call comes to decide by its compare-and-set only. -/
theorem Deciding.last {request : GateRequest} {c : GateCall} {r : c.Resp}
    (h : Deciding request (log ++ [⟨c, r⟩]) id) : Deciding request log id ∨
      (⟨c, r⟩ : Σ c : GateCall, c.Resp) = ⟨.transitionIfPending id .approved, true⟩ := by
  obtain ⟨⟨g, rfl⟩, ⟨row, rest, hlog⟩, hvain⟩ := h
  rcases List.eq_nil_or_concat rest with rfl | ⟨rest, last, rfl⟩
  · have hlog : log ++ [⟨c, r⟩] = [⟨.getApproval id, some row⟩] ++ [⟨.transitionIfPending id .approved, true⟩] := hlog
    exact .inr (List.cons.inj (List.append_inj' hlog rfl).2).1
  · have hlog : log ++ [⟨c, r⟩] =
        (⟨.getApproval id, some row⟩ :: ⟨.transitionIfPending id .approved, true⟩ :: rest) ++ [last] := by
      simpa using hlog
    exact .inl ⟨⟨g, rfl⟩, ⟨row, rest, (List.append_inj' hlog rfl).1⟩, hvain.of_append⟩

/-- Who writes a status. -/
theorem keeps_setStatus {request : GateRequest} {status : ApprovalStatus}
    (h : request.Keeps py log (.setStatus id status)) :
    status = .pending ∧ Deciding request log id ∨ status = .rejected := by
  obtain ⟨-, ⟨happrove, rfl, hdecided, hvain⟩ | ⟨-, rfl, -⟩⟩ := h
  · exact .inl ⟨rfl, happrove, hdecided, hvain⟩
  · exact .inr rfl

/-- The approvals as things that deciding calls hold. -/
def approvalClaims (py : Python) (comes : GateRequest → Prop) : Claims (gateRuns py comes RejectsOpen) ℕ where
  taken := fun w id => w.status? id = some .approved
  holds := Deciding
  keeps := GateRequest.Keeps py
  fresh := by
    rintro p id ⟨⟨g, rfl⟩, ⟨row, rest, hlog⟩, -⟩
    cases hlog
  gain := by
    intro p log w e id _ hdeciding
    rcases hdeciding.last with hbefore | hlast
    · exact .inl hbefore
    · obtain rfl : e = .transitionIfPending id .approved := congrArg Sigma.fst hlast
      simp only [Sigma.mk.injEq, heq_eq_eq, true_and] at hlast
      have hwon : ((GateCall.transitionIfPending id .approved).handle py w).1 = true := hlast
      refine .inr ?_
      rw [(pending_of_transition hwon).1]
      simp
  held := by
    intro p log w e id _ htaken hdeciding
    rcases hdeciding.last with hbefore | hlast
    · have hstatus := htaken hbefore
      rcases status?_handle py w id e with hsame | ⟨hnone, -⟩ | ⟨-, -, hpending, -⟩ | ⟨status, rfl, -⟩
      · exact hsame.trans hstatus
      · rw [hnone] at hstatus
        cases hstatus
      · rw [hpending] at hstatus
        cases hstatus
      · exact absurd (hdeciding.2.2 _ (List.mem_append_right _ (List.mem_singleton.2 rfl))) (by simp [weighty])
    · obtain rfl : e = .transitionIfPending id .approved := congrArg Sigma.fst hlast
      simp only [Sigma.mk.injEq, heq_eq_eq, true_and] at hlast
      have hwon : ((GateCall.transitionIfPending id .approved).handle py w).1 = true := hlast
      exact (pending_of_transition hwon).2
  giveBack := by
    intro pool p log e id hallows hkeeps htaken hgone
    rcases status?_handle py pool.world id e with
      hsame | ⟨hnone, -⟩ | ⟨-, -, hpending, -⟩ | ⟨status, rfl, -⟩
    · exact absurd (hsame.trans htaken) hgone
    · rw [hnone] at htaken
      cases htaken
    · rw [hpending] at htaken
      cases htaken
    · rcases keeps_setStatus hkeeps with ⟨rfl, hdeciding⟩ | rfl
      · refine ⟨hdeciding, fun hafter => ?_⟩
        exact absurd (hafter.2.2 _ (List.mem_append_right _ (List.mem_singleton.2 rfl))) (by simp [weighty])
      · rcases hallows with hpending | hrejected
        · rw [hpending] at htaken
          cases htaken
        · rw [hrejected] at htaken
          cases htaken
  ext := by
    rintro w w' id ⟨_, _, _, _, rfl⟩
    exact Iff.rfl
  starts := fun pool p prog h => (gateRuns_starts pool p prog h).mono (fun _ _ _ => trivial) fun _ _ _ => trivial
  forks := fun e p prog h => (gateRuns_forks e p prog h).mono (fun _ _ _ => trivial) fun _ _ _ => trivial

/-- A call that invokes a handler for the approval decides it. -/
theorem deciding_of_invoke {g : Gateway} {a : Action} (h : (GateRequest.approve g id).Keeps py log (.invoke a)) :
    Deciding (.approve g id) log id := by
  obtain ⟨-, hdecided, key, -, hreserved⟩ := h
  exact ⟨⟨g, rfl⟩, hdecided, hreserved.vain⟩

/-! ### Runs -/

variable (h : (gateRuns py comes RejectsOpen).Chronicle gateIdle events pool)

include h in
/-- A deciding call finds the approval approved. -/
theorem approved_of_deciding {ev : GateEvent} (hev : ev ∈ events) (hdeciding : Deciding ev.party ev.before id) :
    ev.world.status? id = some .approved :=
  Claims.taken_of_chronicle (C := approvalClaims py comes) (fun _ h => h) h ev hev id hdeciding

include h in
/-- Once written, a rejection stays. -/
theorem rejected_of_chronicle {ev : GateEvent} (hev : ev ∈ events) (hreject : ev.entry.1 = .setStatus id .rejected) :
    pool.world.status? id = some .rejected := by
  induction h with
  | init _ =>
      cases hev
  | @run events w front back p e prog log hprev hallows ih =>
      rcases List.mem_append.1 hev with hev | hev
      · have hbefore : w.status? id = some .rejected := ih hev
        have hkeeps : p.Keeps py log e := Claims.keeps_next (C := approvalClaims py comes) (fun _ h => h) hprev.reach
          (q := ⟨p, .call e prog, log⟩) (by simp) rfl
        rcases status?_handle py w id e with hsame | ⟨hnone, -⟩ | ⟨-, -, hpending, -⟩ | ⟨status, rfl, -, hnow⟩
        · exact hsame.trans hbefore
        · rw [hnone] at hbefore
          cases hbefore
        · rw [hpending] at hbefore
          cases hbefore
        · rcases keeps_setStatus hkeeps with ⟨-, hdeciding⟩ | rfl
          · have happroved : w.status? id = some .approved :=
              (Claims.ok_of_reach (C := approvalClaims py comes) (fun _ h => h) hprev.reach).taken
                ⟨p, .call (.setStatus id status) prog, log⟩ (by simp) id hdeciding
            rw [happroved] at hbefore
            cases hbefore
          · exact hnow
      · obtain rfl := List.mem_singleton.1 hev
        obtain rfl : e = .setStatus id .rejected := hreject
        refine status?_setStatus py ?_
        rcases hallows with hpending | hrejected
        · simp [hpending]
        · simp [hrejected]
  | start _ _ ih =>
      exact ih hev
  | leave _ ih =>
      exact ih hev
  | ext _ hext ih =>
      obtain ⟨_, _, _, _, rfl⟩ := hext
      exact ih hev

include h in
/-- A call that makes a decided approval pending is the one that has decided it. -/
theorem reopened_by_decider {past later : List GateEvent} {ev : GateEvent} (hsplit : events = past ++ ev :: later)
    (hthere : ev.world.status? id ≠ none) (hdecided : ev.world.status? id ≠ some .pending)
    (hpending : (ev.entry.1.handle py ev.world).2.status? id = some .pending) :
    ev.entry.1 = .setStatus id .pending ∧ Deciding ev.party ev.before id := by
  have hkeeps := keeps_of_chronicle h ev (by simp [hsplit])
  rcases status?_handle py ev.world id ev.entry.1 with
    hsame | ⟨hnone, -⟩ | ⟨-, -, hbefore, -⟩ | ⟨status, heq, -, hnow⟩
  · exact absurd (hsame.symm.trans hpending) hdecided
  · exact absurd hnone hthere
  · exact absurd hbefore hdecided
  · obtain rfl : status = .pending := Option.some.inj (hnow.symm.trans hpending)
    rw [heq] at hkeeps
    rcases keeps_setStatus hkeeps with ⟨-, hdeciding⟩ | hrejected
    · exact ⟨heq, hdeciding⟩
    · cases hrejected

include h in
/-- Since its compare-and-set, the approval of a deciding call was approved. -/
theorem approved_since {past later : List GateEvent} {ev : GateEvent} (hsplit : events = past ++ ev :: later)
    (hdeciding : Deciding ev.party ev.before id) :
    ∃ earlier win between, past = earlier ++ win :: between ∧ win.party = ev.party ∧
      win.entry = ⟨.transitionIfPending id .approved, true⟩ ∧
      ∀ ev' ∈ between, ev'.world.status? id = some .approved := by
  obtain ⟨pool', hprev, -, -, -, q, hq, hparty, hlog, -⟩ := h.at_event hsplit
  obtain ⟨⟨g, happrove⟩, hwon, hvain⟩ := hdeciding
  rw [happrove] at hwon
  obtain ⟨row, rest, hbefore⟩ := hwon
  have hqlog : q.log = [⟨.getApproval id, some row⟩] ++ ⟨.transitionIfPending id .approved, true⟩ :: rest :=
    hlog.trans hbefore
  obtain ⟨earlier, win, between, hpast, hwin, -, hentry, hbetween⟩ :=
    Claims.taken_since (C := approvalClaims py comes) (fun _ h => h) hprev (k := id) q hq _ _ _ hqlog (by
      intro more hmore
      obtain ⟨rest', rfl⟩ := hmore
      refine ⟨⟨g, hparty.trans happrove⟩, ?_, ?_⟩
      · rw [hparty, happrove]
        exact ⟨row, more, rfl⟩
      · have hvain : Vain ([⟨.getApproval id, some row⟩] ++ ⟨.transitionIfPending id .approved, true⟩ :: more ++ rest') := by
          simpa [hbefore] using hvain
        exact hvain.of_append)
  exact ⟨earlier, win, between, hpast, hwin.trans hparty, hentry, hbetween⟩

end Rejection

/-- In every run in which a rejection is written only while its approval is pending or rejected, a rejection
is final. -/
theorem rejection_final {py : Python} {comes : GateRequest → Prop} {events : List GateEvent} {pool : GatePool}
    (h : (gateRuns py comes RejectsOpen).Chronicle gateIdle events pool) : RejectionFinal py events pool := by
  have hdeciding : ∀ ev ∈ events, ∀ id, InvokesFor id ev → Deciding ev.party ev.before id := by
    rintro ev hev id ⟨g, a, hparty, hcall⟩
    have hkeeps := keeps_of_chronicle h ev hev
    rw [hparty, hcall] at hkeeps
    rw [hparty]
    exact deciding_of_invoke hkeeps
  constructor
  case stops =>
    refine pairwise_of_split fun past ev later hsplit ev' hev' id hreject hinvoke => ?_
    have hev : ev ∈ events := by simp [hsplit]
    have happroved := approved_of_deciding h hev (hdeciding ev hev id hinvoke)
    obtain ⟨pool', hprev, hworld, -⟩ := h.at_event hsplit
    have hrejected := rejected_of_chronicle hprev hev' hreject
    rw [hworld, happroved] at hrejected
    cases hrejected
  case unexecuted =>
    rintro id hrejected ev hev ⟨g, a, summary, hparty, hentry⟩
    have hdecides := hdeciding ev hev id ⟨g, a, hparty, congrArg Sigma.fst hentry⟩
    have hspends : (approvalClaims py comes).Spends ev id := by
      refine ⟨hdecides, fun hafter => ?_, ?_⟩
      · have hweighty := hafter.2.2 ev.entry (by simp)
        rw [hentry] at hweighty
        cases hweighty
      · have happroved := approved_of_deciding h hev hdecides
        have hcall : ev.entry.1 = .invoke a := congrArg Sigma.fst hentry
        rw [hcall]
        exact happroved
    have hspent := Claims.spent_of_chronicle (fun _ h => h) h hev hspends
    have happroved : pool.world.status? id = some .approved := hspent.taken
    rw [happroved] at hrejected
    cases hrejected
  case reopened =>
    intro past ev later id hsplit hthere hdecided hpending
    obtain ⟨hcall, hdecides⟩ := reopened_by_decider h hsplit hthere hdecided hpending
    exact ⟨hcall, hdecides, approved_of_deciding h (by simp [hsplit]) hdecides, approved_since h hsplit hdecides⟩

/-- A question for the sample action, which the gateway queues. -/
def sampleQuestion : GateRequest :=
  .enqueueForApproval sampleGateway
    (.dict [("type", .str "telegram_send"), ("chat_id", .str "42"), ("text", .str "hi"), ("dedup_hint", .str "d1")])
    "from a chat" "reply" "" "" "" true

/-- A test for `RejectsOpen`. -/
def rejectsOpen (pool : GatePool) (_ : GateRequest) : GateCall → Bool
  | .setStatus id .rejected =>
      decide (pool.world.status? id = some .pending) || decide (pool.world.status? id = some .rejected)
  | _ => true

theorem rejectsOpen_sound (pool : GatePool) (p : GateRequest) (e : GateCall) (h : rejectsOpen pool p e = true) :
    RejectsOpen pool p e := by
  unfold rejectsOpen at h
  split at h
  · simpa [RejectsOpen] using h
  · rename_i hother
    unfold RejectsOpen
    split
    · exact absurd rfl (hother _)
    · exact trivial

/-- A run in which an approval fails, is pending again, and is rejected. -/
def rejectedRun : List GateEvent × GatePool :=
  gateSchedule samplePython (fun _ => True) RejectsOpen rejectsOpen sampleGateWorld
    [.come sampleQuestion, .call 0 10, .change "2026-01-01" fun _ => .error "timeout", .come (.approve sampleGateway 1),
      .call 1 20, .come (.reject sampleGateway 1), .call 2 10]

theorem rejection_final_sample :
    rejectedRun.2.world.status? 1 = some .rejected ∧ RejectionFinal samplePython rejectedRun.1 rejectedRun.2 := by
  have hrun : (gateRuns samplePython (fun _ => True) RejectsOpen).Chronicle gateIdle rejectedRun.1 rejectedRun.2 :=
    chronicle_gateSchedule rejectsOpen_sound _ fun _ _ => trivial
  exact ⟨by decide +kernel, rejection_final hrun⟩

/-- A run in which the rejection comes when the approval is about to run its handler. -/
def overtakenRun : List GateEvent × GatePool :=
  gateSchedule samplePython (fun _ => True) (fun _ _ _ => True) (fun _ _ _ => true) sampleGateWorld
    [.come sampleQuestion, .call 0 10, .come (.approve sampleGateway 1), .call 1 5, .come (.reject sampleGateway 1),
      .call 2 10, .call 1 10]

/-- A test for `ExecutedFor`. -/
def executedFor (id : ℕ) : GateEvent → Bool
  | ⟨_, .approve _ id', _, .invoke _, .ok _⟩ => id' == id
  | _ => false

theorem executedFor_sound {id : ℕ} {ev : GateEvent} (h : executedFor id ev = true) : ExecutedFor id ev := by
  unfold executedFor at h
  split at h
  · rename_i g id' log a summary
    obtain rfl := beq_iff_eq.1 h
    exact ⟨g, a, summary, rfl, rfl⟩
  · cases h

/-- Whatever comes when, a rejection is not final: in the sample run the handler runs after it. -/
theorem rejection_overtaken : ¬ ∀ (comes : GateRequest → Prop) (events : List GateEvent) (pool : GatePool),
    (gateRuns samplePython comes fun _ _ _ => True).Chronicle gateIdle events pool →
      RejectionFinal samplePython events pool := by
  intro hall
  have hrun : (gateRuns samplePython (fun _ => True) fun _ _ _ => True).Chronicle gateIdle overtakenRun.1
      overtakenRun.2 := chronicle_gateSchedule (fun _ _ _ _ => trivial) _ fun _ _ => trivial
  have hrejected : overtakenRun.2.world.status? 1 = some .rejected := by
    decide +kernel
  have hexecuted : overtakenRun.1.any (executedFor 1) = true := by
    decide +kernel
  obtain ⟨ev, hev, htest⟩ := List.any_eq_true.1 hexecuted
  exact (hall _ _ _ hrun).unexecuted 1 hrejected ev hev (executedFor_sound htest)

end ProjectManager
