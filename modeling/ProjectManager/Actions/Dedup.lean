import ProjectManager.Actions.Contract

/-!
# At most once

The reservation of an action's key, over any number of calls on any gateways that share one `DedupStore`.
No two calls ever hold one key (`keyClaims`), although `release` deletes a key without asking whose it is.
`runs_at_most_once`: of all calls with one key at most one runs its handler through, and a call whose
handler raised, or that had none, has given the key back when it ends.
-/

namespace ProjectManager

open Process

/-- A handler has run through, for an action with this key. -/
def Succeeds (py : Python) (key : String) : (Σ c : GateCall, c.Resp) → Prop
  | ⟨.invoke a, .ok _⟩ => actionDedupKey py a = .ok key
  | _ => False

instance (py : Python) (key : String) : DecidablePred (Succeeds py key)
  | ⟨.invoke a, .ok _⟩ => inferInstanceAs (Decidable (actionDedupKey py a = .ok key))
  | ⟨.invoke _, .error _⟩ | ⟨.files, _⟩ | ⟨.enqueue .., _⟩ | ⟨.getApproval _, _⟩ | ⟨.transitionIfPending .., _⟩ |
    ⟨.setStatus .., _⟩ | ⟨.claim _, _⟩ | ⟨.release _, _⟩ | ⟨.today, _⟩ | ⟨.checkRateLimit _, _⟩ | ⟨.record _, _⟩ =>
      .isFalse id

/-- The call has reserved the key of its action in vain: the handler raised, or there is none. -/
inductive Futile (py : Python) (key : String) (request : GateRequest) (before : GateLog) :
    (Σ c : GateCall, c.Resp) → Prop where
  | raised {a : Action} {exc : String} (hkey : actionDedupKey py a = .ok key) :
      Futile py key request before ⟨.invoke a, .error exc⟩
  | noHandler (hhandler : request.hasHandler = false) (hreserved : Reserved (before ++ [⟨.claim key, true⟩]) key) :
      Futile py key request before ⟨.claim key, true⟩

section Dedup

variable {py : Python} {comes : GateRequest → Prop} {allows : GatePool → GateRequest → GateCall → Prop}
  {events : List GateEvent} {pool : GatePool} {w : GateWorld} {log : GateLog} {key : String}

/-! ### One call -/

/-- Keys come by claims and go by releases. -/
theorem mem_seenKeys_handle (py : Python) (c : GateCall) :
    key ∈ (c.handle py w).2.seenKeys ↔ c = .claim key ∨ key ∈ w.seenKeys ∧ c ≠ .release key := by
  cases c with
  | claim k =>
      by_cases hk : k ∈ w.seenKeys
      · have hsame : ((GateCall.claim k).handle py w).2 = w := by simp [GateCall.handle, hk]
        rw [hsame]
        constructor
        · exact fun h => .inr ⟨h, by simp⟩
        · rintro (h | h)
          · obtain rfl := GateCall.claim.inj h
            exact hk
          · exact h.1
      · have hadded : ((GateCall.claim k).handle py w).2.seenKeys = k :: w.seenKeys := by simp [GateCall.handle, hk]
        simp only [hadded, List.mem_cons, GateCall.claim.injEq, ne_eq, reduceCtorEq, not_false_eq_true, and_true]
        rw [eq_comm]
  | release k =>
      simp only [GateCall.handle, List.mem_filter, decide_eq_true_eq, reduceCtorEq, GateCall.release.injEq, ne_eq,
        false_or]
      rw [eq_comm]
  | enqueue action reason rationale =>
      have hsame : ((GateCall.enqueue action reason rationale).handle py w).2.seenKeys = w.seenKeys := by
        simp only [GateCall.handle]
        split <;> rfl
      simp [hsame]
  | _ =>
      simp [GateCall.handle, GateWorld.updateApprovals]

/-- A claim that is granted finds the key free. -/
theorem claim_granted (h : ((GateCall.claim key).handle py w).1 = true) : key ∉ w.seenKeys := by
  intro hmem
  simp [GateCall.handle, hmem] at h

/-- A call that claims a free key gets it. -/
theorem claim_free (h : key ∉ w.seenKeys) : ((GateCall.claim key).handle py w).1 = true := by
  simp [GateCall.handle, h]

theorem Holding.unique {key' : String} (h : Holding log key) (h' : Holding log key') : key = key' := by
  have hreserved : ∀ {log : GateLog} {key key' : String}, Reserved log key → Reserved log key' → key = key' := by
    rintro _ key key' ⟨before, n, -, rfl⟩ ⟨before', n', -, heq⟩
    have heq : (before ++ [⟨.checkRateLimit n, true⟩]) ++ [⟨.claim key, true⟩] =
        (before' ++ [⟨.checkRateLimit n', true⟩]) ++ [⟨.claim key', true⟩] := by simpa using heq
    have hlast := (List.cons.inj (List.append_inj' heq rfl).2).1
    simp only [Sigma.mk.injEq, GateCall.claim.injEq] at hlast
    exact hlast.1
  have hmixed : ∀ {log : GateLog} {key key' : String}, Reserved log key → ¬ Failed log key' := by
    rintro _ key key' hkey ⟨before, a, exc, -, rfl⟩
    cases congrArg Sigma.fst hkey.last.1
  rcases h with h | h
  · rcases h' with h' | h'
    · exact hreserved h h'
    · exact absurd h' (hmixed h)
  · rcases h' with h' | h'
    · exact absurd h (hmixed h')
    · obtain ⟨before, a, exc, hbefore, rfl⟩ := h
      exact hreserved hbefore h'.last.1

/-! ### Keys are held by one call -/

/-- The keys as things that calls hold. -/
def keyClaims (py : Python) (comes : GateRequest → Prop) (allows : GatePool → GateRequest → GateCall → Prop) :
    Claims (gateRuns py comes allows) String where
  taken := fun w key => key ∈ w.seenKeys
  holds := fun _ log key => Holding log key
  keeps := GateRequest.Keeps py
  fresh := fun _ key => Early.nil.settled key
  gain := by
    rintro p log w e key - (h | h)
    · obtain ⟨heq, -⟩ := h.last
      obtain rfl : e = .claim key := congrArg Sigma.fst heq
      simp only [Sigma.mk.injEq, heq_eq_eq, true_and] at heq
      have hgranted : ((GateCall.claim key).handle py w).1 = true := heq
      exact .inr (claim_granted hgranted)
    · exact .inl (.inl h.last.1)
  held := by
    rintro p log w e key - htaken (h | h)
    · obtain ⟨heq, -⟩ := h.last
      obtain rfl : e = .claim key := congrArg Sigma.fst heq
      exact (mem_seenKeys_handle py _).2 (.inl rfl)
    · obtain ⟨hreserved, a, exc, heq⟩ := h.last
      obtain rfl : e = .invoke a := congrArg Sigma.fst heq
      exact (mem_seenKeys_handle py _).2 (.inr ⟨htaken (.inl hreserved), by simp⟩)
  giveBack := by
    intro pool p log e key _ hkeeps htaken hgone
    have hrelease : e = .release key := by
      by_contra hne
      exact hgone ((mem_seenKeys_handle py e).2 (.inr ⟨htaken, hne⟩))
    subst hrelease
    have hsettled : Settled (log ++ [⟨.release key, ()⟩]) := settled_append (by simp) (by simp)
    exact ⟨hkeeps.1, hsettled key⟩
  ext := by
    rintro w w' key ⟨_, _, _, _, rfl⟩
    rfl
  starts := fun pool p prog h => (gateRuns_starts pool p prog h).mono (fun _ _ _ => trivial) fun _ _ _ => trivial
  forks := fun e p prog h => (gateRuns_forks e p prog h).mono (fun _ _ _ => trivial) fun _ _ _ => trivial

/-- A handler that runs through spends the key. -/
theorem spends_of_succeeds {ev : GateEvent} (hkeeps : ev.party.Keeps py ev.before ev.entry.1)
    (htaken : ∀ key, Holding ev.before key → key ∈ ev.world.seenKeys) (h : Succeeds py key ev.entry) :
    (keyClaims py comes allows).Spends ev key := by
  obtain ⟨w, p, before, c, r⟩ := ev
  cases c with
  | invoke a =>
      cases r with
      | ok summary =>
          obtain ⟨-, -, key', hkey', hreserved⟩ := hkeeps
          obtain rfl : key' = key := Except.ok.inj (hkey'.symm.trans h)
          have hstays : key' ∈ (GateCall.handle py (.invoke a) w).2.seenKeys :=
            (mem_seenKeys_handle py _).2 (.inr ⟨htaken key' (.inl hreserved), by simp⟩)
          exact ⟨.inl hreserved, settled_invoked key', hstays⟩
      | error exc =>
          exact absurd h id
  | _ =>
      exact absurd h id

/-! ### Keys are given back -/

theorem Reserved.not_failed {key' : String} (h : Reserved log key) : ¬ Failed log key' := by
  rintro ⟨before, a, exc, -, rfl⟩
  cases congrArg Sigma.fst h.last.1

/-- A call that holds a key in vain releases it next. -/
theorem release_of_keeps {request : GateRequest} {c : GateCall} (hkeeps : request.Keeps py log c)
    (h : Failed log key ∨ Reserved log key ∧ request.hasHandler = false) : c = .release key := by
  have hholding : Holding log key := by
    rcases h with h | h
    · exact .inr h
    · exact .inl h.1
  have hlast : ∀ {before : GateLog} {c : GateCall} {r : c.Resp}, log = before ++ [⟨c, r⟩] →
      (∀ key, c ≠ .claim key) → (∀ a, c ≠ .invoke a) → False := by
    rintro before c r rfl hclaim hinvoke
    exact settled_append hclaim hinvoke key hholding
  cases c with
  | claim k =>
      rcases hkeeps with ⟨hearly, -⟩ | ⟨a, before, n, -, -, heq⟩
      · exact absurd hholding (hearly.settled key)
      · exact (hlast heq (by simp) (by simp)).elim
  | invoke a =>
      obtain ⟨hhandler, -, k, -, hreserved⟩ := hkeeps
      rcases h with h | h
      · exact absurd h hreserved.not_failed
      · exact absurd hhandler (by simp [h.2])
  | release k =>
      rw [hholding.unique hkeeps.1]
  | transitionIfPending id status =>
      obtain ⟨-, -, row, heq⟩ := hkeeps
      exact (hlast (heq.trans (List.nil_append _).symm) (by simp) (by simp)).elim
  | setStatus id status =>
      exact absurd hholding (hkeeps.1 key)
  | _ =>
      exact absurd hholding (hkeeps key)

/-- A key that was released is free until the next claim of it is granted. -/
theorem claimed_since (h : (gateRuns py comes allows).Chronicle gateIdle events pool) {past later : List GateEvent}
    {ev : GateEvent} (hsplit : events = past ++ ev :: later) (hrelease : ev.entry = ⟨.release key, ()⟩)
    (hback : key ∈ pool.world.seenKeys) : ∃ ev' ∈ later, ev'.entry = ⟨.claim key, true⟩ := by
  refine h.since (F := fun w => key ∈ w.seenKeys) ?_ ?_ hsplit ?_ hback
  · rintro w w' ⟨_, _, _, _, rfl⟩ hmem
    exact hmem
  · rintro ⟨w, p, before, c, r⟩ hanswer hfree hmem
    rcases (mem_seenKeys_handle py c).1 hmem with rfl | ⟨hmem, -⟩
    · have hgranted : ((GateCall.claim key).handle py w).1 = true := claim_free hfree
      obtain rfl : r = true := Eq.trans hanswer hgranted
      rfl
    · exact absurd hmem hfree
  · intro hmem
    rw [hrelease] at hmem
    have hstill : key ∈ (GateCall.handle py (.release key) ev.world).2.seenKeys := hmem
    rcases (mem_seenKeys_handle py _).1 hstill with heq | ⟨-, hne⟩
    · cases heq
    · exact hne rfl

/-- A call that reserved its key in vain has released it when it ends. -/
theorem released_of_ended (h : (gateRuns py comes allows).Chronicle gateIdle events pool)
    {q : Proc GateRequest GateCall GateCall.Resp} (hq : q ∈ pool.procs) (hended : q.next = none)
    {before after : GateLog} {entry : Σ c : GateCall, c.Resp} (hlog : q.log = before ++ entry :: after)
    (hfutile : Futile py key q.party before entry) :
    ∃ past ev later, events = past ++ ev :: later ∧ ev.party = q.party ∧ ev.before = before ++ [entry] ∧
      ev.entry = ⟨.release key, ()⟩ := by
  have hkeeps : ∀ {ev : GateEvent} {past later : List GateEvent}, events = past ++ ev :: later →
      ev.party.Keeps py ev.before ev.entry.1 := by
    rintro ev past later rfl
    exact keeps_of_chronicle h ev (by simp)
  have hvain : Failed (before ++ [entry]) key ∨ Reserved (before ++ [entry]) key ∧ q.party.hasHandler = false := by
    cases hfutile with
    | @raised a exc hkey =>
        obtain ⟨past, ev, later, hsplit, hparty, hbefore, hentry⟩ := h.logged (fun _ h => h) q hq _ _ _ hlog
        have hinvoke := hkeeps hsplit
        rw [hparty, hbefore, hentry] at hinvoke
        obtain ⟨-, -, key', hkey', hreserved⟩ := hinvoke
        obtain rfl : key = key' := Except.ok.inj (hkey.symm.trans hkey')
        exact .inl ⟨before, a, exc, hreserved, rfl⟩
    | noHandler hhandler hreserved =>
        exact .inr ⟨hreserved, hhandler⟩
  -- a call that still holds its key has not ended
  cases after with
  | nil =>
      have hsettled := settled_of_ended h.reach hq hended key
      rw [hlog] at hsettled
      refine absurd ?_ hsettled
      rcases hvain with hfailed | hreserved
      · exact .inr hfailed
      · exact .inl hreserved.1
  | cons next after =>
      have hlog : q.log = (before ++ [entry]) ++ next :: after := by simp [hlog]
      obtain ⟨past, ev, later, hsplit, hparty, hbefore, hentry⟩ := h.logged (fun _ h => h) q hq _ _ _ hlog
      have hnext := hkeeps hsplit
      rw [hparty, hbefore, hentry] at hnext
      have hrelease := release_of_keeps hnext hvain
      obtain ⟨c, r⟩ := next
      obtain rfl : c = .release key := hrelease
      exact ⟨past, ev, later, hsplit, hparty, hbefore, hentry⟩

end Dedup

/-- In every run of any calls on any gateways over one store, the handlers of the actions with one key run
through at most once.  A call whose handler raised, or that has none, has released the key when it ends,
and the key is taken again only by a later claim. -/
theorem runs_at_most_once {py : Python} {comes : GateRequest → Prop} {allows : GatePool → GateRequest → GateCall → Prop}
    {events : List GateEvent} {pool : GatePool} (h : (gateRuns py comes allows).Chronicle gateIdle events pool)
    (key : String) :
    (events.Pairwise fun ev ev' => ¬ (Succeeds py key ev.entry ∧ Succeeds py key ev'.entry)) ∧
      ∀ q ∈ pool.procs, q.next = none → ∀ before entry after, q.log = before ++ entry :: after →
        Futile py key q.party before entry →
        ∃ past ev later, events = past ++ ev :: later ∧ ev.party = q.party ∧ ev.before = before ++ [entry] ∧
          ev.entry = ⟨.release key, ()⟩ ∧
          (key ∈ pool.world.seenKeys → ∃ ev' ∈ later, ev'.entry = ⟨.claim key, true⟩) := by
  constructor
  · have hspends : ∀ ev ∈ events, Succeeds py key ev.entry → (keyClaims py comes allows).Spends ev key :=
      fun ev hev => spends_of_succeeds (keeps_of_chronicle h ev hev)
        (Claims.taken_of_chronicle (C := keyClaims py comes allows) (fun _ h => h) h ev hev)
    refine (Claims.spent_once (C := keyClaims py comes allows) (fun _ h => h) h).imp_of_mem ?_
    intro ev ev' hev hev' honce hboth
    exact honce key (hspends ev hev hboth.1) (hspends ev' hev' hboth.2)
  · intro q hq hended before entry after hlog hfutile
    obtain ⟨past, ev, later, hsplit, hparty, hbefore, hrelease⟩ := released_of_ended h hq hended hlog hfutile
    exact ⟨past, ev, later, hsplit, hparty, hbefore, hrelease, claimed_since h hsplit hrelease⟩

/-- A sample run: the handler of a first call raises, then that of a second call runs through. -/
def sampleRetry : List GateEvent × GatePool :=
  gateSchedule samplePython (fun _ => True) (fun _ _ _ => True) (fun _ _ _ => true) sampleGateWorld
    [.change "2026-01-01" fun _ => .error "timeout", .come sampleRequest, .call 0 10,
      .change "2026-01-01" fun _ => .ok "sent", .come sampleRequest, .call 1 10]

/-- In the sample run a handler runs through, and only once. -/
theorem runs_at_most_once_sample :
    (∃ ev ∈ sampleRetry.1, Succeeds samplePython "hint:telegram:42:d1" ev.entry) ∧
      sampleRetry.1.Pairwise (fun ev ev' => ¬ (Succeeds samplePython "hint:telegram:42:d1" ev.entry ∧
        Succeeds samplePython "hint:telegram:42:d1" ev'.entry)) := by
  have hrun : (gateRuns samplePython (fun _ => True) fun _ _ _ => True).Chronicle gateIdle sampleRetry.1
      sampleRetry.2 := chronicle_gateSchedule (fun _ _ _ _ => trivial) _ fun _ _ => trivial
  have hsome : (sampleRetry.1.any fun ev => decide (Succeeds samplePython "hint:telegram:42:d1" ev.entry)) = true := by
    decide +kernel
  obtain ⟨ev, hev, hsucceeds⟩ := List.any_eq_true.1 hsome
  exact ⟨⟨ev, hev, of_decide_eq_true hsucceeds⟩, (runs_at_most_once hrun _).1⟩

end ProjectManager
