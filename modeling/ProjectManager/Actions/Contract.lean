import ProjectManager.Actions.Mediation
import ProjectManager.Lib.Claims

/-!
# What a call on a gateway keeps to

The rules that the programs of the gateway keep to, call by call, in terms of their own log: which keys
they claim and when they give them back, when a handler runs, and when the status of an approval is
written.  `keeps_prog` shows it of every entry point; what holds across calls of any number of gateways
rests on these rules alone.
-/

namespace ProjectManager

open Process

/-- The calls and answers of a call on a gateway so far. -/
abbrev GateLog :=
  Log GateCall GateCall.Resp

/-- A call that some call on a gateway has issued. -/
abbrev GateEvent :=
  Event GateWorld GateRequest GateCall GateCall.Resp

/-- A pool of calls on gateways. -/
abbrev GatePool :=
  Pool GateWorld GateRequest GateCall GateCall.Resp

/-! ### Stages of a call -/

/-- The calls that come before the rate limit. -/
def GateCall.early : GateCall → Bool
  | .checkRateLimit _ => false
  | .invoke _ => false
  | .release _ => false
  | .setStatus .. => false
  | _ => true

/-- The call has not come to the rate limit. -/
def Early (log : GateLog) : Prop :=
  ∀ x ∈ log, x.1.early = true

/-- The last thing that the call did was to reserve the key. -/
def Reserved (log : GateLog) (key : String) : Prop :=
  ∃ before n, Early before ∧ log = before ++ [⟨.checkRateLimit n, true⟩, ⟨.claim key, true⟩]

/-- The call has reserved the key, and the handler has failed. -/
def Failed (log : GateLog) (key : String) : Prop :=
  ∃ before a exc, Reserved before key ∧ log = before ++ [⟨.invoke a, .error exc⟩]

/-- The call has reserved the key of its action, and no handler has run through. -/
def Holding (log : GateLog) (key : String) : Prop :=
  Reserved log key ∨ Failed log key

/-- The call has no reservation to take care of. -/
def Settled (log : GateLog) : Prop :=
  ∀ key, ¬ Holding log key

/-- A handler that ran through, or a status that was written. -/
def weighty : (Σ c : GateCall, c.Resp) → Bool
  | ⟨.invoke _, .ok _⟩ => true
  | ⟨.setStatus .., _⟩ => true
  | _ => false

/-- No handler has run through, and no status was written. -/
def Vain (log : GateLog) : Prop :=
  ∀ x ∈ log, weighty x = false

namespace GateRequest

/-- There is a handler to run. -/
def hasHandler : GateRequest → Bool
  | execute _ _ hasHandler _ => hasHandler
  | executeApproved _ _ hasHandler _ => hasHandler
  | enqueueForApproval _ _ _ _ _ _ _ hasHandler => hasHandler
  | approve .. => true
  | reject .. => false

/-- An approval is run by the call that has moved it from pending to approved. -/
def Decided : GateRequest → GateLog → Prop
  | approve _ id, log => ∃ row rest,
      log = ⟨.getApproval id, some row⟩ :: ⟨.transitionIfPending id .approved, true⟩ :: rest
  | _, _ => True

/-- A slot that the trust ladder may claim for the call. -/
def SlotFor (request : GateRequest) (log : GateLog) (key : String) : Prop :=
  ∃ config stype grant date seq, request.gateway.autoApprove = some config ∧ config.grant stype = some grant ∧
    1 ≤ seq ∧ seq ≤ grant.maxPerDay ∧ ⟨.today, date⟩ ∈ log ∧ key = slotKey stype date seq

/-- What a call on a gateway keeps to. -/
def Keeps (py : Python) (request : GateRequest) (log : GateLog) : GateCall → Prop
  | .claim key => (Early log ∧ request.SlotFor log key) ∨
      ∃ a before n, actionDedupKey py a = .ok key ∧ Early before ∧ log = before ++ [⟨.checkRateLimit n, true⟩]
  | .invoke a => request.hasHandler = true ∧ request.Decided log ∧
      ∃ key, actionDedupKey py a = .ok key ∧ Reserved log key
  | .release key => Holding log key ∧ ∃ a, actionDedupKey py a = .ok key
  | .transitionIfPending id status => (∃ g, request = .approve g id) ∧ status = .approved ∧
      ∃ row, log = [⟨.getApproval id, some row⟩]
  | .setStatus id status => Settled log ∧
      ((∃ g, request = .approve g id) ∧ status = .pending ∧ request.Decided log ∧ Vain log ∨
        (∃ g, request = .reject g id) ∧ status = .rejected ∧ ∃ row, log = [⟨.getApproval id, row⟩])
  | _ => Settled log

end GateRequest

/-! ### Logs -/

section Logs

variable {log : GateLog} {key : String}

theorem Early.nil : Early [] := by
  simp [Early]

theorem Early.append {c : GateCall} {r : c.Resp} (h : Early log) (hc : c.early = true) : Early (log ++ [⟨c, r⟩]) := by
  intro x hx
  rcases List.mem_append.1 hx with hx | hx
  · exact h x hx
  · obtain rfl := List.mem_singleton.1 hx
    exact hc

theorem Early.settled (h : Early log) : Settled log := by
  have hreserved : ∀ {log : GateLog}, Early log → ∀ key, ¬ Reserved log key := by
    rintro _ h key ⟨before, n, -, rfl⟩
    exact absurd (h ⟨.checkRateLimit n, true⟩ (by simp)) (by simp [GateCall.early])
  rintro key (hkey | ⟨before, a, exc, -, rfl⟩)
  · exact hreserved h key hkey
  · exact absurd (h ⟨.invoke a, .error exc⟩ (by simp)) (by simp [GateCall.early])

theorem Early.vain (h : Early log) : Vain log := by
  rintro ⟨c, r⟩ hx
  have hearly := h _ hx
  cases c with
  | invoke a =>
      cases hearly
  | setStatus id status =>
      cases hearly
  | _ =>
      rfl

theorem Vain.append {x : Σ c : GateCall, c.Resp} (h : Vain log) (hx : weighty x = false) : Vain (log ++ [x]) := by
  intro y hy
  rcases List.mem_append.1 hy with hy | hy
  · exact h y hy
  · obtain rfl := List.mem_singleton.1 hy
    exact hx

theorem Reserved.last {c : GateCall} {r : c.Resp} (h : Reserved (log ++ [⟨c, r⟩]) key) :
    (⟨c, r⟩ : Σ c : GateCall, c.Resp) = ⟨.claim key, true⟩ ∧
      ∃ before n, Early before ∧ log = before ++ [⟨.checkRateLimit n, true⟩] := by
  obtain ⟨before, n, hearly, heq⟩ := h
  have heq : log ++ [⟨c, r⟩] = (before ++ [⟨.checkRateLimit n, true⟩]) ++ [⟨.claim key, true⟩] := by simpa using heq
  obtain ⟨rfl, hlast⟩ := List.append_inj' heq rfl
  exact ⟨(List.cons.inj hlast).1, before, n, hearly, rfl⟩

theorem Failed.last {c : GateCall} {r : c.Resp} (h : Failed (log ++ [⟨c, r⟩]) key) :
    Reserved log key ∧ ∃ a exc, (⟨c, r⟩ : Σ c : GateCall, c.Resp) = ⟨.invoke a, .error exc⟩ := by
  obtain ⟨before, a, exc, hreserved, heq⟩ := h
  obtain ⟨rfl, hlast⟩ := List.append_inj' heq rfl
  exact ⟨hreserved, a, exc, (List.cons.inj hlast).1⟩

/-- Behind any other call there is nothing to take care of. -/
theorem settled_append {c : GateCall} {r : c.Resp} (hclaim : ∀ key, c ≠ .claim key) (hinvoke : ∀ a, c ≠ .invoke a) :
    Settled (log ++ [⟨c, r⟩]) := by
  rintro key (h | h)
  · exact hclaim key (congrArg Sigma.fst h.last.1)
  · obtain ⟨-, a, exc, heq⟩ := h.last
    exact hinvoke a (congrArg Sigma.fst heq)

/-- A refused claim is nothing to take care of. -/
theorem settled_refused : Settled (log ++ [⟨.claim key, false⟩]) := by
  rintro key' (h | h)
  · have heq := h.last.1
    simp only [Sigma.mk.injEq] at heq
    exact absurd heq.2 (by rintro h; cases h)
  · obtain ⟨-, a, exc, heq⟩ := h.last
    cases congrArg Sigma.fst heq

/-- A handler that ran through leaves nothing to take care of. -/
theorem settled_invoked {a : Action} {summary : String} : Settled (log ++ [⟨.invoke a, .ok summary⟩]) := by
  rintro key' (h | h)
  · cases congrArg Sigma.fst h.last.1
  · obtain ⟨-, b, exc, heq⟩ := h.last
    simp only [Sigma.mk.injEq, GateCall.invoke.injEq] at heq
    obtain ⟨rfl, hr⟩ := heq
    cases eq_of_heq hr

theorem Reserved.vain (h : Reserved log key) : Vain log := by
  obtain ⟨before, n, hearly, rfl⟩ := h
  intro x hx
  rcases List.mem_append.1 hx with hx | hx
  · exact hearly.vain x hx
  · simp only [List.mem_cons, List.not_mem_nil, or_false] at hx
    rcases hx with rfl | rfl <;> rfl

end Logs

/-! ### The programs -/

section Programs

variable {py : Python} {request : GateRequest} {log : GateLog}

/-- How a part of a call ends: with nothing to take care of, and in vain if it raises. -/
def EndsWell {α : Type} (py : Python) (request : GateRequest) (prog : GateProg α) (log : GateLog) : Prop :=
  prog.Follows (fun _ _ => True) (request.Keeps py) (fun log _ => Settled log)
    (fun log _ => Settled log ∧ Vain log ∧ request.Decided log) log

/-- However the call goes on, it has the approval. -/
def StaysDecided (request : GateRequest) (log : GateLog) : Prop :=
  ∀ more, request.Decided (log ++ more)

theorem StaysDecided.append (h : StaysDecided request log) (more : GateLog) : StaysDecided request (log ++ more) := by
  intro more'
  rw [List.append_assoc]
  exact h (more ++ more')

theorem StaysDecided.now (h : StaysDecided request log) : request.Decided log := by
  have hnow := h []
  rwa [List.append_nil] at hnow

/-- A record, and what follows it. -/
theorem keeps_record {α : Type} {f : Unit → GateProg α} {Q : GateLog → α → Prop} {X : GateLog → String → Prop}
    {a : Action} {tool verdict reason rationale result : String} {dryRun : Bool} (h : Settled log)
    (hf : ∀ entry, (f ()).Follows (fun _ _ => True) (request.Keeps py) Q X (log ++ [⟨.record entry, ()⟩])) :
    ((Gateway.record py a tool verdict reason rationale dryRun result).bind f).Follows (fun _ _ => True)
      (request.Keeps py) Q X log :=
  ⟨h, fun _ _ => hf _⟩

theorem endsWell_runHandler {a : Action} {tool key rationale : String} (hkey : actionDedupKey py a = .ok key)
    (h : Reserved log key) (hdecided : StaysDecided request log) :
    EndsWell py request (Gateway.runHandler py a tool key rationale request.hasHandler) log := by
  have hrelease : ∀ {log : GateLog}, Holding log key → request.Keeps py log (.release key) := fun h => ⟨h, a, hkey⟩
  unfold Gateway.runHandler
  by_cases hhandler : request.hasHandler = true
  · rw [if_neg (by simp [hhandler])]
    refine ⟨⟨hhandler, hdecided.now, key, hkey, h⟩, fun outcome _ => ?_⟩
    cases outcome with
    | error exc =>
        have hfailed : Failed (log ++ [⟨.invoke a, .error exc⟩]) key := ⟨log, a, exc, h, rfl⟩
        refine ⟨hrelease (.inr hfailed), fun _ _ => keeps_record (settled_append (by simp) (by simp)) fun entry => ?_⟩
        have hvain : Vain (log ++ [⟨.invoke a, .error exc⟩] ++ [⟨.release key, ()⟩]) :=
          (h.vain.append rfl).append rfl
        exact ⟨settled_append (by simp) (by simp), hvain.append rfl, (((hdecided.append _).append _).append _).now⟩
    | ok summary =>
        exact keeps_record settled_invoked fun entry => settled_append (by simp) (by simp)
  · rw [if_pos (by simpa using hhandler)]
    refine ⟨hrelease (.inl h), fun _ _ => keeps_record (settled_append (by simp) (by simp)) fun entry => ?_⟩
    exact settled_append (by simp) (by simp)

theorem endsWell_runPassed {g : Gateway} {a : Action} {tool rationale : String} (h : Early log)
    (hdecided : StaysDecided request log) :
    EndsWell py request (g.runPassed py a tool rationale request.hasHandler) log := by
  have hraise : ∀ {x : Σ c : GateCall, c.Resp} {entry : AuditEntry} {log : GateLog}, Vain log → weighty x = false →
      StaysDecided request log → Settled (log ++ [x] ++ [⟨.record entry, ()⟩]) ∧
        Vain (log ++ [x] ++ [⟨.record entry, ()⟩]) ∧ request.Decided (log ++ [x] ++ [⟨.record entry, ()⟩]) :=
    fun hvain hx hdecided => ⟨settled_append (by simp) (by simp), (hvain.append hx).append rfl,
      ((hdecided.append _).append _).now⟩
  unfold Gateway.runPassed
  split
  · refine keeps_record h.settled fun entry => ?_
    exact ⟨settled_append (by simp) (by simp), h.vain.append rfl, (hdecided.append _).now⟩
  split
  · exact keeps_record h.settled fun entry => settled_append (by simp) (by simp)
  refine ⟨h.settled, fun admitted _ => ?_⟩
  cases admitted with
  | false =>
      refine keeps_record (settled_append (by simp) (by simp)) fun entry => hraise h.vain rfl hdecided
  | true =>
      cases hkey : actionDedupKey py a with
      | error msg =>
          exact ⟨settled_append (by simp) (by simp), h.vain.append rfl, (hdecided.append _).now⟩
      | ok key =>
          refine ⟨.inr ⟨a, log, g.name, hkey, h, rfl⟩, fun claimed _ => ?_⟩
          cases claimed with
          | false =>
              exact keeps_record settled_refused fun entry => settled_append (by simp) (by simp)
          | true =>
              refine endsWell_runHandler hkey ⟨log, g.name, h, by simp⟩ ?_
              exact (hdecided.append _).append _

theorem endsWell_runVerdict {g : Gateway} {a : Action} {tool rationale : String} {approved : Bool} {v : BlockVerdict}
    (h : Early log) (hdecided : StaysDecided request log) :
    EndsWell py request (g.runVerdict py a tool rationale request.hasHandler approved v) log := by
  unfold Gateway.runVerdict
  split
  · refine keeps_record h.settled fun entry => ?_
    exact ⟨settled_append (by simp) (by simp), h.vain.append rfl, (hdecided.append _).now⟩
  · exact endsWell_runPassed h hdecided

/-- A checked value, and what follows it. -/
theorem endsWell_ofExcept {α β : Type} {x : Except String α} {f : α → GateProg β} (h : Early log)
    (hdecided : StaysDecided request log) (hf : ∀ a, x = .ok a → EndsWell py request (f a) log) :
    EndsWell py request ((Prog.ofExcept x).bind f) log := by
  cases x with
  | ok a =>
      exact hf a rfl
  | error msg =>
      exact ⟨h.settled, h.vain, hdecided.now⟩

theorem endsWell_executeApproved {g : Gateway} {action : Val} {rationale : String} (h : Early log)
    (hdecided : StaysDecided request log) :
    EndsWell py request (g.executeApproved py action request.hasHandler rationale) log := by
  unfold Gateway.executeApproved
  refine endsWell_ofExcept h hdecided fun a _ => endsWell_ofExcept h hdecided fun tool _ => ?_
  exact ⟨h.settled, fun files _ => endsWell_runVerdict (h.append rfl) (hdecided.append _)⟩

theorem endsWell_enqueue {a : Action} {tool reason rationale : String} (h : Early log) :
    EndsWell py request (Gateway.enqueue py a tool reason rationale) log :=
  ⟨h.settled, fun _ _ => keeps_record (h.append rfl).settled fun _ => settled_append (by simp) (by simp)⟩

/-- The trust ladder claims slots and ends before the rate limit. -/
theorem keeps_claimSlot {config : AutoApprove} {stype : SemanticType} {grant : Grant} {date : String} {max left : ℕ}
    (hconfig : request.gateway.autoApprove = some config) (hgrant : config.grant stype = some grant)
    (hmax : max ≤ grant.maxPerDay) (hleft : left ≤ max) (hdate : ⟨.today, date⟩ ∈ log) (h : Early log)
    (hdecided : StaysDecided request log) :
    (Gateway.claimSlot stype date max left).Follows (fun _ _ => True) (request.Keeps py)
      (fun log _ => Early log ∧ StaysDecided request log)
      (fun log _ => Settled log ∧ Vain log ∧ request.Decided log) log := by
  induction left generalizing log with
  | zero =>
      exact ⟨h, hdecided⟩
  | succ left ih =>
      have hslot : request.SlotFor log (slotKey stype date (max - left)) :=
        ⟨config, stype, grant, date, max - left, hconfig, hgrant, by omega, by omega, hdate, rfl⟩
      refine ⟨.inl ⟨h, hslot⟩, fun claimed _ => ?_⟩
      cases claimed with
      | false =>
          exact ih (by omega) (List.mem_append_left _ hdate) (h.append rfl) (hdecided.append _)
      | true =>
          exact ⟨h.append rfl, hdecided.append _⟩

theorem keeps_tryAutoApprove {a : Action} {origin : Origin} (h : Early log) (hdecided : StaysDecided request log) :
    (request.gateway.tryAutoApprove py a origin).Follows (fun _ _ => True) (request.Keeps py)
      (fun log _ => Early log ∧ StaysDecided request log)
      (fun log _ => Settled log ∧ Vain log ∧ request.Decided log) log := by
  unfold Gateway.tryAutoApprove
  split
  · exact ⟨h, hdecided⟩
  rename_i config hconfig
  cases hdecision : evaluate py a config origin with
  | error msg =>
      exact ⟨h.settled, h.vain, hdecided.now⟩
  | ok decision =>
      simp only [Prog.bind_eq, Prog.ofExcept, Prog.ret_bind]
      split
      · exact ⟨h, hdecided⟩
      have hclaim : (Gateway.claimDailySlot py a config).Follows (fun _ _ => True) (request.Keeps py)
          (fun log _ => Early log ∧ StaysDecided request log)
          (fun log _ => Settled log ∧ Vain log ∧ request.Decided log) log := by
        unfold Gateway.claimDailySlot
        split
        · exact ⟨h, hdecided⟩
        split
        · exact ⟨h, hdecided⟩
        rename_i grant hgrant
        split
        · exact ⟨h, hdecided⟩
        refine ⟨h.settled, fun date _ => ?_⟩
        have hdate : (⟨.today, date⟩ : Σ c : GateCall, c.Resp) ∈ log ++ [⟨.today, date⟩] := by simp
        exact keeps_claimSlot hconfig hgrant le_rfl le_rfl hdate (h.append rfl) (hdecided.append _)
      exact hclaim.bind fun _ _ hend => hend

/-- The trust ladder between the verdict and the queue. -/
theorem endsWell_ladder {a : Action} {origin : Origin} {action : Val} {queue : GateProg GatewayResult} (h : Early log)
    (hdecided : StaysDecided request log) (hqueue : ∀ log, Early log → EndsWell py request queue log) :
    EndsWell py request
      ((request.gateway.autoRationale py a origin request.hasHandler).bind fun auto =>
        match auto with
        | some auto => request.gateway.executeApproved py action request.hasHandler auto
        | none => queue) log := by
  have hladder : (request.gateway.autoRationale py a origin request.hasHandler).Follows (fun _ _ => True)
      (request.Keeps py) (fun log _ => Early log ∧ StaysDecided request log)
      (fun log _ => Settled log ∧ Vain log ∧ request.Decided log) log := by
    unfold Gateway.autoRationale
    split
    · exact keeps_tryAutoApprove h hdecided
    · exact ⟨h, hdecided⟩
  refine hladder.bind fun log' auto hend => ?_
  cases auto with
  | none =>
      exact hqueue log' hend.1
  | some auto =>
      exact endsWell_executeApproved hend.1 hend.2

theorem keeps_approve (g : Gateway) (id : ℕ) :
    (g.approve py id).Follows (fun _ _ => True) ((GateRequest.approve g id).Keeps py) (fun log _ => Settled log)
      (fun log _ => Settled log) [] := by
  unfold Gateway.approve
  refine ⟨Early.nil.settled, fun row _ => ?_⟩
  cases row with
  | none =>
      exact settled_append (by simp) (by simp)
  | some row =>
      refine ⟨⟨⟨g, rfl⟩, rfl, row, rfl⟩, fun won _ => ?_⟩
      cases won with
      | false =>
          exact settled_append (by simp) (by simp)
      | true =>
          have hearly : Early ([⟨.getApproval id, some row⟩] ++ [⟨.transitionIfPending id .approved, true⟩]) :=
            (Early.nil.append rfl).append rfl
          have hdecided : StaysDecided (.approve g id)
              ([⟨.getApproval id, some row⟩] ++ [⟨.transitionIfPending id .approved, true⟩]) :=
            fun more => ⟨row, more, rfl⟩
          have hrun : EndsWell py (.approve g id) (g.executeApproved py (.dict row.action) true s!"approved (id={id})")
              ([⟨.getApproval id, some row⟩] ++ [⟨.transitionIfPending id .approved, true⟩]) :=
            endsWell_executeApproved hearly hdecided
          refine hrun.catchWith fun log msg hend => ?_
          refine ⟨⟨hend.1, .inl ⟨⟨g, rfl⟩, rfl, hend.2.2, hend.2.1⟩⟩, fun _ _ => ?_⟩
          exact settled_append (by simp) (by simp)

theorem keeps_reject (g : Gateway) (id : ℕ) :
    (Gateway.reject py id).Follows (fun _ _ => True) ((GateRequest.reject g id).Keeps py) (fun log _ => Settled log)
      (fun log _ => Settled log) [] := by
  unfold Gateway.reject
  refine ⟨Early.nil.settled, fun row _ => ?_⟩
  have hsettled : Settled ([] ++ [⟨.getApproval id, row⟩]) := settled_append (by simp) (by simp)
  refine ⟨⟨hsettled, .inr ⟨⟨g, rfl⟩, rfl, row, rfl⟩⟩, fun _ _ => ?_⟩
  cases row with
  | none =>
      exact settled_append (by simp) (by simp)
  | some row =>
      cases hlabel : actionLabel py row.action with
      | error msg =>
          have hsettled : Settled (([] ++ [⟨.getApproval id, some row⟩]) ++ [⟨.setStatus id .rejected, ()⟩]) :=
            settled_append (by simp) (by simp)
          simp only [hlabel]
          exact hsettled
      | ok tool =>
          simp only [hlabel]
          exact ⟨settled_append (by simp) (by simp), fun _ _ => settled_append (by simp) (by simp)⟩

/-- Every call on a gateway keeps to the rules, and ends with nothing to take care of. -/
theorem keeps_prog (request : GateRequest) : (request.prog py).Follows (fun _ _ => True) (request.Keeps py)
    (fun log _ => Settled log) (fun log _ => Settled log) [] := by
  have hfinish : ∀ {prog : GateProg GatewayResult}, EndsWell py request prog [] →
      (prog.bind fun _ => Prog.ret ()).Follows (fun _ _ => True) (request.Keeps py) (fun log _ => Settled log)
        (fun log _ => Settled log) [] := by
    intro prog h
    exact (h.mono (fun _ _ h => h) fun _ _ h => h.1).bind fun _ _ h => h
  cases request with
  | execute g action hasHandler rationale =>
      have hdecided : StaysDecided (.execute g action hasHandler rationale) [] := fun _ => trivial
      refine hfinish ?_
      unfold Gateway.execute
      refine endsWell_ofExcept Early.nil hdecided fun a _ => endsWell_ofExcept Early.nil hdecided fun tool _ => ?_
      refine ⟨Early.nil.settled, fun files _ => ?_⟩
      have hearly : Early ([] ++ [⟨.files, files⟩]) := Early.nil.append rfl
      refine endsWell_ofExcept hearly (hdecided.append _) fun interrupt _ => ?_
      split
      · exact endsWell_ladder hearly (hdecided.append _) fun log h => endsWell_enqueue h
      · exact endsWell_runVerdict hearly (hdecided.append _)
  | executeApproved g action hasHandler rationale =>
      exact hfinish (endsWell_executeApproved Early.nil fun _ => trivial)
  | enqueueForApproval g action reason rationale senderId transport chatId hasHandler =>
      have hdecided : StaysDecided (.enqueueForApproval g action reason rationale senderId transport chatId hasHandler) [] :=
        fun _ => trivial
      refine hfinish ?_
      unfold Gateway.enqueueForApproval
      refine endsWell_ofExcept Early.nil hdecided fun a _ => endsWell_ofExcept Early.nil hdecided fun tool _ => ?_
      refine ⟨Early.nil.settled, fun files _ => ?_⟩
      have hearly : Early ([] ++ [⟨.files, files⟩]) := Early.nil.append rfl
      simp only [Prog.ret_bind]
      split
      · exact keeps_record hearly.settled fun entry => settled_append (by simp) (by simp)
      · exact endsWell_ladder hearly (hdecided.append _) fun log h => endsWell_enqueue h
  | approve g id =>
      exact (keeps_approve g id).bind fun _ _ h => h
  | reject g id =>
      exact keeps_reject g id

end Programs

/-! ### Runs -/

/-- The gateways over their shared world, when only some calls come and only some steps are let through. -/
def gateRuns (py : Python) (comes : GateRequest → Prop) (allows : GatePool → GateRequest → GateCall → Prop) :
    System GateWorld GateRequest GateCall GateCall.Resp :=
  { gateSystem py with
    starts := fun _ request prog => comes request ∧ prog = request.prog py
    allows := allows }

/-- Runs begin with any contents of the stores and no call. -/
def gateIdle (pool : GatePool) : Prop :=
  pool.procs = []

section Runs

variable {py : Python} {comes : GateRequest → Prop} {allows : GatePool → GateRequest → GateCall → Prop}
  {events : List GateEvent} {pool : GatePool}

theorem gateRuns_starts (pool : GatePool) (request : GateRequest) (prog : GateProg Unit)
    (h : (gateRuns py comes allows).starts pool request prog) : prog.Follows (fun _ _ => True) (request.Keeps py)
      (fun log _ => Settled log) (fun log _ => Settled log) [] := by
  obtain ⟨-, rfl⟩ := h
  exact keeps_prog request

theorem gateRuns_forks (e : GateCall) (request : GateRequest) (prog : GateProg Unit)
    (h : (gateRuns py comes allows).forks e = some (request, prog)) : prog.Follows (fun _ _ => True) (request.Keeps py)
      (fun log _ => Settled log) (fun log _ => Settled log) [] := by
  cases h

/-- Every call of a run keeps to the rules. -/
theorem keeps_of_chronicle (h : (gateRuns py comes allows).Chronicle gateIdle events pool) :
    ∀ ev ∈ events, ev.party.Keeps py ev.before ev.entry.1 :=
  h.obeyed (fun _ h => h) gateRuns_starts gateRuns_forks

/-- Only calls that may come take part. -/
theorem comes_of_chronicle (h : (gateRuns py comes allows).Chronicle gateIdle events pool) :
    ∀ ev ∈ events, comes ev.party := by
  refine h.obeyed (P := fun request _ _ => comes request) (Q := fun _ _ _ => True) (X := fun _ _ _ => True)
    (fun _ h => h) ?_ ?_
  · rintro pool request prog ⟨hcomes, -⟩
    exact Prog.Follows.of_forall fun _ _ => hcomes
  · intro e request prog hfork
    cases hfork

/-- Every call before one of a run, in the same log, keeps to the rules. -/
theorem keeps_of_before (h : (gateRuns py comes allows).Chronicle gateIdle events pool) {ev : GateEvent}
    (hev : ev ∈ events) {before after : GateLog} {entry : Σ c : GateCall, c.Resp}
    (hbefore : ev.before = before ++ entry :: after) : ev.party.Keeps py before entry.1 := by
  obtain ⟨_, _, ev', hprev, hpast, -, hsame, hbefore', hentry⟩ := h.before_event (fun _ h => h) hev hbefore
  have hkeeps := keeps_of_chronicle hprev ev' hpast
  rwa [hsame, hbefore', hentry] at hkeeps

/-- A call that has ended has nothing to take care of. -/
theorem settled_of_ended (h : (gateRuns py comes allows).Reach gateIdle pool)
    {q : Proc GateRequest GateCall GateCall.Resp} (hq : q ∈ pool.procs) (hended : q.next = none) : Settled q.log := by
  have hfollows := h.follows (A := fun _ _ _ => True) (fun _ h => h) gateRuns_starts gateRuns_forks
    (fun _ _ _ _ _ _ _ => trivial) q hq
  obtain ⟨request, prog, log⟩ := q
  cases prog with
  | ret a =>
      exact hfollows
  | raise msg =>
      exact hfollows
  | call e k =>
      cases hended

end Runs

/-! ### Schedules -/

/-- One decision of a schedule of calls on gateways. -/
inductive GateMove where
  /-- a call comes -/
  | come (request : GateRequest)
  /-- the call at place `i` goes on for up to `n` calls -/
  | call (i n : ℕ)
  /-- the world changes: the date and what the handlers would answer -/
  | change (localDate : String) (handler : Action → Except String String)

section Schedules

variable (py : Python) (comes : GateRequest → Prop) (allows : GatePool → GateRequest → GateCall → Prop)
  (ok : GatePool → GateRequest → GateCall → Bool)

/-- Carries out one decision; the test stands for what the run allows. -/
def GateMove.exec : GateMove → List GateEvent × GatePool → List GateEvent × GatePool
  | come request, (events, pool) => (events, ⟨pool.world, pool.procs ++ [System.fresh (request, request.prog py)]⟩)
  | call i n, run => (gateRuns py comes allows).recordAt ok i n run
  | change localDate handler, (events, pool) =>
      (events, ⟨{ pool.world with localDate := localDate, handler := handler }, pool.procs⟩)

/-- Carries out a schedule. -/
def gateSchedule (w : GateWorld) (moves : List GateMove) : List GateEvent × GatePool :=
  moves.foldl (fun run move => move.exec py comes allows ok run) ([], ⟨w, []⟩)

variable {py comes allows ok}

/-- Every schedule whose calls may come is a run from where it begins. -/
theorem chronicle_gateSchedule_from {init : GatePool → Prop} {w : GateWorld} (hinit : init ⟨w, []⟩)
    (hok : ∀ pool p e, ok pool p e = true → allows pool p e) {moves : List GateMove}
    (hcomes : ∀ request, .come request ∈ moves → comes request) :
    (gateRuns py comes allows).Chronicle init (gateSchedule py comes allows ok w moves).1
      (gateSchedule py comes allows ok w moves).2 := by
  unfold gateSchedule
  induction moves using List.reverseRecOn with
  | nil =>
      exact .init hinit
  | append_singleton moves move ih =>
      rw [List.foldl_append]
      have hprev := ih fun request hmem => hcomes request (List.mem_append_left _ hmem)
      cases move with
      | come request =>
          exact .start hprev ⟨hcomes request (by simp), rfl⟩
      | call i n =>
          exact hprev.recordAt hok i n
      | change localDate handler =>
          exact .ext hprev ⟨_, localDate, _, handler, rfl⟩

/-- Every schedule whose calls may come is a run. -/
theorem chronicle_gateSchedule (hok : ∀ pool p e, ok pool p e = true → allows pool p e) (w : GateWorld)
    {moves : List GateMove} (hcomes : ∀ request, .come request ∈ moves → comes request) :
    (gateRuns py comes allows).Chronicle gateIdle (gateSchedule py comes allows ok w moves).1
      (gateSchedule py comes allows ok w moves).2 :=
  chronicle_gateSchedule_from (show gateIdle ⟨w, []⟩ from rfl) hok hcomes

end Schedules

end ProjectManager
