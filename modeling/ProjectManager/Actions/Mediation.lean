import ProjectManager.Actions.Gateway

/-!
# Complete mediation

Every way to a write handler, over any number of calls on any gateways at once.  `Mediated` is what has
to hold when a handler is about to run; `gateway_mediates` shows it in every reachable pool.  The
programs are taken apart stage by stage, each with what it hands to the next.
-/

namespace ProjectManager

open Process

/-! ### Calls on gateways -/

/-- A call on a gateway. -/
inductive GateRequest where
  | execute (g : Gateway) (action : Val) (hasHandler : Bool) (rationale : String)
  | executeApproved (g : Gateway) (action : Val) (hasHandler : Bool) (rationale : String)
  | enqueueForApproval (g : Gateway) (action : Val) (reason rationale senderId transport chatId : String)
      (hasHandler : Bool)
  | approve (g : Gateway) (id : ℕ)
  | reject (g : Gateway) (id : ℕ)

namespace GateRequest

/-- The gateway of a call. -/
def gateway : GateRequest → Gateway
  | execute g .. => g
  | executeApproved g .. => g
  | enqueueForApproval g .. => g
  | approve g _ => g
  | reject g _ => g

/-- A person has approved the action: `approve(id)` or `execute_approved`. -/
def humanApproved : GateRequest → Bool
  | executeApproved .. => true
  | approve .. => true
  | _ => false

/-- The origin under which the trust ladder judges a call. -/
def origin : GateRequest → Option Origin
  | execute .. => some .scheduled
  | enqueueForApproval _ _ _ _ senderId transport chatId _ => some (.chat senderId transport chatId)
  | _ => none

/-- What a call runs. -/
def prog (py : Python) : GateRequest → GateProg Unit
  | execute g action hasHandler rationale => do
      let _ ← g.execute py action hasHandler rationale
  | executeApproved g action hasHandler rationale => do
      let _ ← g.executeApproved py action hasHandler rationale
  | enqueueForApproval g action reason rationale senderId transport chatId hasHandler => do
      let _ ← g.enqueueForApproval py action reason rationale senderId transport chatId hasHandler
  | approve g id => do
      let _ ← g.approve py id
  | reject _ id => Gateway.reject py id

end GateRequest

/-- The gateways over their shared world: calls come at any time, and the clock, the date, the files and
the handlers' answers change as they like. -/
def gateSystem (py : Python) : System GateWorld GateRequest GateCall GateCall.Resp where
  handle := GateCall.handle py
  forks := fun _ => none
  starts := fun _ request prog => prog = request.prog py
  ext := fun w w' => ∃ monotonic localDate files handler,
    w' = { w with monotonic := monotonic, localDate := localDate, files := files, handler := handler }
  allows := fun _ _ _ => True

/-! ### What has to hold when a handler runs -/

/-- The files that the call saw when it last classified. -/
def latestFiles (log : Log GateCall GateCall.Resp) : Option FileView :=
  log.reverse.findSome? fun e =>
    match e with
    | ⟨.files, files⟩ => some files
    | _ => none

/-- The sender conditions of an automatic approval that comes from a chat. -/
def TrustedOrigin (config : AutoApprove) : Origin → Prop
  | .scheduled => True
  | .chat senderId transport chatId =>
      transport = "telegram" ∧ senderId ≠ "" ∧ chatId = senderId ∧ senderId ∈ config.trustedTelegram

/-- The trust ladder allowed the action for this origin, and the call has claimed one of the day's
slots. -/
def AutoApproved (py : Python) (g : Gateway) (origin : Origin) (a : Action)
    (log : Log GateCall GateCall.Resp) : Prop :=
  ∃ config decision, g.autoApprove = some config ∧ evaluate py a config origin = .ok decision ∧
    decision.allowed = true ∧ TrustedOrigin config origin ∧
    ∃ stype grant date seq, actionSemanticType py a = some stype ∧ config.grant stype = some grant ∧
      1 ≤ seq ∧ seq ≤ grant.maxPerDay ∧ ⟨.today, date⟩ ∈ log ∧ ⟨.claim (slotKey stype date seq), true⟩ ∈ log

/-- What holds when a call is about to run a handler. -/
structure Mediated (py : Python) (request : GateRequest) (log : Log GateCall GateCall.Resp) (a : Action) :
    Prop where
  /-- the kill switch and dry-run are off -/
  writes : request.gateway.writeDisabled = false ∧ request.gateway.dryRun = false
  /-- the red line lets the action pass, and the call is entitled to run it -/
  passed : ∃ files, latestFiles log = some files ∧
    (∀ category ∈ [BlockCategory.dataLoss, .credential, .security],
      ¬ ((request.gateway.verdict py files a).blocked = true ∧
        (request.gateway.verdict py files a).category = some category)) ∧
    ((∃ g hasHandler rationale interrupt, request = .execute g (.dict a) hasHandler rationale ∧
        needsInterrupt py g.externalChannels a = .ok interrupt ∧ interrupt.interrupt = false ∧
        (g.verdict py files a).blocked = false) ∨
      request.humanApproved = true ∨
      ∃ origin, request.origin = some origin ∧ AutoApproved py request.gateway origin a log)

/-- What the programs of the gateway keep to: a handler runs only when it may. -/
def GateRequest.Obeys (py : Python) (request : GateRequest) (log : Log GateCall GateCall.Resp) :
    GateCall → Prop
  | .invoke a => Mediated py request log a
  | _ => True

/-! ### Stages -/

section Stages

variable {py : Python} {g : Gateway} {P : Log GateCall GateCall.Resp → GateCall → Prop}
  {log : Log GateCall GateCall.Resp}

/-- Only the handler's call is restricted. -/
def OnlyInvoke (P : Log GateCall GateCall.Resp → GateCall → Prop) : Prop :=
  ∀ log c, (∀ a, c ≠ .invoke a) → P log c

/-- A program whose handler calls, if any, meet `P`. -/
def Guarded {α : Type} (P : Log GateCall GateCall.Resp → GateCall → Prop) (prog : GateProg α)
    (log : Log GateCall GateCall.Resp) : Prop :=
  prog.Follows (fun _ _ => True) P (fun _ _ => True) (fun _ _ => True) log

theorem guarded_record (hP : OnlyInvoke P) {a : Action} {tool verdict reason rationale result : String}
    {dryRun : Bool} : Guarded P (Gateway.record py a tool verdict reason rationale dryRun result) log :=
  ⟨hP _ _ (by simp), fun _ _ => trivial⟩

/-- A program that goes on after a guarded one. -/
theorem Guarded.bind {α β : Type} {p : GateProg α} {f : α → GateProg β} (h : Guarded P p log)
    (hf : ∀ log a, Guarded P (f a) log) : Guarded P (p.bind f) log :=
  Prog.Follows.bind h fun log a _ => hf log a

theorem guarded_ask {α : Type} (hP : OnlyInvoke P) {c : GateCall} (hc : ∀ a, c ≠ .invoke a)
    {f : c.Resp → GateProg α} (hf : ∀ r, Guarded P (f r) (log ++ [⟨c, r⟩])) :
    Guarded P ((gate c).bind f) log :=
  ⟨hP _ _ hc, fun r _ => hf r⟩

theorem guarded_ofExcept {α β : Type} {x : Except String α} {f : α → GateProg β}
    (hf : ∀ a, x = .ok a → Guarded P (f a) log) : Guarded P ((Prog.ofExcept x).bind f) log := by
  cases x with
  | ok a =>
      exact hf a rfl
  | error msg =>
      exact trivial

theorem guarded_runHandler (hP : OnlyInvoke P) {a : Action} {tool key rationale : String} {hasHandler : Bool}
    (h : P log (.invoke a)) : Guarded P (Gateway.runHandler py a tool key rationale hasHandler) log := by
  unfold Gateway.runHandler
  split
  · refine guarded_ask hP (by simp) fun _ => (guarded_record hP).bind fun _ _ => trivial
  · refine ⟨h, fun outcome _ => ?_⟩
    cases outcome with
    | error exc =>
        exact guarded_ask hP (by simp) fun _ => (guarded_record hP).bind fun _ _ => trivial
    | ok summary =>
        exact (guarded_record hP).bind fun _ _ => trivial

/-- The calls between the verdict and the handler. -/
def claimedLog (g : Gateway) (key : String) : Log GateCall GateCall.Resp :=
  [⟨.checkRateLimit g.name, true⟩, ⟨.claim key, true⟩]

theorem guarded_runPassed (hP : OnlyInvoke P) {a : Action} {tool rationale : String} {hasHandler : Bool}
    (h : g.writeDisabled = false → g.dryRun = false → ∀ key, P (log ++ claimedLog g key) (.invoke a)) :
    Guarded P (g.runPassed py a tool rationale hasHandler) log := by
  unfold Gateway.runPassed
  split
  · exact (guarded_record hP).bind fun _ _ => trivial
  rename_i hwrite
  split
  · exact (guarded_record hP).bind fun _ _ => trivial
  rename_i hdry
  refine guarded_ask hP (by simp) fun admitted => ?_
  cases admitted with
  | false =>
      exact (guarded_record hP).bind fun _ _ => trivial
  | true =>
      refine guarded_ofExcept fun key _ => guarded_ask hP (by simp) fun claimed => ?_
      cases claimed with
      | false =>
          exact (guarded_record hP).bind fun _ _ => trivial
      | true =>
          refine guarded_runHandler hP ?_
          rw [List.append_assoc]
          exact h (by simpa using hwrite) (by simpa using hdry) key

theorem guarded_runVerdict (hP : OnlyInvoke P) {a : Action} {tool rationale : String}
    {hasHandler approved : Bool} {v : BlockVerdict}
    (h : v.blocked = false ∨ (approved = true ∧ v.category = some .notAllowlisted) →
      g.writeDisabled = false → g.dryRun = false → ∀ key, P (log ++ claimedLog g key) (.invoke a)) :
    Guarded P (g.runVerdict py a tool rationale hasHandler approved v) log := by
  unfold Gateway.runVerdict
  split
  case isTrue =>
    exact (guarded_record hP).bind fun _ _ => trivial
  case isFalse hpass =>
    refine guarded_runPassed hP (h ?_)
    by_cases hblocked : v.blocked = true
    · exact .inr (by simpa [hblocked] using hpass)
    · exact .inl (by simpa using hblocked)

theorem dict_of_checked {action : Val} {refused : String} {a : Action}
    (h : Gateway.checkedAction py action refused = .ok a) : action = .dict a := by
  unfold Gateway.checkedAction at h
  split at h
  · split at h
    · rw [Except.ok.inj h]
    · cases h
  · cases h

theorem guarded_executeApproved (hP : OnlyInvoke P) {action : Val} {hasHandler : Bool} {rationale : String}
    (h : ∀ a files, action = .dict a → (g.verdict py files a).hardDeny = false →
      g.writeDisabled = false → g.dryRun = false →
      ∀ key, P (log ++ [⟨.files, files⟩] ++ claimedLog g key) (.invoke a)) :
    Guarded P (g.executeApproved py action hasHandler rationale) log := by
  unfold Gateway.executeApproved
  refine guarded_ofExcept fun a ha => guarded_ofExcept fun tool _ => guarded_ask hP (by simp) fun files => ?_
  refine guarded_runVerdict hP fun hpass => h a files (dict_of_checked ha) ?_
  unfold BlockVerdict.hardDeny
  rcases hpass with hblocked | ⟨-, hcategory⟩
  · simp [hblocked]
  · simp [hcategory]

/-! ### The trust ladder -/

/-- The programs of the trust ladder never run a handler; `Q` says what their result means. -/
def Ladder {α : Type} (P : Log GateCall GateCall.Resp → GateCall → Prop) (prog : GateProg α)
    (log : Log GateCall GateCall.Resp) (Q : Log GateCall GateCall.Resp → α → Prop) : Prop :=
  prog.Follows (fun _ _ => True) P Q (fun _ _ => True) log

theorem ladder_claimSlot (hP : OnlyInvoke P) (stype : SemanticType) (date : String) (max left : ℕ)
    (hleft : left ≤ max) (hdate : ⟨.today, date⟩ ∈ log) :
    Ladder P (Gateway.claimSlot stype date max left) log fun log' claimed =>
      claimed = true → ⟨.today, date⟩ ∈ log' ∧
        ∃ seq, 1 ≤ seq ∧ seq ≤ max ∧ ⟨.claim (slotKey stype date seq), true⟩ ∈ log' := by
  induction left generalizing log with
  | zero =>
      exact fun hfalse => by cases hfalse
  | succ left ih =>
      refine ⟨hP _ _ (by simp), fun claimed _ => ?_⟩
      cases claimed with
      | false =>
          exact ih (by omega) (List.mem_append_left _ hdate)
      | true =>
          intro _
          refine ⟨List.mem_append_left _ hdate, max - left, by omega, by omega, ?_⟩
          exact List.mem_append_right _ (List.mem_singleton.2 rfl)

/-- A slot that the call has claimed for the action. -/
def SlotClaimed (py : Python) (a : Action) (config : AutoApprove) (log : Log GateCall GateCall.Resp) : Prop :=
  ∃ stype grant date seq, actionSemanticType py a = some stype ∧ config.grant stype = some grant ∧
    1 ≤ seq ∧ seq ≤ grant.maxPerDay ∧ ⟨.today, date⟩ ∈ log ∧ ⟨.claim (slotKey stype date seq), true⟩ ∈ log

theorem ladder_claimDailySlot (hP : OnlyInvoke P) (a : Action) (config : AutoApprove) :
    Ladder P (Gateway.claimDailySlot py a config) log fun log' claimed =>
      claimed = true → SlotClaimed py a config log' := by
  unfold Gateway.claimDailySlot
  split
  · exact fun hfalse => by cases hfalse
  rename_i stype hstype
  split
  · exact fun hfalse => by cases hfalse
  rename_i grant hgrant
  split
  · exact fun hfalse => by cases hfalse
  refine ⟨hP _ _ (by simp), fun date _ => ?_⟩
  refine (ladder_claimSlot hP stype date grant.maxPerDay grant.maxPerDay le_rfl
    (List.mem_append_right _ (List.mem_singleton.2 rfl))).mono ?_ fun _ _ h => h
  intro log' claimed h hclaimed
  obtain ⟨hdate, seq, hlo, hhi, hmem⟩ := h hclaimed
  exact ⟨stype, grant, date, seq, hstype, hgrant, hlo, hhi, hdate, hmem⟩

/-- An allowed decision for a chat comes from a trusted sender in a direct chat. -/
theorem trustedOrigin_of_evaluate {a : Action} {config : AutoApprove} {origin : Origin}
    {decision : AutoApproveDecision} (h : evaluate py a config origin = .ok decision)
    (hallowed : decision.allowed = true) : TrustedOrigin config origin := by
  cases origin with
  | scheduled =>
      exact trivial
  | chat senderId transport chatId =>
      unfold evaluate at h
      split at h
      · obtain rfl := Except.ok.inj h
        cases hallowed
      split at h
      · obtain rfl := Except.ok.inj h
        cases hallowed
      split at h
      · obtain rfl := Except.ok.inj h
        cases hallowed
      rename_i stype _ _ grant _ _
      cases hdest : actionDestination py a stype with
      | error msg =>
          rw [hdest] at h
          cases h
      | ok dest =>
          simp only [hdest, bind, Except.bind] at h
          split at h
          · obtain rfl := Except.ok.inj h
            cases hallowed
          have hdecision := Except.ok.inj h
          rw [← hdecision] at hallowed
          simp only [evaluateOrigin] at hallowed
          split at hallowed
          · cases hallowed
          rename_i htransport
          split at hallowed
          · cases hallowed
          rename_i hdirect
          split at hallowed
          · cases hallowed
          rename_i htrusted
          push Not at hdirect
          exact ⟨not_not.1 htransport, hdirect.1, hdirect.2.2, not_not.1 htrusted⟩

theorem ladder_tryAutoApprove (hP : OnlyInvoke P) (a : Action) (origin : Origin) :
    Ladder P (g.tryAutoApprove py a origin) log fun log' auto =>
      auto ≠ none → AutoApproved py g origin a log' := by
  unfold Gateway.tryAutoApprove
  split
  · exact fun hne => absurd rfl hne
  rename_i config hconfig
  cases hdecision : evaluate py a config origin with
  | error msg =>
      exact trivial
  | ok decision =>
      by_cases hallowed : decision.allowed = true
      · simp only [Prog.bind_eq, Prog.ofExcept, Prog.ret_bind, hallowed, Bool.not_true]
        refine (ladder_claimDailySlot hP a config).bind fun log' claimed hclaimed => ?_
        intro hne
        cases claimed with
        | false =>
            exact absurd rfl hne
        | true =>
            exact ⟨config, decision, hconfig, hdecision, hallowed, trustedOrigin_of_evaluate hdecision hallowed,
              hclaimed rfl⟩
      · simp only [Prog.bind_eq, Prog.ofExcept, Prog.ret_bind, hallowed, Bool.not_false]
        exact fun hne => absurd rfl hne

theorem AutoApproved.append {origin : Origin} {a : Action} (h : AutoApproved py g origin a log)
    (more : Log GateCall GateCall.Resp) : AutoApproved py g origin a (log ++ more) := by
  obtain ⟨config, decision, hconfig, hdecision, hallowed, htrusted, stype, grant, date, seq, hstype, hgrant,
    hlo, hhi, hdate, hmem⟩ := h
  exact ⟨config, decision, hconfig, hdecision, hallowed, htrusted, stype, grant, date, seq, hstype, hgrant,
    hlo, hhi, List.mem_append_left _ hdate, List.mem_append_left _ hmem⟩

end Stages

/-! ### The entry points -/

section Entries

variable {py : Python} {log : Log GateCall GateCall.Resp}

theorem onlyInvoke_obeys (request : GateRequest) : OnlyInvoke (request.Obeys py) := by
  intro log c hc
  cases c with
  | invoke a =>
      exact absurd rfl (hc a)
  | _ =>
      exact trivial

theorem latestFiles_claimed (log : Log GateCall GateCall.Resp) (files : FileView) (g : Gateway) (key : String) :
    latestFiles (log ++ [⟨.files, files⟩] ++ claimedLog g key) = some files := by
  simp [latestFiles, claimedLog]

theorem category_of_hardDeny {v : BlockVerdict} (h : v.hardDeny = false) :
    ∀ category ∈ [BlockCategory.dataLoss, .credential, .security],
      ¬ (v.blocked = true ∧ v.category = some category) := by
  rintro category hmem ⟨hblocked, hcategory⟩
  simp only [BlockVerdict.hardDeny, hblocked, hcategory, Bool.true_and, decide_eq_false_iff_not, ne_eq,
    Option.some.injEq, not_not] at h
  subst h
  simp at hmem

/-- The second half of an entry: an action that may run without a further question. -/
theorem guarded_entitled {request : GateRequest} {action : Val} {hasHandler : Bool} {rationale : String}
    (h : ∀ a, action = .dict a → request.humanApproved = true ∨
      ∃ origin, request.origin = some origin ∧ AutoApproved py request.gateway origin a log) :
    Guarded (request.Obeys py) (request.gateway.executeApproved py action hasHandler rationale) log := by
  refine guarded_executeApproved (onlyInvoke_obeys request) ?_
  intro a files hdict hdeny hwrite hdry key
  refine ⟨⟨hwrite, hdry⟩, files, latestFiles_claimed log files _ key, category_of_hardDeny hdeny, .inr ?_⟩
  rcases h a hdict with hhuman | ⟨origin, horigin, hauto⟩
  · exact .inl hhuman
  · exact .inr ⟨origin, horigin, (hauto.append _).append _⟩

theorem guarded_enqueue {request : GateRequest} {a : Action} {tool reason rationale : String} :
    Guarded (request.Obeys py) (Gateway.enqueue py a tool reason rationale) log :=
  guarded_ask (onlyInvoke_obeys request) (by simp) fun _ =>
    (guarded_record (onlyInvoke_obeys request)).bind fun _ _ => trivial

/-- The trust ladder between the verdict and the queue. -/
theorem guarded_ladder {request : GateRequest} {origin : Origin} (horigin : request.origin = some origin)
    {action : Val} {a : Action} (hdict : action = .dict a) {hasHandler : Bool} {queue : GateProg GatewayResult}
    (hqueue : ∀ log, Guarded (request.Obeys py) queue log) :
    Guarded (request.Obeys py)
      ((request.gateway.autoRationale py a origin hasHandler).bind fun auto =>
        match auto with
        | some auto => request.gateway.executeApproved py action hasHandler auto
        | none => queue) log := by
  have hladder : Ladder (request.Obeys py) (request.gateway.autoRationale py a origin hasHandler) log
      fun log' auto => auto ≠ none → AutoApproved py request.gateway origin a log' := by
    unfold Gateway.autoRationale
    split
    · exact ladder_tryAutoApprove (onlyInvoke_obeys request) a origin
    · exact fun hne => absurd rfl hne
  refine hladder.bind fun log' auto hauto => ?_
  cases auto with
  | none =>
      exact hqueue log'
  | some auto =>
      refine guarded_entitled fun b hb => .inr ⟨origin, horigin, ?_⟩
      obtain rfl : a = b := Val.dict.inj (hdict.symm.trans hb)
      exact hauto (by simp)

theorem guarded_execute (g : Gateway) (action : Val) (hasHandler : Bool) (rationale : String) :
    Guarded ((GateRequest.execute g action hasHandler rationale).Obeys py)
      (g.execute py action hasHandler rationale) log := by
  have hP : OnlyInvoke ((GateRequest.execute g action hasHandler rationale).Obeys py) := onlyInvoke_obeys _
  unfold Gateway.execute
  refine guarded_ofExcept fun a ha => guarded_ofExcept fun tool _ => guarded_ask hP (by simp) fun files =>
    guarded_ofExcept fun interrupt hinterrupt => ?_
  have hdict := dict_of_checked ha
  split
  case isTrue =>
    have horigin : (GateRequest.execute g action hasHandler rationale).origin = some .scheduled := rfl
    exact guarded_ladder horigin hdict fun _ => guarded_enqueue
  case isFalse hno =>
    refine guarded_runVerdict hP fun hpass hwrite hdry key => ?_
    have hblocked : (g.verdict py files a).blocked = false := by
      rcases hpass with hblocked | ⟨hfalse, -⟩
      · exact hblocked
      · cases hfalse
    have hdeny : (g.verdict py files a).hardDeny = false := by
      simp [BlockVerdict.hardDeny, hblocked]
    refine ⟨⟨hwrite, hdry⟩, files, latestFiles_claimed log files g key, category_of_hardDeny hdeny, .inl ?_⟩
    refine ⟨g, hasHandler, rationale, interrupt, by rw [hdict], hinterrupt, ?_, hblocked⟩
    simpa [hdeny] using hno

theorem guarded_enqueueForApproval (g : Gateway) (action : Val)
    (reason rationale senderId transport chatId : String) (hasHandler : Bool) :
    Guarded ((GateRequest.enqueueForApproval g action reason rationale senderId transport chatId hasHandler).Obeys py)
      (g.enqueueForApproval py action reason rationale senderId transport chatId hasHandler) log := by
  have hP : OnlyInvoke ((GateRequest.enqueueForApproval g action reason rationale senderId transport chatId
      hasHandler).Obeys py) := onlyInvoke_obeys _
  unfold Gateway.enqueueForApproval
  refine guarded_ofExcept fun a ha => guarded_ofExcept fun tool _ => guarded_ask hP (by simp) fun files => ?_
  split
  case isTrue =>
    exact (guarded_record hP).bind fun _ _ => trivial
  case isFalse =>
    have horigin : (GateRequest.enqueueForApproval g action reason rationale senderId transport chatId
      hasHandler).origin = some (.chat senderId transport chatId) := rfl
    exact guarded_ladder horigin (dict_of_checked ha) fun _ => guarded_enqueue

theorem guarded_approve (g : Gateway) (id : ℕ) :
    Guarded ((GateRequest.approve g id).Obeys py) (g.approve py id) log := by
  have hP : OnlyInvoke ((GateRequest.approve g id).Obeys py) := onlyInvoke_obeys _
  unfold Gateway.approve
  refine guarded_ask hP (by simp) fun row => ?_
  cases row with
  | none =>
      exact trivial
  | some row =>
      refine guarded_ask hP (by simp) fun won => ?_
      cases won with
      | false =>
          exact trivial
      | true =>
          have hrun : ∀ log', Guarded ((GateRequest.approve g id).Obeys py)
              (g.executeApproved py (.dict row.action) true s!"approved (id={id})") log' :=
            fun _ => guarded_entitled fun _ _ => .inl rfl
          refine (hrun _).catchWith fun log msg _ => ?_
          exact guarded_ask hP (by simp) fun _ => trivial

theorem guarded_reject (g : Gateway) (id : ℕ) :
    Guarded ((GateRequest.reject g id).Obeys py) (Gateway.reject py id) log := by
  have hP : OnlyInvoke ((GateRequest.reject g id).Obeys py) := onlyInvoke_obeys _
  unfold Gateway.reject
  refine guarded_ask hP (by simp) fun row => guarded_ask hP (by simp) fun _ => ?_
  cases row with
  | none =>
      exact trivial
  | some row =>
      exact guarded_ofExcept fun _ _ => guarded_record hP

/-- Every call keeps to the rule. -/
theorem guarded_prog (request : GateRequest) : Guarded (request.Obeys py) (request.prog py) [] := by
  cases request with
  | execute g action hasHandler rationale =>
      exact (guarded_execute g action hasHandler rationale).bind fun _ _ => trivial
  | executeApproved g action hasHandler rationale =>
      have hrun : Guarded ((GateRequest.executeApproved g action hasHandler rationale).Obeys py)
          (g.executeApproved py action hasHandler rationale) [] := guarded_entitled fun _ _ => .inl rfl
      exact hrun.bind fun _ _ => trivial
  | enqueueForApproval g action reason rationale senderId transport chatId hasHandler =>
      exact (guarded_enqueueForApproval g action reason rationale senderId transport chatId hasHandler).bind
        fun _ _ => trivial
  | approve g id =>
      exact (guarded_approve g id).bind fun _ _ => trivial
  | reject g id =>
      exact guarded_reject g id

end Entries

/-! ### Runs -/

/-- The rule of the gateways: nothing is asked of the world. -/
def gateSpec (py : Python) : Spec (gateSystem py) where
  Inv := fun _ => True
  Link := fun _ _ _ => True
  Obeys := GateRequest.Obeys py
  Plausible := fun _ _ => True
  Apart := fun _ _ => True
  apart_symm := id
  own := fun _ _ _ => ⟨trivial, trivial, trivial⟩
  others := fun _ _ _ _ _ => trivial
  outside := fun _ _ => ⟨trivial, fun _ _ _ => trivial⟩
  starting := fun _ hstart => ⟨trivial, fun _ _ => trivial, hstart ▸ guarded_prog _⟩
  forking := fun _ _ _ hfork => by cases hfork

/-- In every run of any calls on any gateways, from any contents of the stores, a call about to run a
write handler is mediated. -/
theorem gateway_mediates {py : Python} {w : GateWorld} {pool : Pool GateWorld GateRequest GateCall GateCall.Resp}
    (h : (gateSystem py).Reach (· = ⟨w, []⟩) pool) {p : Proc GateRequest GateCall GateCall.Resp} {a : Action}
    (hp : p ∈ pool.procs) (hnext : p.next = some (.invoke a)) : Mediated py p.party p.log a := by
  have hok : (gateSpec py).PoolOk pool := by
    refine Spec.ok_of_reach ?_ h
    rintro _ rfl
    exact ⟨trivial, List.Pairwise.nil, by simp⟩
  exact (hok.at_next hp hnext).2.2

/-- Library functions that agree with the real ones on the texts of the sample message. -/
def samplePython : Python where
  lower := String.toLower
  str := fun v =>
    match v with
    | .str s => s
    | v => v.typeName
  repr := fun v =>
    match v with
    | .str s => "'" ++ s ++ "'"
    | v => v.typeName
  parseInt := String.toInt?
  isDecimal := Char.isDigit
  isWord := fun c => c.isAlphanum || c == '_'
  dumps := Val.typeName
  sha256 := id

/-- A gateway with writes on. -/
def sampleGateway : Gateway where
  name := 0
  writeDisabled := false
  dryRun := false
  externalChannels := []
  mcpAllowlist := none
  autoApprove := none
  artifactRoot := "/data/artifacts"

/-- A call that sends a message to a chat. -/
def sampleRequest : GateRequest :=
  .execute sampleGateway
    (.dict [("type", .str "telegram_send"), ("chat_id", .str "42"), ("text", .str "hi"), ("dedup_hint", .str "d1")])
    true "reply"

/-- Empty stores. -/
def sampleGateWorld : GateWorld where
  approvals := .empty
  seenKeys := []
  audit := []
  recentCalls := fun _ => []
  monotonic := 0
  localDate := "2026-01-01"
  files := ⟨fun path => [path], fun _ => true⟩
  handler := fun _ => .ok "sent"

/-- The pool when the sample call has claimed its key. -/
def samplePool : Pool GateWorld GateRequest GateCall GateCall.Resp :=
  (gateSystem samplePython).runHead 3
    ⟨sampleGateWorld, [System.fresh (sampleRequest, sampleRequest.prog samplePython)]⟩

/-- The process is about to invoke a handler. -/
def invokes (p : Proc GateRequest GateCall GateCall.Resp) : Bool :=
  match p.next with
  | some (.invoke _) => true
  | _ => false

/-- The sample call reaches its handler, mediated. -/
theorem samplePool_mediated :
    ∃ p ∈ samplePool.procs, ∃ a, p.next = some (.invoke a) ∧ Mediated samplePython p.party p.log a := by
  have hreach : (gateSystem samplePython).Reach (· = ⟨sampleGateWorld, []⟩) samplePool := by
    refine System.Reach.runHead (fun _ _ _ => trivial) 3 ?_
    exact .step (.init rfl) (.start rfl)
  have hsome : samplePool.procs.any invokes = true := by
    decide +kernel
  obtain ⟨p, hp, htest⟩ := List.any_eq_true.1 hsome
  unfold invokes at htest
  split at htest
  case h_1 a hnext =>
    exact ⟨p, hp, a, hnext, gateway_mediates hreach hp hnext⟩
  case h_2 =>
    cases htest

end ProjectManager
