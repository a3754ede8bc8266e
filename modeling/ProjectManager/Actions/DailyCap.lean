import ProjectManager.Actions.Dedup

/-!
# The daily cap

Automatic approvals, over any number of calls on gateways with one configuration that share one `DedupStore`.
The day's slots are keys in the table of the action keys: `slotKey_ne_dedupKey` keeps the two apart, so no
slot is ever given back, and `slotClaims` makes each slot a thing that one call spends.  `daily_cap` counts the
handlers run under automatic approval by the date of their slot; `daily_cap_midnight` is a run over midnight
in which a count by the date of the handler's run exceeds the cap.
-/

namespace ProjectManager

open Process

/-- What `hexdigest` returns consists of hexadecimal digits. -/
def HexDigests (py : Python) : Prop :=
  ∀ s, ∀ c ∈ (py.sha256 s).toList, c ∈ "0123456789abcdef".toList

/-- The cap of a kind of action. -/
def dailyCap (config : Option AutoApprove) (stype : SemanticType) : ℕ :=
  match config.bind fun config => config.grant stype with
  | some grant => grant.maxPerDay
  | none => 0

/-- A handler is run under automatic approval, on a slot of the date. -/
def AutoRun (py : Python) (stype : SemanticType) (date : String) (ev : GateEvent) : Prop :=
  ∃ a seq, ev.entry.1 = .invoke a ∧ actionSemanticType py a = some stype ∧
    ⟨.claim (slotKey stype date seq), true⟩ ∈ ev.before

/-! ### The key space -/

section Keys

variable {py : Python} {stype stype' : SemanticType} {date date' : String} {seq seq' : ℕ}

theorem slotKey_toList (stype : SemanticType) (date : String) (seq : ℕ) :
    (slotKey stype date seq).toList =
      ("auto-slot:".toList ++ stype.text.toList ++ ":".toList ++ date.toList) ++ ':' :: seq.repr.toList := by
  have hkey : slotKey stype date seq = "auto-slot:" ++ stype.text ++ ":" ++ date ++ ":" ++ seq.repr := rfl
  simp [hkey, String.toList_append]

/-- The key of a slot says which one it is. -/
theorem slotKey_inj (h : slotKey stype date seq = slotKey stype' date' seq') :
    stype = stype' ∧ date = date' ∧ seq = seq' := by
  have hlist := congrArg String.toList h
  rw [slotKey_toList, slotKey_toList] at hlist
  obtain ⟨hrest, -, hseq⟩ :=
    Text.digits_last (Text.repr_digits seq) (Text.repr_digits seq') (by decide) (by decide) hlist
  have hstype : stype = stype' := by
    cases stype <;> cases stype' <;> simp [SemanticType.text] at hrest ⊢
  subst hstype
  exact ⟨rfl, String.toList_injective (List.append_cancel_left hrest), Text.repr_inj hseq⟩

/-- No action has the key of a slot. -/
theorem slotKey_ne_dedupKey (hdigests : HexDigests py) {a : Action} {key : String}
    (h : actionDedupKey py a = .ok key) : key ≠ slotKey stype date seq := by
  rintro rfl
  have hhash : py.sha256 (py.dumps (.dict a)) ≠ slotKey stype date seq := by
    intro heq
    have hcolon := hdigests (py.dumps (.dict a)) ':' (by rw [heq, slotKey_toList]; simp)
    revert hcolon
    decide
  unfold actionDedupKey at h
  split at h
  · split at h
    · cases hlabel : actionLabel py a with
      | error msg =>
          rw [hlabel] at h
          cases h
      | ok label =>
          simp only [hlabel, bind, Except.bind, pure, Except.pure, Except.ok.injEq] at h
          have hlist := congrArg String.toList h
          rw [slotKey_toList] at hlist
          simp [String.toList_append] at hlist
    · exact hhash (Except.ok.inj h)
  · exact hhash (Except.ok.inj h)

end Keys

section DailyCap

variable {py : Python} {config : Option AutoApprove} {allows : GatePool → GateRequest → GateCall → Prop}
  {events : List GateEvent} {pool : GatePool} {stype : SemanticType} {date : String} {log : GateLog} {seq : ℕ}

/-- The gateways have one configuration. -/
abbrev SameConfig (config : Option AutoApprove) (request : GateRequest) : Prop :=
  request.gateway.autoApprove = config

/-- The call has a slot and has not run its handler. -/
def HoldsSlot (stype : SemanticType) (date : String) (log : GateLog) (seq : ℕ) : Prop :=
  ⟨.claim (slotKey stype date seq), true⟩ ∈ log ∧ ∀ x ∈ log, ∀ a, x.1 ≠ .invoke a

/-- No rule lets a slot be released. -/
theorem release_ne_slot (hdigests : HexDigests py) {request : GateRequest} {key : String}
    (h : request.Keeps py log (.release key)) : key ≠ slotKey stype date seq := by
  obtain ⟨-, a, hkey⟩ := h
  exact slotKey_ne_dedupKey hdigests hkey

/-- A slot that is taken stays taken. -/
theorem slot_stays (hdigests : HexDigests py) {w : GateWorld} {request : GateRequest} {e : GateCall}
    (hkeeps : request.Keeps py log e) (h : slotKey stype date seq ∈ w.seenKeys) :
    slotKey stype date seq ∈ (e.handle py w).2.seenKeys := by
  refine (mem_seenKeys_handle py e).2 (.inr ⟨h, ?_⟩)
  rintro rfl
  exact release_ne_slot hdigests hkeeps rfl

/-- The slots of a day as things that calls spend. -/
def slotClaims (hdigests : HexDigests py) (config : Option AutoApprove)
    (allows : GatePool → GateRequest → GateCall → Prop) (stype : SemanticType) (date : String) :
    Claims (gateRuns py (SameConfig config) allows) ℕ where
  taken := fun w seq => slotKey stype date seq ∈ w.seenKeys
  holds := fun _ log seq => HoldsSlot stype date log seq
  keeps := GateRequest.Keeps py
  fresh := by
    rintro p seq ⟨hmem, -⟩
    cases hmem
  gain := by
    rintro p log w e seq - ⟨hmem, hinvoke⟩
    rcases List.mem_append.1 hmem with hmem | hmem
    · exact .inl ⟨hmem, fun x hx => hinvoke x (List.mem_append_left _ hx)⟩
    · have heq := List.mem_singleton.1 hmem
      obtain rfl : .claim (slotKey stype date seq) = e := congrArg Sigma.fst heq
      simp only [Sigma.mk.injEq, heq_eq_eq, true_and] at heq
      have hgranted : ((GateCall.claim (slotKey stype date seq)).handle py w).1 = true := heq.symm
      exact .inr (claim_granted hgranted)
  held := by
    rintro p log w e seq hkeeps htaken ⟨hmem, hinvoke⟩
    rcases List.mem_append.1 hmem with hmem | hmem
    · exact slot_stays hdigests hkeeps (htaken ⟨hmem, fun x hx => hinvoke x (List.mem_append_left _ hx)⟩)
    · obtain rfl : .claim (slotKey stype date seq) = e := congrArg Sigma.fst (List.mem_singleton.1 hmem)
      exact (mem_seenKeys_handle py _).2 (.inl rfl)
  giveBack := fun _ hkeeps htaken hgone => absurd (slot_stays hdigests hkeeps htaken) hgone
  ext := by
    rintro w w' seq ⟨_, _, _, _, rfl⟩
    exact Iff.rfl
  starts := fun pool p prog h => (gateRuns_starts pool p prog h).mono (fun _ _ _ => trivial) fun _ _ _ => trivial
  forks := fun e p prog h => (gateRuns_forks e p prog h).mono (fun _ _ _ => trivial) fun _ _ _ => trivial

/-- A slot that a call has claimed is one of the cap's. -/
theorem slot_le_cap (hdigests : HexDigests py)
    (h : (gateRuns py (SameConfig config) allows).Chronicle gateIdle events pool)
    {ev : GateEvent} (hev : ev ∈ events) (hconfig : ev.party.gateway.autoApprove = config)
    (hmem : ⟨.claim (slotKey stype date seq), true⟩ ∈ ev.before) : seq ∈ List.range' 1 (dailyCap config stype) := by
  obtain ⟨before, after, hbefore⟩ := List.append_of_mem hmem
  rcases keeps_of_before h hev hbefore with ⟨-, hslot⟩ | ⟨a, _, _, hkey, -⟩
  · obtain ⟨config', stype', grant, date', seq', hauto, hgrant, hlo, hhi, -, hkey⟩ := hslot
    obtain ⟨rfl, rfl, rfl⟩ := slotKey_inj hkey
    have hcap : dailyCap config stype = grant.maxPerDay := by
      rw [← hconfig, hauto]
      simp [dailyCap, hgrant]
    rw [hcap, List.mem_range'_1]
    omega
  · exact absurd rfl (slotKey_ne_dedupKey hdigests hkey)

/-- A handler that runs under automatic approval spends a slot of the cap. -/
theorem spends_of_autoRun (hdigests : HexDigests py)
    (h : (gateRuns py (SameConfig config) allows).Chronicle gateIdle events pool) {ev : GateEvent} (hev : ev ∈ events)
    (hconfig : ev.party.gateway.autoApprove = config) (hrun : AutoRun py stype date ev) :
    ∃ seq ∈ List.range' 1 (dailyCap config stype), (slotClaims hdigests config allows stype date).Spends ev seq := by
  obtain ⟨a, seq, hcall, -, hmem⟩ := hrun
  have hkeeps := keeps_of_chronicle h ev hev
  have hinvoke : ∀ x ∈ ev.before, ∀ b, x.1 ≠ .invoke b := by
    rw [hcall] at hkeeps
    obtain ⟨-, -, key, -, before, n, hearly, hbefore⟩ := hkeeps
    intro x hx b heq
    rw [hbefore] at hx
    rcases List.mem_append.1 hx with hx | hx
    · have hfalse := hearly x hx
      rw [heq] at hfalse
      cases hfalse
    · simp only [List.mem_cons, List.not_mem_nil, or_false] at hx
      rcases hx with rfl | rfl <;> cases heq
  have hholds : HoldsSlot stype date ev.before seq := ⟨hmem, hinvoke⟩
  refine ⟨seq, slot_le_cap hdigests h hev hconfig hmem, hholds, ?_, ?_⟩
  · rintro ⟨-, hnone⟩
    exact hnone ev.entry (by simp) a hcall
  · have htaken := Claims.taken_of_chronicle (C := slotClaims hdigests config allows stype date) (fun _ h => h) h ev hev
      seq hholds
    exact slot_stays hdigests hkeeps htaken

/-- Only gateways with the configuration take part. -/
theorem config_of_event (h : (gateRuns py (SameConfig config) allows).Chronicle gateIdle events pool) {ev : GateEvent}
    (hev : ev ∈ events) : ev.party.gateway.autoApprove = config := by
  refine h.obeyed (P := fun p _ _ => p.gateway.autoApprove = config) (Q := fun _ _ _ => True)
    (X := fun _ _ _ => True) (fun _ h => h) ?_ ?_ ev hev
  · rintro pool request prog ⟨hcomes, -⟩
    exact .always prog (fun _ _ => hcomes) []
  · rintro e p prog hfork
    cases hfork

end DailyCap

/-- In every run of calls on gateways with one configuration over one store, the handlers that run under
automatic approval for one kind of action, on slots of one date, are at most the cap of the kind.  No slot is
ever released, and no action has the key of a slot. -/
theorem daily_cap {py : Python} (hdigests : HexDigests py) {config : Option AutoApprove}
    {allows : GatePool → GateRequest → GateCall → Prop} {events : List GateEvent} {pool : GatePool}
    (h : (gateRuns py (SameConfig config) allows).Chronicle gateIdle events pool) :
    (∀ stype date, ∀ runs : List GateEvent, runs.Sublist events → (∀ ev ∈ runs, AutoRun py stype date ev) →
      runs.length ≤ dailyCap config stype) ∧
    (∀ ev ∈ events, ∀ stype date seq, ev.entry.1 ≠ .release (slotKey stype date seq)) ∧
    ∀ a key stype date seq, actionDedupKey py a = .ok key → key ≠ slotKey stype date seq := by
  refine ⟨fun stype date runs hsub hruns => ?_, fun ev hev stype date seq hrelease => ?_,
    fun a key stype date seq hkey => slotKey_ne_dedupKey hdigests hkey⟩
  · have hle := Claims.spent_le (C := slotClaims hdigests config allows stype date) (fun _ h => h) h hsub
      fun ev hev => spends_of_autoRun hdigests h (hsub.subset hev) (config_of_event h (hsub.subset hev)) (hruns ev hev)
    simpa using hle
  · have hkeeps := keeps_of_chronicle h ev hev
    rw [hrelease] at hkeeps
    exact release_ne_slot hdigests hkeeps rfl

/-! ### A run over midnight -/

/-- The sample library functions, with a digest. -/
def digestPython : Python :=
  { samplePython with sha256 := fun _ => "e3b0c44298fc1c149afbf4c8996fb92427ae41e4649b934ca495991b7852b855" }

theorem digestPython_hex : HexDigests digestPython := by
  have hdigest : "e3b0c44298fc1c149afbf4c8996fb92427ae41e4649b934ca495991b7852b855".toList ⊆
      "0123456789abcdef".toList := by
    decide
  exact fun _ _ hc => hdigest hc

/-- One mail a day may be sent without a question. -/
def oneMail : Option AutoApprove :=
  some { slackPost := none, emailSend := some ⟨true, 1, none⟩, trustedTelegram := [] }

/-- A mail with its own hint, by a gateway with the cap. -/
def sampleMail (hint : String) : GateRequest :=
  .execute { sampleGateway with autoApprove := oneMail }
    (.dict [("type", .str "email_send"), ("to", .str "a@b.c"), ("dedup_hint", .str hint)]) true "report"

theorem sampleMail_config (hint : String) : (sampleMail hint).gateway.autoApprove = oneMail :=
  rfl

/-- The call has run the handler of a mail, under automatic approval, on the first slot of the date. -/
def mailRun (date : String) (ev : GateEvent) : Bool :=
  match ev.entry with
  | ⟨.invoke a, _⟩ => decide (actionSemanticType digestPython a = some .emailSend) && ev.before.any fun x =>
      match x with
      | ⟨.claim key, true⟩ => decide (key = slotKey .emailSend date 1)
      | _ => false
  | _ => false

theorem mailRun_sound {date : String} {ev : GateEvent} (h : mailRun date ev = true) :
    AutoRun digestPython .emailSend date ev := by
  obtain ⟨w, p, before, c, r⟩ := ev
  cases c with
  | invoke a =>
      simp only [mailRun, Bool.and_eq_true, decide_eq_true_eq, List.any_eq_true] at h
      obtain ⟨hstype, x, hx, htest⟩ := h
      refine ⟨a, 1, rfl, hstype, ?_⟩
      split at htest
      · obtain rfl := of_decide_eq_true htest
        exact hx
      · cases htest
  | _ =>
      cases h

/-- Two mails on one day: the second finds the slot taken. -/
def cappedRun : List GateEvent × GatePool :=
  gateSchedule digestPython (SameConfig oneMail) (fun _ _ _ => True) (fun _ _ _ => true) sampleGateWorld
    [.come (sampleMail "d1"), .call 0 20, .come (sampleMail "d2"), .call 1 20]

/-- One of the two mails is sent. -/
theorem daily_cap_sample : (∃ ev ∈ cappedRun.1, AutoRun digestPython .emailSend "2026-01-01" ev) ∧
    ∀ runs : List GateEvent, runs.Sublist cappedRun.1 → (∀ ev ∈ runs, AutoRun digestPython .emailSend "2026-01-01" ev) →
      runs.length ≤ 1 := by
  have hrun : (gateRuns digestPython (SameConfig oneMail) fun _ _ _ => True).Chronicle gateIdle cappedRun.1
      cappedRun.2 := chronicle_gateSchedule (fun _ _ _ _ => trivial) _ (by simp [SameConfig, sampleMail_config])
  have hsome : (cappedRun.1.any fun ev => mailRun "2026-01-01" ev) = true := by
    decide +kernel
  obtain ⟨ev, hev, htest⟩ := List.any_eq_true.1 hsome
  exact ⟨⟨ev, hev, mailRun_sound htest⟩, (daily_cap digestPython_hex hrun).1 .emailSend "2026-01-01"⟩

/-- The first mail is about to be sent at midnight; then the second one is sent, and then the first. -/
def midnightRun : List GateEvent × GatePool :=
  gateSchedule digestPython (SameConfig oneMail) (fun _ _ _ => True) (fun _ _ _ => true) sampleGateWorld
    [.come (sampleMail "d1"), .call 0 6, .change "2026-01-02" fun _ => .ok "sent", .come (sampleMail "d2"), .call 1 20,
      .call 0 20]

/-- A mail is sent on the second day. -/
def sentOnSecond (ev : GateEvent) : Bool :=
  decide (ev.world.localDate = "2026-01-02") && (mailRun "2026-01-01" ev || mailRun "2026-01-02" ev)

/-- By the date on which the handlers run, there can be more of them than the cap. -/
theorem daily_cap_midnight : ¬ ∀ (config : Option AutoApprove) (events : List GateEvent) (pool : GatePool),
    (gateRuns digestPython (SameConfig config) fun _ _ _ => True).Chronicle gateIdle events pool →
      ∀ stype today, ∀ runs : List GateEvent, runs.Sublist events →
        (∀ ev ∈ runs, ev.world.localDate = today ∧ ∃ date, AutoRun digestPython stype date ev) →
        runs.length ≤ dailyCap config stype := by
  intro hall
  have hrun : (gateRuns digestPython (SameConfig oneMail) fun _ _ _ => True).Chronicle gateIdle midnightRun.1
      midnightRun.2 := chronicle_gateSchedule (fun _ _ _ _ => trivial) _ (by simp [SameConfig, sampleMail_config])
  have htwo : (midnightRun.1.filter sentOnSecond).length = 2 := by
    decide +kernel
  have hruns : ∀ ev ∈ midnightRun.1.filter sentOnSecond,
      ev.world.localDate = "2026-01-02" ∧ ∃ date, AutoRun digestPython .emailSend date ev := by
    intro ev hev
    have htest := (List.mem_filter.1 hev).2
    simp only [sentOnSecond, Bool.and_eq_true, decide_eq_true_eq, Bool.or_eq_true] at htest
    refine ⟨htest.1, ?_⟩
    rcases htest.2 with hfirst | hsecond
    · exact ⟨_, mailRun_sound hfirst⟩
    · exact ⟨_, mailRun_sound hsecond⟩
  have hle := hall oneMail _ _ hrun .emailSend "2026-01-02" _ List.filter_sublist hruns
  have hcap : dailyCap oneMail .emailSend = 1 := rfl
  omega

end ProjectManager
