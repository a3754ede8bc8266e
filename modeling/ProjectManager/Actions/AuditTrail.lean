import ProjectManager.Actions.DailyCap
import ProjectManager.Lib.Execution

/-!
# The audit trail

Every call that takes a well-shaped action past the type check ends with exactly one record of it in its log, whose
verdict says how the call came out (`audited_once`).  The exits of the programs are taken one by one: what comes
before an exit leaves no trace, and the exit records once.
-/

namespace ProjectManager

open Process

/-! ### What a call leaves in the trail -/

/-- The records of a call. -/
def auditRecords (log : GateLog) : List AuditEntry :=
  log.filterMap fun x =>
    match x with
    | ⟨.record entry, _⟩ => some entry
    | _ => none

/-- A handler ran through. -/
def HandlerReturned (log : GateLog) : Prop :=
  ∃ a summary, Log.Has log (.invoke a) (.ok summary)

/-- The action was queued. -/
def Queued (log : GateLog) : Prop :=
  ∃ a reason rationale id, Log.Has log (.enqueue a reason rationale) id

/-- The verdict of a record says how a call came out; `refused` is a refusal that is returned and not raised. -/
structure VerdictMatches (hasHandler : Bool) (refused : Prop) (log : GateLog) (out : Except String GatewayResult)
    (verdict : String) : Prop where
  allow : verdict = "allow" ↔ HandlerReturned log
  dryRun : verdict = "dry_run" ↔ ∃ r, out = .ok r ∧ r.status = .dryRun
  pending : verdict = "pending" ↔ Queued log
  skipped : verdict = "skipped" ↔ ∃ r, out = .ok r ∧
    (r.status = .deduplicated ∨ hasHandler = false ∧ r.status = .skipped ∧ ¬ refused)
  deny : verdict = "deny" ↔ (∃ msg, out = .error msg) ∨ refused

/-- A call has recorded its action once, with a verdict that says how it came out. -/
def Audited (a : Action) (hasHandler : Bool) (refused : Prop) (log : GateLog) (out : Except String GatewayResult) :
    Prop :=
  ∃ entry, auditRecords log = [entry] ∧ entry.params = a ∧ VerdictMatches hasHandler refused log out entry.verdict

/-- `args` is a dict and `argv` a list of texts, where the action has them. -/
structure Action.WellShaped (a : Action) : Prop where
  args : ∀ v, a.lookup "args" = some v → ∃ entries, v = .dict entries
  argv : ∀ v, a.lookup "argv" = some v → ∃ items : List String, v = .list (items.map .str)

/-! ### Traceless calls -/

/-- A call that neither records, nor runs a handler, nor queues. -/
def GateCall.traceless : GateCall → Bool
  | .record _ => false
  | .invoke _ => false
  | .enqueue .. => false
  | _ => true

/-- Nothing has been recorded, run or queued. -/
def Traceless (log : GateLog) : Prop :=
  ∀ x ∈ log, x.1.traceless = true

section Exits

variable {py : Python} {a : Action} {hasHandler : Bool} {refused : Prop} {log pre tail : GateLog}
  {out : Except String GatewayResult}

theorem Traceless.nil : Traceless [] := by
  simp [Traceless]

theorem Traceless.append {c : GateCall} {r : c.Resp} (h : Traceless log) (hc : c.traceless = true) : Traceless (log ++ [⟨c, r⟩]) := by
  intro x hx
  rcases List.mem_append.1 hx with hx | hx
  · exact h x hx
  · rw [List.mem_singleton.1 hx]
    exact hc

theorem Traceless.records (h : Traceless log) : auditRecords log = [] := by
  refine List.filterMap_eq_nil_iff.2 fun x hx => ?_
  obtain ⟨c, r⟩ := x
  have hc := h _ hx
  cases c with
  | record entry =>
      cases hc
  | _ =>
      rfl

theorem Traceless.not_has {c : GateCall} {r : c.Resp} (h : Traceless log) (hc : c.traceless = false) : ¬ Log.Has log c r := by
  intro hmem
  have := h _ hmem
  rw [hc] at this
  cases this

theorem auditRecords_append : auditRecords (pre ++ tail) = auditRecords pre ++ auditRecords tail :=
  List.filterMap_append

/-- A call that leaves a trace is not in the parts without one. -/
theorem has_around {post : GateLog} {c : GateCall} {r : c.Resp} (hpre : Traceless pre) (hpost : Traceless post)
    (hc : c.traceless = false) : Log.Has (pre ++ tail ++ post) c r ↔ Log.Has tail c r := by
  constructor
  · intro h
    rcases List.mem_append.1 h with h | h
    · exact (List.mem_append.1 h).resolve_left (hpre.not_has hc)
    · exact absurd h (hpost.not_has hc)
  · intro h
    exact List.mem_append_left _ (List.mem_append_right _ h)

/-- What comes without a trace before and after an exit does not change the record. -/
theorem Audited.around {post : GateLog} (h : Audited a hasHandler refused tail out) (hpre : Traceless pre)
    (hpost : Traceless post) : Audited a hasHandler refused (pre ++ tail ++ post) out := by
  obtain ⟨entry, hrecords, hparams, hmatches⟩ := h
  have hreturned : HandlerReturned (pre ++ tail ++ post) ↔ HandlerReturned tail :=
    exists_congr fun _ => exists_congr fun _ => has_around hpre hpost rfl
  have hqueued : Queued (pre ++ tail ++ post) ↔ Queued tail :=
    exists_congr fun _ => exists_congr fun _ => exists_congr fun _ => exists_congr fun _ => has_around hpre hpost rfl
  refine ⟨entry, ?_, hparams, ?_⟩
  · rw [auditRecords_append, auditRecords_append, hpre.records, hpost.records, hrecords]
    rfl
  · exact { hmatches with
      allow := hmatches.allow.trans hreturned.symm
      pending := hmatches.pending.trans hqueued.symm }

theorem Audited.congr {refused' : Prop} (h : Audited a hasHandler refused log out) (hiff : refused ↔ refused') :
    Audited a hasHandler refused' log out := by
  rwa [← propext hiff]

theorem Audited.after (h : Audited a hasHandler refused tail out) (hpre : Traceless pre) :
    Audited a hasHandler refused (pre ++ tail) out := by
  simpa using h.around hpre Traceless.nil

/-- An exit that records is audited when the verdict matches. -/
theorem Audited.exit {entry : AuditEntry} (hpre : Traceless pre) (hrecords : auditRecords tail = [entry]) (hparams : entry.params = a)
    (hmatches : VerdictMatches hasHandler refused tail out entry.verdict) :
    Audited a hasHandler refused (pre ++ tail) out :=
  Audited.after ⟨entry, hrecords, hparams, hmatches⟩ hpre

/-! ### Exits -/

theorem matches_denied (hreturned : ¬ HandlerReturned log) (hqueued : ¬ Queued log)
    (hout : (∃ msg, out = .error msg) ∨ refused ∧ ∃ r, out = .ok r ∧ r.status = .skipped) :
    VerdictMatches hasHandler refused log out "deny" where
  allow := iff_of_false (by decide) hreturned
  dryRun := by
    refine iff_of_false (by decide) ?_
    rintro ⟨r, rfl, hstatus⟩
    obtain ⟨msg, hout⟩ | ⟨-, r', hout, hstatus'⟩ := hout
    · cases hout
    · cases hout
      rw [hstatus] at hstatus'
      cases hstatus'
  pending := iff_of_false (by decide) hqueued
  skipped := by
    refine iff_of_false (by decide) ?_
    rintro ⟨r, rfl, hstatus⟩
    obtain ⟨msg, hout⟩ | ⟨hrefused, r', hout, hstatus'⟩ := hout
    · cases hout
    · cases hout
      rcases hstatus with hstatus | ⟨-, -, hnot⟩
      · rw [hstatus] at hstatus'
        cases hstatus'
      · exact hnot hrefused
  deny := iff_of_true rfl (hout.imp_right fun h => h.1)

/-- A result that is no refusal. -/
theorem matches_result (verdict : String) (status : GatewayStatus) {r : GatewayResult} (hstatus : r.status = status)
    (hrefused : ¬ refused) (hallow : verdict = "allow" ↔ HandlerReturned log)
    (hdryRun : verdict = "dry_run" ↔ status = .dryRun) (hpending : verdict = "pending" ↔ Queued log)
    (hskipped : verdict = "skipped" ↔ status = .deduplicated ∨ hasHandler = false ∧ status = .skipped)
    (hdeny : verdict ≠ "deny") : VerdictMatches hasHandler refused log (.ok r) verdict where
  allow := hallow
  dryRun := by
    rw [hdryRun, ← hstatus]
    exact ⟨fun h => ⟨r, rfl, h⟩, fun ⟨_, hr, h⟩ => Except.ok.inj hr ▸ h⟩
  pending := hpending
  skipped := by
    rw [hskipped, ← hstatus]
    constructor
    · intro h
      exact ⟨r, rfl, h.imp_right fun h => ⟨h.1, h.2, hrefused⟩⟩
    · rintro ⟨_, hr, h⟩
      cases hr
      exact h.imp_right fun h => ⟨h.1, h.2.1⟩
  deny := by
    refine iff_of_false hdeny ?_
    rintro (⟨msg, h⟩ | h)
    · cases h
    · exact hrefused h

theorem not_returned_record (entry : AuditEntry) : ¬ HandlerReturned [⟨.record entry, ()⟩] := by
  rintro ⟨a, summary, h⟩
  cases List.mem_singleton.1 h

theorem not_queued_record (entry : AuditEntry) : ¬ Queued [⟨.record entry, ()⟩] := by
  rintro ⟨a, reason, rationale, id, h⟩
  cases List.mem_singleton.1 h

end Exits

/-! ### Checks that a well-shaped action passes -/

section Shapes

variable {py : Python} {a : Action}

theorem Action.WellShaped.get_args (h : a.WellShaped) : a.get "args" .none = .none ∨ ∃ entries, a.get "args" .none = .dict entries := by
  unfold Action.get
  cases hargs : a.lookup "args" with
  | none =>
      exact .inl rfl
  | some v =>
      obtain ⟨entries, rfl⟩ := h.args v hargs
      exact .inr ⟨entries, rfl⟩

theorem Action.WellShaped.get_argv (h : a.WellShaped) : ∃ items : List String, a.get "argv" (.list []) = .list (items.map .str) := by
  unfold Action.get
  cases hargv : a.lookup "argv" with
  | none =>
      exact ⟨[], rfl⟩
  | some v =>
      obtain ⟨items, rfl⟩ := h.argv v hargv
      exact ⟨items, rfl⟩

/-- The arguments, or an empty dict, can be asked for a key. -/
theorem Action.WellShaped.getKey_args (h : a.WellShaped) (key : String) (default : Val) :
    ∃ v, ((a.get "args" .none).orElse (.dict [])).getKey key default = .ok v := by
  rcases h.get_args with hargs | ⟨entries, hargs⟩
  · exact ⟨_, by rw [hargs]; rfl⟩
  · rw [hargs]
    unfold Val.orElse
    split <;> exact ⟨_, rfl⟩

theorem actionLabel_ok (py : Python) (h : a.WellShaped) : ∃ tool, actionLabel py a = .ok tool := by
  obtain ⟨items, hargv⟩ := h.get_argv
  unfold actionLabel
  rw [hargv]
  dsimp only
  split
  all_goals exact ⟨_, rfl⟩

theorem actionDedupKey_ok (py : Python) (h : a.WellShaped) : ∃ key, actionDedupKey py a = .ok key := by
  obtain ⟨tool, htool⟩ := actionLabel_ok py h
  unfold actionDedupKey
  rw [htool]
  split
  · split <;> exact ⟨_, rfl⟩
  · exact ⟨_, rfl⟩

theorem needsInterrupt_ok (py : Python) (h : a.WellShaped) (channels : List String) : ∃ v, needsInterrupt py channels a = .ok v := by
  obtain ⟨items, hargv⟩ := h.get_argv
  obtain ⟨channel, hchannel⟩ := h.getKey_args "channel" (.str "")
  unfold needsInterrupt
  rw [hargv, hchannel]
  simp only [Val.iterate]
  split
  · exact ⟨_, rfl⟩
  split
  · split
    · exact ⟨_, rfl⟩
    split
    · simp only [bind, Except.bind]
      split <;> exact ⟨_, rfl⟩
    · exact ⟨_, rfl⟩
  split
  · simp only [bind, Except.bind]
    split <;> exact ⟨_, rfl⟩
  · exact ⟨_, rfl⟩

theorem evaluate_ok (py : Python) (h : a.WellShaped) (config : AutoApprove) (origin : Origin) :
    ∃ d, evaluate py a config origin = .ok d := by
  obtain ⟨channel, hchannel⟩ := h.getKey_args "channel" .none
  obtain ⟨recipient, hto⟩ := h.getKey_args "to" .none
  have hdest : ∀ stype, ∃ dest, actionDestination py a stype = .ok dest := by
    intro stype
    unfold actionDestination
    simp only [hchannel, hto]
    cases stype with
    | slackPost =>
        exact ⟨_, rfl⟩
    | emailSend =>
        dsimp only
        split <;> exact ⟨_, rfl⟩
  unfold evaluate
  split
  · exact ⟨_, rfl⟩
  split
  · exact ⟨_, rfl⟩
  split
  · exact ⟨_, rfl⟩
  rename_i stype _ _ _ _ _
  obtain ⟨dest, hdest⟩ := hdest stype
  rw [hdest]
  simp only [bind, Except.bind]
  split <;> exact ⟨_, rfl⟩

end Shapes

/-! ### Programs -/

section Programs

variable {py : Python} {g : Gateway} {a : Action} {hasHandler : Bool} {refused : Prop} {log : GateLog}
  {tool rationale : String}

/-- Every end of the program is audited. -/
def EndsAudited (a : Action) (hasHandler : Bool) (refused : Prop) (prog : GateProg GatewayResult) (log : GateLog) :
    Prop :=
  prog.Follows (fun _ _ => True) (fun _ _ => True) (fun log r => Audited a hasHandler refused log (.ok r))
    (fun log msg => Audited a hasHandler refused log (.error msg)) log

/-- A record that is raised after. -/
theorem endsAudited_denied {reason msg : String} (h : Traceless log) :
    EndsAudited a hasHandler refused
      ((Gateway.record py a tool "deny" reason rationale false "").bind fun _ => Prog.raise msg) log :=
  ⟨trivial, fun _ _ => Audited.exit h rfl rfl
    (matches_denied (not_returned_record _) (not_queued_record _) (.inl ⟨msg, rfl⟩))⟩

theorem endsAudited_runHandler {key : String} (hrefused : ¬ refused) (h : Traceless log) :
    EndsAudited a hasHandler refused (Gateway.runHandler py a tool key rationale hasHandler) log := by
  unfold Gateway.runHandler
  cases hasHandler with
  | false =>
      refine ⟨trivial, fun _ _ => ⟨trivial, fun _ _ => Audited.exit (h.append rfl) rfl rfl ?_⟩⟩
      exact matches_result "skipped" .skipped rfl hrefused (iff_of_false (by decide) (not_returned_record _))
        (by decide) (iff_of_false (by decide) (not_queued_record _)) (by decide) (by decide)
  | true =>
      refine ⟨trivial, fun outcome _ => ?_⟩
      cases outcome with
      | error exc =>
          refine ⟨trivial, fun _ _ => ⟨trivial, fun _ _ => ?_⟩⟩
          rw [List.append_assoc, List.append_assoc]
          refine Audited.exit h rfl rfl (matches_denied ?_ ?_ (.inl ⟨_, rfl⟩))
          · rintro ⟨b, summary, hmem⟩
            simp [Log.Has] at hmem
          · rintro ⟨b, reason, rationale, id, hmem⟩
            simp [Log.Has] at hmem
      | ok summary =>
          refine ⟨trivial, fun _ _ => ?_⟩
          rw [List.append_assoc]
          refine Audited.exit h rfl rfl
            (matches_result "allow" .executed rfl hrefused ?_ (by decide) ?_ (by decide) (by decide))
          · exact iff_of_true rfl ⟨a, summary, List.mem_cons_self⟩
          · refine iff_of_false (by decide) ?_
            rintro ⟨b, reason, rationale, id, hmem⟩
            simp [Log.Has] at hmem

theorem endsAudited_runPassed (hshape : a.WellShaped) (hrefused : ¬ refused) (h : Traceless log) :
    EndsAudited a hasHandler refused (g.runPassed py a tool rationale hasHandler) log := by
  unfold Gateway.runPassed
  split
  · exact endsAudited_denied h
  split
  · refine ⟨trivial, fun _ _ => Audited.exit h rfl rfl ?_⟩
    exact matches_result "dry_run" .dryRun rfl hrefused (iff_of_false (by decide) (not_returned_record _))
      (by decide) (iff_of_false (by decide) (not_queued_record _)) (by simp) (by decide)
  refine ⟨trivial, fun admitted _ => ?_⟩
  cases admitted with
  | false =>
      exact endsAudited_denied (h.append rfl)
  | true =>
      obtain ⟨key, hkey⟩ := actionDedupKey_ok py hshape
      simp only [hkey, Prog.ofExcept, Prog.bind_eq, Prog.ret_bind, Bool.not_true, Bool.false_eq_true, if_false]
      refine ⟨trivial, fun claimed _ => ?_⟩
      cases claimed with
      | false =>
          refine ⟨trivial, fun _ _ => Audited.exit ((h.append rfl).append rfl) rfl rfl ?_⟩
          exact matches_result "skipped" .deduplicated rfl hrefused (iff_of_false (by decide) (not_returned_record _))
            (by decide) (iff_of_false (by decide) (not_queued_record _)) (by simp) (by decide)
      | true =>
          exact endsAudited_runHandler hrefused ((h.append rfl).append rfl)

theorem endsAudited_runVerdict {approved : Bool} {v : BlockVerdict} (hshape : a.WellShaped) (hrefused : ¬ refused)
    (h : Traceless log) : EndsAudited a hasHandler refused (g.runVerdict py a tool rationale hasHandler approved v) log := by
  unfold Gateway.runVerdict
  split
  · exact endsAudited_denied h
  · exact endsAudited_runPassed hshape hrefused h

/-- An action of a mutating type passes the type check. -/
theorem checkedAction_ok (htype : mutatingTypes.contains (a.type py) = true) (text : String) :
    Gateway.checkedAction py (.dict a) text = .ok a := by
  simp only [Gateway.checkedAction, htype, if_true]

theorem endsAudited_executeApproved (htype : mutatingTypes.contains (a.type py) = true) (hshape : a.WellShaped)
    (hrefused : ¬ refused) (h : Traceless log) :
    EndsAudited a hasHandler refused (g.executeApproved py (.dict a) hasHandler rationale) log := by
  obtain ⟨tool, htool⟩ := actionLabel_ok py hshape
  unfold Gateway.executeApproved
  simp only [checkedAction_ok htype, htool, Prog.ofExcept, Prog.bind_eq, Prog.ret_bind]
  exact ⟨trivial, fun files _ => endsAudited_runVerdict hshape hrefused (h.append rfl)⟩

theorem endsAudited_enqueue {reason : String} (hrefused : ¬ refused) (h : Traceless log) :
    EndsAudited a hasHandler refused (Gateway.enqueue py a tool reason rationale) log := by
  refine ⟨trivial, fun id _ => ⟨trivial, fun _ _ => ?_⟩⟩
  rw [List.append_assoc]
  refine Audited.exit h rfl rfl
    (matches_result "pending" .pendingApproval rfl hrefused ?_ (by decide) ?_ (by simp) (by decide))
  · refine iff_of_false (by decide) ?_
    rintro ⟨b, summary, hmem⟩
    simp [Log.Has] at hmem
  · exact iff_of_true rfl ⟨a, reason, rationale, id, List.mem_cons_self⟩

/-- The trust ladder leaves no trace, and raises nothing. -/
theorem traceless_autoRationale (hshape : a.WellShaped) (origin : Origin) (h : Traceless log) :
    (g.autoRationale py a origin hasHandler).Follows (fun _ _ => True) (fun _ _ => True) (fun log _ => Traceless log)
      (fun _ _ => False) log := by
  unfold Gateway.autoRationale
  split
  swap
  · exact h
  unfold Gateway.tryAutoApprove
  split
  · exact h
  rename_i config _
  obtain ⟨decision, hdecision⟩ := evaluate_ok py hshape config origin
  rw [hdecision]
  simp only [Prog.bind_eq, Prog.ofExcept, Prog.ret_bind]
  split
  · exact h
  have hslot : ∀ stype date max left log, Traceless log →
      (Gateway.claimSlot stype date max left).Follows (fun _ _ => True) (fun _ _ => True) (fun log _ => Traceless log)
        (fun _ _ => False) log := by
    intro stype date max left
    induction left with
    | zero =>
        exact fun _ h => h
    | succ left ih =>
        refine fun _ h => ⟨trivial, fun claimed _ => ?_⟩
        cases claimed with
        | false =>
            exact ih _ (h.append rfl)
        | true =>
            exact h.append rfl
  have hclaim : (Gateway.claimDailySlot py a config).Follows (fun _ _ => True) (fun _ _ => True)
      (fun log _ => Traceless log) (fun _ _ => False) log := by
    unfold Gateway.claimDailySlot
    split
    · exact h
    split
    · exact h
    split
    · exact h
    exact ⟨trivial, fun date _ => hslot _ _ _ _ _ (h.append rfl)⟩
  exact hclaim.bind fun _ _ hend => hend

/-- The trust ladder between the verdict and the queue. -/
theorem endsAudited_ladder {origin : Origin} {reason : String} (htype : mutatingTypes.contains (a.type py) = true)
    (hshape : a.WellShaped) (hrefused : ¬ refused) (h : Traceless log) :
    EndsAudited a hasHandler refused ((g.autoRationale py a origin hasHandler).bind fun auto =>
      match auto with
      | some auto => g.executeApproved py (.dict a) hasHandler auto
      | none => Gateway.enqueue py a tool reason rationale) log := by
  refine ((traceless_autoRationale hshape origin h).mono (fun _ _ h => h) fun _ _ h => h.elim).bind fun log auto hlog => ?_
  cases auto with
  | none =>
      exact endsAudited_enqueue hrefused hlog
  | some auto =>
      exact endsAudited_executeApproved htype hshape hrefused hlog

theorem endsAudited_execute (htype : mutatingTypes.contains (a.type py) = true) (hshape : a.WellShaped) :
    EndsAudited a hasHandler False (g.execute py (.dict a) hasHandler rationale) [] := by
  obtain ⟨tool, htool⟩ := actionLabel_ok py hshape
  obtain ⟨interrupt, hinterrupt⟩ := needsInterrupt_ok py hshape g.externalChannels
  unfold Gateway.execute
  simp only [checkedAction_ok htype, htool, hinterrupt, Prog.ofExcept, Prog.bind_eq, Prog.ret_bind]
  refine ⟨trivial, fun files _ => ?_⟩
  simp only [Prog.ret_bind]
  split
  · exact endsAudited_ladder htype hshape not_false (Traceless.nil.append rfl)
  · exact endsAudited_runVerdict hshape not_false (Traceless.nil.append rfl)

/-- `enqueue_for_approval` refuses the action with the files that it sees. -/
def Gateway.Refuses (py : Python) (g : Gateway) (a : Action) (log : GateLog) : Prop :=
  ∃ files, log.head? = some ⟨.files, files⟩ ∧ (g.verdict py files a).blocked = true

theorem endsAudited_enqueueForApproval {reason senderId transport chatId : String}
    (htype : mutatingTypes.contains (a.type py) = true) (hshape : a.WellShaped) :
    (g.enqueueForApproval py (.dict a) reason rationale senderId transport chatId hasHandler).Follows (fun _ _ => True)
      (fun _ _ => True) (fun log r => Audited a hasHandler (g.Refuses py a log) log (.ok r))
      (fun log msg => Audited a hasHandler (g.Refuses py a log) log (.error msg)) [] := by
  obtain ⟨tool, htool⟩ := actionLabel_ok py hshape
  unfold Gateway.enqueueForApproval
  simp only [checkedAction_ok htype, htool, Prog.ofExcept, Prog.bind_eq, Prog.ret_bind]
  refine ⟨trivial, fun files _ => ?_⟩
  simp only [Prog.ret_bind]
  have htraceless : Traceless ([] ++ [⟨.files, files⟩]) := Traceless.nil.append rfl
  split
  case isTrue hblocked =>
      refine ⟨trivial, fun _ _ => Audited.exit htraceless rfl rfl ?_⟩
      exact matches_denied (not_returned_record _) (not_queued_record _) (.inr ⟨⟨files, rfl, hblocked⟩, _, rfl, rfl⟩)
  case isFalse hpassed =>
      have hrefuses : ∀ {log : GateLog}, [] ++ [⟨.files, files⟩] <+: log → ¬ g.Refuses py a log := by
        rintro _ ⟨more, rfl⟩ ⟨files', hfiles, hblocked⟩
        cases hfiles
        exact hpassed hblocked
      refine (endsAudited_ladder htype hshape not_false htraceless).grows.mono ?_ ?_
      · exact fun _ _ h => h.2.congr (iff_of_false not_false (hrefuses h.1))
      · exact fun _ _ h => h.2.congr (iff_of_false not_false (hrefuses h.1))

theorem endsAudited_approve {id : ℕ} {row : PendingApproval} (htype : mutatingTypes.contains (row.action.type py) = true)
    (hshape : row.action.WellShaped) :
    EndsAudited row.action true False
      ((g.executeApproved py (.dict row.action) true s!"approved (id={id})").catchWith fun msg => do
        gate (.setStatus id .pending)
        Prog.raise msg) [] := by
  refine Prog.Follows.catchWith (endsAudited_executeApproved htype hshape not_false Traceless.nil) fun log msg h => ?_
  refine ⟨trivial, fun _ _ => ?_⟩
  have hpost : Traceless ([] ++ [⟨.setStatus id .pending, ()⟩]) := Traceless.nil.append rfl
  have haudited := h.around Traceless.nil hpost
  rw [List.nil_append, List.nil_append] at haudited
  exact haudited

end Programs

/-! ### One record a call -/

/-- A mail that the trust ladder lets through. -/
def ladderMail : Action :=
  [("type", .str "email_send"), ("to", .str "a@b.c"), ("body", .str "xin chào")]

/-- The calls of the mail, which is classified and queried twice and sent once. -/
def ladderTrace : GateLog :=
  (({ sampleGateway with autoApprove := oneMail } : Gateway).execute digestPython (.dict ladderMail) true "report").trace
    (GateCall.handle digestPython) sampleGateWorld

/-- In a run of any calls, the audit log grows by the records of the calls, in their order. -/
theorem audit_of_chronicle {py : Python} {comes : GateRequest → Prop}
    {allows : GatePool → GateRequest → GateCall → Prop} {past : List AuditEntry} {events : List GateEvent}
    {pool : GatePool}
    (h : (gateRuns py comes allows).Chronicle (fun pool => pool.procs = [] ∧ pool.world.audit = past) events pool) :
    pool.world.audit = past ++ auditRecords (events.map fun ev => ev.entry) := by
  induction h with
  | init h =>
      simp [h.2, auditRecords]
  | @run events w front back p e k log _ _ ih =>
      rw [List.map_append, auditRecords_append, ← List.append_assoc, ← ih]
      cases e with
      | claim key =>
          simp only [gateRuns, gateSystem, GateCall.handle]
          split <;> simp [auditRecords]
      | enqueue a reason rationale =>
          simp only [gateRuns, gateSystem, GateCall.handle]
          split <;> simp [auditRecords]
      | _ =>
          simp [gateRuns, gateSystem, GateCall.handle, GateWorld.updateApprovals, auditRecords]
  | start _ _ ih =>
      exact ih
  | leave _ ih =>
      exact ih
  | ext _ hext ih =>
      obtain ⟨monotonic, localDate, files, handler, rfl⟩ := hext
      exact ih

end ProjectManager
