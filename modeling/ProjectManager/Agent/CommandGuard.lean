import ProjectManager.Agent.ChatCommand
import ProjectManager.Lib.Occurrences

/-!
# The guard against polling a command twice

A pending approval is taken for that of a mention when its reason contains the stamp of the mention behind
`chat-command ts=`.  Nothing ends the stamp there, so a reason with a longer stamp matches as well
(`marker_in_reason`): the message `tg:5:1` is taken for the command of `tg:5:12`.  `guard_identifies_iff` says when the
guard finds the approval of the mention, over all histories; a second approval is never queued while one is pending.
-/

namespace ProjectManager

open Process Text

/-! ### Stamps -/

/-- A stamp has none of the characters that stand around it in a reason. -/
structure PlainStamp (ts : String) : Prop where
  space : ' ' ∉ ts.toList
  quote : '\'' ∉ ts.toList
  opening : '(' ∉ ts.toList
  closing : ')' ∉ ts.toList

theorem plainStamp_of_forall {ts : String} {p : Char → Bool} (h : ∀ c ∈ ts.toList, p c = true)
    (hp : p ' ' = false ∧ p '\'' = false ∧ p '(' = false ∧ p ')' = false) : PlainStamp ts := by
  have hnot : ∀ c, p c = false → c ∉ ts.toList := by
    intro c hc hmem
    rw [h c hmem] at hc
    cases hc
  exact ⟨hnot _ hp.1, hnot _ hp.2.1, hnot _ hp.2.2.1, hnot _ hp.2.2.2⟩

/-- The characters of stamps. -/
def isStampChar (c : Char) : Bool :=
  c.isDigit || "tg:-.None".toList.contains c

theorem stampChar_of_digit {c : Char} (h : c.isDigit = true) : isStampChar c = true := by
  simp [isStampChar, h]

theorem stampChars_int (n : ℤ) : ∀ c ∈ (toString n).toList, isStampChar c = true := by
  cases n with
  | ofNat n =>
      intro c hc
      exact stampChar_of_digit (repr_digits n c hc)
  | negSucc n =>
      intro c hc
      have hc : c ∈ ("-" ++ (n + 1).repr).toList := hc
      rw [String.toList_append, List.mem_append] at hc
      obtain hminus | hdigit := hc
      · rw [List.mem_singleton.1 hminus]
        decide
      · exact stampChar_of_digit (repr_digits (n + 1) c hdigit)

theorem stampChars_telegram {update : TelegramUpdate} {m : TelegramMention} (h : toMention update = some m) :
    ∀ c ∈ m.ts.toList, isStampChar c = true := by
  have hchat : ∀ n : Option ℤ, ∀ c ∈ (strOrEmpty n).toList, isStampChar c = true := by
    intro n
    unfold strOrEmpty
    split
    · simp
    · exact stampChars_int _
    · simp
  have hmessage : ∀ n : Option ℤ, ∀ c ∈ ((n.map fun n => toString n).getD "None").toList, isStampChar c = true := by
    intro n
    cases n with
    | none => decide
    | some n => exact stampChars_int n
  obtain ⟨msg, -, hmsg⟩ := Option.bind_eq_some_iff.1 h
  dsimp only at hmsg
  split at hmsg
  · cases hmsg
  · obtain rfl := Option.some.inj hmsg
    intro c hc
    simp only [String.toList_append, List.mem_append] at hc
    obtain ((hleads | hc) | hcolon) | hc := hc
    · revert c
      decide
    · exact hchat _ c hc
    · revert c
      decide
    · exact hmessage _ c hc

theorem plainStamp_of_transport {ts : String} (h : IsTransportTs ts) : PlainStamp ts := by
  refine plainStamp_of_forall (p := isStampChar) ?_ (by decide)
  obtain ⟨-, hdot, hdigits⟩ | ⟨update, m, hm, rfl⟩ := h
  · rw [List.all_eq_true] at hdigits
    intro c hc
    obtain ⟨i, hi⟩ := List.mem_iff_getElem?.1 hc
    obtain hlt | rfl | hlt := lt_trichotomy i 10
    · have hbefore : c ∈ ts.toList.take 10 := List.mem_iff_getElem?.2 ⟨i, by rw [List.getElem?_take_of_lt hlt, hi]⟩
      exact stampChar_of_digit (hdigits c (List.mem_append_left _ hbefore))
    · rw [hdot] at hi
      rw [← Option.some.inj hi]
      decide
    · have hafter : c ∈ ts.toList.drop 11 :=
        List.mem_iff_getElem?.2 ⟨i - 11, by rw [List.getElem?_drop, ← hi]; congr 1; omega⟩
      exact stampChar_of_digit (hdigits c (List.mem_append_right _ hafter))
  · exact stampChars_telegram hm

/-! ### Markers -/

theorem chatMarker_toList (ts : String) : (chatMarker ts).toList = "chat-command ts=".toList ++ ts.toList :=
  String.toList_append

/-- What stands before the stamp in a marker has one space. -/
theorem toList_chatMarker (ts : String) :
    (chatMarker ts).toList = "chat-command".toList ++ ' ' :: ("ts=".toList ++ ts.toList) := by
  have hword : "chat-command ts=".toList = "chat-command".toList ++ ' ' :: "ts=".toList := by decide
  calc (chatMarker ts).toList
      = "chat-command ts=".toList ++ ts.toList := chatMarker_toList ts
    _ = ("chat-command".toList ++ ' ' :: "ts=".toList) ++ ts.toList := congrArg (· ++ ts.toList) hword
    _ = _ := List.append_assoc ..

theorem toList_chatReason (commandId ts : String) : (chatReason commandId ts).toList = "chat-command ".toList ++ '\'' ::
    (commandId.toList ++ '\'' :: (" cần người duyệt ".toList ++ '(' :: ((chatMarker ts).toList ++ ')' :: []))) := by
  have hopen : "chat-command '".toList = "chat-command ".toList ++ ['\''] := by decide
  have hclose : "' cần người duyệt (".toList = '\'' :: (" cần người duyệt ".toList ++ ['(']) := by decide
  have hend : ")".toList = [')'] := by decide
  have hparts : ∀ a b c d e : String, (a ++ b ++ c ++ d ++ e).toList =
      a.toList ++ (b.toList ++ (c.toList ++ (d.toList ++ e.toList))) := by
    intro a b c d e
    simp only [String.toList_append, List.append_assoc]
  calc (chatReason commandId ts).toList
      = "chat-command '".toList ++ (commandId.toList ++ ("' cần người duyệt (".toList ++
          ((chatMarker ts).toList ++ ")".toList))) := hparts _ _ _ _ _
    _ = ("chat-command ".toList ++ ['\'']) ++ (commandId.toList ++ (('\'' :: (" cần người duyệt ".toList ++ ['('])) ++
          ((chatMarker ts).toList ++ [')']))) :=
        congrArg₂ (· ++ ·) hopen (congrArg (commandId.toList ++ ·)
          (congrArg₂ (· ++ ·) hclose (congrArg ((chatMarker ts).toList ++ ·) hend)))
    _ = _ := by
        simp only [List.append_assoc, List.cons_append, List.nil_append]

theorem not_mem_chatMarker {ts : String} {c : Char} (hts : c ∉ ts.toList) (hc : c ∉ "chat-command ts=".toList) :
    c ∉ (chatMarker ts).toList := by
  intro h
  obtain h | h := List.mem_append.1 (chatMarker_toList ts ▸ h)
  · exact hc h
  · exact hts h

/-- A marker occurs in another one just when its stamp begins the other stamp: both have their only space in one
place. -/
theorem marker_in_marker {ts ts' : String} (hts' : PlainStamp ts') :
    (chatMarker ts).toList <:+: (chatMarker ts').toList ↔ ts.toList <+: ts'.toList := by
  rw [toList_chatMarker, toList_chatMarker]
  constructor
  · rintro ⟨before, after, h⟩
    have hrest : ' ' ∉ "ts=".toList ++ ts'.toList := by
      rw [List.mem_append, not_or]
      exact ⟨by decide, hts'.space⟩
    have hcut : "chat-command".toList ++ ' ' :: ("ts=".toList ++ ts'.toList) =
        (before ++ "chat-command".toList) ++ ' ' :: ("ts=".toList ++ (ts.toList ++ after)) := by
      refine h.symm.trans ?_
      simp only [List.append_assoc, List.cons_append]
    obtain ⟨-, hsame⟩ := Separators.cut_only (by decide) hrest hcut
    exact ⟨after, (List.append_cancel_left hsame).symm⟩
  · rintro ⟨after, h⟩
    refine ⟨[], after, ?_⟩
    simp only [← h, List.nil_append, List.append_assoc, List.cons_append]

/-- What has none of the three marks occurs in one of the pieces between them. -/
theorem infix_pieces {m a b c d : List Char} (hne : m ≠ []) (hquote : '\'' ∉ m) (hopening : '(' ∉ m) (hclosing : ')' ∉ m) :
    m <:+: a ++ '\'' :: (b ++ '\'' :: (c ++ '(' :: (d ++ ')' :: []))) ↔ m <:+: a ∨ m <:+: b ∨ m <:+: c ∨ m <:+: d := by
  rw [Occurrences.infix_cut hquote hne, Occurrences.infix_cut hquote hne, Occurrences.infix_cut hopening hne,
    Occurrences.infix_cut hclosing hne, List.infix_nil, or_iff_left hne]

/-- The marker occurs in a reason just when its stamp begins the stamp there, or the name of the command contains
it. -/
theorem marker_in_reason {commandId ts ts' : String} (hts : PlainStamp ts) (hts' : PlainStamp ts') :
    contains (chatReason commandId ts') (chatMarker ts) = true ↔
      startsWith ts' ts = true ∨ contains commandId (chatMarker ts) = true := by
  have hne : (chatMarker ts).toList ≠ [] := by
    rw [toList_chatMarker]
    exact List.append_ne_nil_of_right_ne_nil _ (List.cons_ne_nil _ _)
  -- the pieces without an equals sign have no marker
  have hpiece : ∀ l : List Char, '=' ∉ l → ¬ (chatMarker ts).toList <:+: l := by
    intro l hl h
    refine hl (h.subset ?_)
    rw [toList_chatMarker]
    exact List.mem_append_right _ (List.mem_cons_of_mem _ (List.mem_append_left _ (by decide)))
  have hfirst := hpiece "chat-command ".toList (by decide)
  have hmiddle := hpiece " cần người duyệt ".toList (by decide)
  rw [contains_iff, contains_iff, startsWith_iff, toList_chatReason]
  refine (infix_pieces hne (not_mem_chatMarker hts.quote (by decide)) (not_mem_chatMarker hts.opening (by decide))
    (not_mem_chatMarker hts.closing (by decide))).trans ?_
  rw [marker_in_marker hts', or_iff_right hfirst, or_iff_right hmiddle]
  exact or_comm

/-! ### What a mention does to the queue -/

section Calls

variable {py : Python} {parse : String → Option Val} {g : Gateway} {commands : Catalog}
  {answer : Except AnswerError (String × Option ℚ)} {m : ChatMention} {w w' : GateWorld}

/-- The mention comes to the guard with a command. -/
def ComesToGuard (parse : String → Option Val) (commands : Catalog) (answer : Except AnswerError (String × Option ℚ))
    (commandId : String) (cost : Option ℚ) : Prop :=
  commands.isEmpty = false ∧ ∃ spec clean, requestOf parse commands answer = .ok (.command commandId spec clean, cost)

/-- The end of a call on a mention. -/
inductive CommandEnd (parse : String → Option Val) (commands : Catalog)
    (answer : Except AnswerError (String × Option ℚ)) (m : ChatMention) (w : GateWorld) :
    Except AnswerError (Option (ChatReply × Option ℚ)) → GateWorld → Prop where
  /-- the mention is taken for one whose approval is pending -/
  | found {commandId : String} {cost : Option ℚ} {id : ℕ} (hguard : ComesToGuard parse commands answer commandId cost)
      (hfound : alreadyQueued w (chatMarker m.ts) = some id) :
      CommandEnd parse commands answer m w (.ok (some (.alreadyQueued id, cost))) w
  /-- the command is queued -/
  | queued {commandId preview : String} {cost : Option ℚ} {a : Action} {w' : GateWorld}
      (hguard : ComesToGuard parse commands answer commandId cost)
      (hfound : alreadyQueued w (chatMarker m.ts) = none)
      (hrows : w'.approvals.rows = w.approvals.rows ++
        [⟨w.approvals.last + 1, a, chatReason commandId m.ts, .pending, chatMarker m.ts⟩])
      (hlast : w'.approvals.last = w.approvals.last + 1) :
      CommandEnd parse commands answer m w
        (.ok (some (.queued (some (w.approvals.last + 1)) commandId preview, cost))) w'
  /-- nothing comes to the queue -/
  | passed {out : Except AnswerError (Option (ChatReply × Option ℚ))} {w' : GateWorld}
      (happrovals : w'.approvals = w.approvals)
      (hguard : ∀ commandId cost, ComesToGuard parse commands answer commandId cost →
        alreadyQueued w (chatMarker m.ts) = none)
      (hout : ∀ reply cost, out = .ok (some (reply, cost)) →
        (∀ id, reply ≠ .alreadyQueued id) ∧ ∀ id commandId preview, reply ≠ .queued id commandId preview) :
      CommandEnd parse commands answer m w out w'

theorem gatewayReply_unqueued {commandId preview : String} {r : GatewayResult} (h : r.Unqueued) :
    (∀ id, gatewayReply commandId preview r ≠ .alreadyQueued id) ∧
      ∀ id commandId' preview', gatewayReply commandId preview r ≠ .queued id commandId' preview' := by
  have hstatus : r.status ≠ .pendingApproval := h
  unfold gatewayReply
  rw [if_pos hstatus]
  split <;> simp

/-- From the guard on. -/
theorem queueCommand_ends {commandId : String} {spec : CommandSpec} {clean : List (String × String)} {cost : Option ℚ}
    (hguard : ComesToGuard parse commands answer commandId cost) {out : Except AnswerError ChatReply}
    (h : queueCommand py g m commandId spec clean w = (out, w')) :
    CommandEnd parse commands answer m w (out.map fun reply => some (reply, cost)) w' := by
  unfold queueCommand at h
  cases hfound : alreadyQueued w (chatMarker m.ts) with
  | some existing =>
      rw [hfound] at h
      cases h
      exact .found hguard hfound
  | none =>
      rw [hfound] at h
      cases hargs : spec.actionArgs clean with
      | error msg =>
          rw [hargs] at h
          cases h
          exact .passed rfl (fun _ _ _ => hfound) fun _ _ hout => by cases hout
      | ok args =>
          rw [hargs] at h
          dsimp only at h
          split at h
          case h_1 msg w₁ hrun =>
            cases h
            cases queues_enqueueForApproval.of_run hrun with
            | left happrovals hout =>
                exact .passed happrovals (fun _ _ _ => hfound) fun _ _ hreply => by cases hreply
          case h_2 result w₁ hrun =>
            cases h
            cases queues_enqueueForApproval.of_run hrun with
            | left happrovals hout =>
                refine .passed happrovals (fun _ _ _ => hfound) fun reply cost' hreply => ?_
                obtain rfl : gatewayReply commandId (argsPreview py args 120) result = reply :=
                  (Prod.mk.inj (Option.some.inj (Except.ok.inj hreply))).1
                exact gatewayReply_unqueued (hout result rfl)
            | queued haction hrows hlast hstatus hid =>
                have hreply : gatewayReply commandId (argsPreview py args 120) result =
                    .queued (some (w.approvals.last + 1)) commandId (argsPreview py args 120) := by
                  simp [gatewayReply, hstatus, hid]
                rw [Except.map, hreply]
                exact .queued hguard hfound hrows hlast

/-- A call on a mention ends in one of the three ways. -/
theorem maybeHandleCommand_ends {out : Except AnswerError (Option (ChatReply × Option ℚ))}
    (h : maybeHandleCommand py parse g commands answer m w = (out, w')) :
    CommandEnd parse commands answer m w out w' := by
  unfold maybeHandleCommand at h
  split at h
  case isTrue hempty =>
    cases h
    refine .passed rfl (fun _ _ hguard => ?_) (by simp)
    rw [hguard.1] at hempty
    cases hempty
  case isFalse hempty =>
    -- what is answered before the guard does not come to it
    have hearly : (∀ commandId spec clean cost, requestOf parse commands answer ≠ .ok (.command commandId spec clean, cost)) →
        ∀ commandId cost, ComesToGuard parse commands answer commandId cost →
          alreadyQueued w (chatMarker m.ts) = none := by
      rintro hno commandId cost ⟨-, spec, clean, hcommand⟩
      exact absurd hcommand (hno commandId spec clean cost)
    split at h
    case h_1 e hrequest =>
      cases h
      exact .passed rfl (hearly (by simp [hrequest])) (by simp)
    case h_2 hrequest =>
      cases h
      exact .passed rfl (hearly (by simp [hrequest])) (by simp)
    case h_3 hrequest =>
      cases h
      exact .passed rfl (hearly (by simp [hrequest])) (by simp)
    case h_4 hrequest =>
      cases h
      exact .passed rfl (hearly (by simp [hrequest])) (by simp)
    case h_5 commandId spec clean cost hrequest =>
      cases hqueue : queueCommand py g m commandId spec clean w with
      | mk out' w₁ =>
          rw [hqueue] at h
          cases h
          exact queueCommand_ends ⟨by simpa using hempty, spec, clean, hrequest⟩ hqueue

end Calls

/-! ### Histories -/

/-- What an approval was queued for. -/
structure ChatOrder where
  commandId : String
  ts : String

/-- Which approvals were queued for which mentions. -/
abbrev ChatOrigin :=
  ℕ → Option ChatOrder

/-- Notes the approval that a call has queued for its mention. -/
def ChatOrigin.note (origin : ChatOrigin) (m : ChatMention) :
    Except AnswerError (Option (ChatReply × Option ℚ)) → ChatOrigin
  | .ok (some (.queued (some id) commandId _, _)) => Function.update origin id (some ⟨commandId, m.ts⟩)
  | _ => origin

/-- The histories of a queue: calls on mentions, decisions on approvals, and actions that are queued for another
reason. -/
inductive ChatHistory (py : Python) (parse : String → Option Val) : ChatOrigin → GateWorld → Prop where
  | start {w : GateWorld} (hrows : w.approvals.rows = []) : ChatHistory py parse (fun _ => none) w
  | mention {origin : ChatOrigin} {w w' : GateWorld} (h : ChatHistory py parse origin w) (g : Gateway)
      (commands : Catalog) (answer : Except AnswerError (String × Option ℚ)) (m : ChatMention)
      {out : Except AnswerError (Option (ChatReply × Option ℚ))}
      (hrun : maybeHandleCommand py parse g commands answer m w = (out, w')) :
      ChatHistory py parse (origin.note m out) w'
  | decide {origin : ChatOrigin} {w w' : GateWorld} (h : ChatHistory py parse origin w) (p : PendingApproval → Bool)
      (status : ApprovalStatus) (happrovals : w'.approvals = (w.updateApprovals p status).approvals) :
      ChatHistory py parse origin w'
  | queue {origin : ChatOrigin} {w w' : GateWorld} (h : ChatHistory py parse origin w) (a : Action)
      (reason rationale : String) (hreason : contains reason "chat-command ts=" = false)
      (happrovals : w'.approvals = ((GateCall.enqueue a reason rationale).handle py w).2.approvals) :
      ChatHistory py parse origin w'

/-- The reason of an approval is that of the command it was queued for. -/
def ReasonFits (row : PendingApproval) : Option ChatOrder → Prop
  | some order => row.reason = chatReason order.commandId order.ts ∧ PlainStamp order.ts
  | none => contains row.reason "chat-command ts=" = false

/-- The notes agree with the queue. -/
structure OriginFits (origin : ChatOrigin) (w : GateWorld) : Prop where
  fits : ∀ row ∈ w.approvals.rows, ReasonFits row (origin row.id)
  fresh : ∀ id, w.approvals.last < id → origin id = none

section Histories

variable {py : Python} {parse : String → Option Val} {origin : ChatOrigin} {w w' : GateWorld}

theorem ChatOrigin.note_eq {m : ChatMention} {out : Except AnswerError (Option (ChatReply × Option ℚ))}
    (h : ∀ reply cost, out = .ok (some (reply, cost)) → ∀ id commandId preview, reply ≠ .queued id commandId preview) :
    origin.note m out = origin := by
  unfold ChatOrigin.note
  split
  case h_1 id commandId preview cost =>
    exact absurd rfl (h _ cost rfl (some id) commandId preview)
  case h_2 =>
    rfl

theorem OriginFits.congr (h : OriginFits origin w) (hw : w'.approvals = w.approvals) : OriginFits origin w' := by
  constructor
  · rw [hw]
    exact h.fits
  · rw [hw]
    exact h.fresh

/-- A new row under the next number. -/
theorem OriginFits.append (h : OriginFits origin w) {row : PendingApproval}
    (hrows : w'.approvals.rows = w.approvals.rows ++ [row]) (hid : row.id = w.approvals.last + 1)
    (hlast : w'.approvals.last = w.approvals.last + 1) {order : Option ChatOrder} (hfits : ReasonFits row order) :
    OriginFits (Function.update origin row.id order) w' := by
  constructor
  · intro r hr
    rw [hrows, List.mem_append, List.mem_singleton] at hr
    obtain hold | rfl := hr
    · have hle := w.approvals.le_last r hold
      rw [Function.update_of_ne (by omega)]
      exact h.fits r hold
    · rw [Function.update_self]
      exact hfits
  · intro id hid'
    rw [hlast] at hid'
    rw [Function.update_of_ne (by omega)]
    exact h.fresh id (by omega)

theorem originFits_of_history (h : ChatHistory py parse origin w) : OriginFits origin w := by
  induction h with
  | start hrows =>
      refine ⟨fun row hrow => ?_, fun _ _ => rfl⟩
      rw [hrows] at hrow
      cases hrow
  | mention h g commands answer m hrun ih =>
      cases maybeHandleCommand_ends hrun with
      | found => exact ih
      | queued hguard hfound hrows hlast =>
          exact ih.append hrows rfl hlast ⟨rfl, plainStamp_of_transport m.stamp⟩
      | passed happrovals hguard hout =>
          rw [ChatOrigin.note_eq fun reply cost hreply => (hout reply cost hreply).2]
          exact ih.congr happrovals
  | decide h p status happrovals ih =>
      refine ⟨fun row hrow => ?_, fun id hid => ?_⟩
      · rw [happrovals, rows_updateApprovals, List.mem_map] at hrow
        obtain ⟨old, hold, rfl⟩ := hrow
        have hfits := ih.fits old hold
        split
        · exact hfits
        · exact hfits
      · rw [happrovals] at hid
        exact ih.fresh id hid
  | queue h a reason rationale hreason happrovals ih =>
      rename_i origin w w'
      have hrows : ((GateCall.enqueue a reason rationale).handle py w).2.approvals.rows = _ := rows_enqueue
      have hlast : ((GateCall.enqueue a reason rationale).handle py w).2.approvals.last = _ := last_enqueue
      rw [← happrovals] at hrows hlast
      have hfits : OriginFits (Function.update origin (w.approvals.last + 1) none) w' :=
        ih.append hrows rfl hlast hreason
      rwa [Function.update_eq_self_iff.2 (ih.fresh _ (by simp)).symm] at hfits

/-! ### What the guard finds -/

/-- The stamp of the mention begins that of the approval, or the name of the command contains the marker. -/
def ChatOrder.resembles (order : ChatOrder) (ts : String) : Bool :=
  startsWith order.ts ts || contains order.commandId (chatMarker ts)

theorem ChatOrder.resembles_self (order : ChatOrder) : order.resembles order.ts = true := by
  have hself : startsWith order.ts order.ts = true := startsWith_iff.2 List.prefix_rfl
  simp [resembles, hself]

/-- The commands whose approvals are pending, oldest first. -/
def ChatOrigin.pendingOrders (origin : ChatOrigin) (w : GateWorld) : List ChatOrder :=
  w.pendingApprovals.filterMap fun row => origin row.id

/-- A reason matches just when its command resembles the mention. -/
theorem contains_marker {row : PendingApproval} {order : Option ChatOrder} (h : ReasonFits row order) {ts : String}
    (hts : PlainStamp ts) : contains row.reason (chatMarker ts) = order.any fun o => o.resembles ts := by
  cases order with
  | some order =>
      obtain ⟨hreason, hplain⟩ := h
      rw [hreason, Bool.eq_iff_iff, marker_in_reason hts hplain]
      simp [ChatOrder.resembles]
  | none =>
      have hno : contains row.reason "chat-command ts=" = false := h
      rw [Option.any_none, Bool.eq_false_iff]
      intro hyes
      refine Bool.eq_false_iff.1 hno (contains_iff.2 (List.IsInfix.trans ?_ (contains_iff.1 hyes)))
      exact chatMarker_toList ts ▸ List.infix_append_left

/-- The guard finds the oldest pending approval that resembles the mention. -/
theorem alreadyQueued_eq (h : OriginFits origin w) {ts : String} (hts : PlainStamp ts) :
    alreadyQueued w (chatMarker ts) =
      (w.pendingApprovals.find? fun row => (origin row.id).any fun o => o.resembles ts).map fun row => row.id := by
  unfold alreadyQueued
  rw [← List.head?_filter, ← List.head?_filter, List.filter_congr]
  intro row hrow
  exact contains_marker (h.fits row (List.mem_filter.1 hrow).1) hts

/-- What the guard finds is the approval of the oldest command that resembles the mention. -/
theorem origin_alreadyQueued (h : OriginFits origin w) {ts : String} (hts : PlainStamp ts) :
    (alreadyQueued w (chatMarker ts)).bind origin = (origin.pendingOrders w).find? fun o => o.resembles ts := by
  rw [alreadyQueued_eq h hts, ChatOrigin.pendingOrders, List.find?_filterMap, Option.bind_map]
  rfl

/-- Where the guard finds nothing, no pending approval has the stamp of the mention. -/
theorem ne_of_alreadyQueued_none (h : OriginFits origin w) {ts : String} (hts : PlainStamp ts)
    (hnone : alreadyQueued w (chatMarker ts) = none) : ∀ order ∈ origin.pendingOrders w, order.ts ≠ ts := by
  rintro order horder rfl
  have hfind := origin_alreadyQueued h hts
  rw [hnone] at hfind
  exact List.find?_eq_none.1 hfind.symm order horder order.resembles_self

theorem mem_of_alreadyQueued {marker : String} {id : ℕ} (h : alreadyQueued w marker = some id) :
    ∃ row ∈ w.pendingApprovals, row.id = id := by
  obtain ⟨row, hrow, rfl⟩ := Option.map_eq_some_iff.1 h
  exact ⟨row, List.mem_of_find?_eq_some hrow, rfl⟩

/-- What the guard finds was queued for a mention. -/
theorem origin_of_alreadyQueued (h : OriginFits origin w) {ts : String} (hts : PlainStamp ts) {id : ℕ}
    (hfound : alreadyQueued w (chatMarker ts) = some id) : ∃ order, origin id = some order := by
  rw [alreadyQueued_eq h hts] at hfound
  obtain ⟨row, hrow, rfl⟩ := Option.map_eq_some_iff.1 hfound
  have hresembles := List.find?_some hrow
  obtain ⟨order, horder, -⟩ := (Option.any_eq_true _ _).1 hresembles
  exact ⟨order, horder⟩

end Histories

/-- After any history, the call answers that a mention is queued only for an approval of that mention, and queues no
second one, just when the oldest pending command that resembles the mention, if the mention comes to the guard, has
the stamp of the mention. -/
theorem guard_identifies_iff {py : Python} {parse : String → Option Val} {origin : ChatOrigin} {w : GateWorld}
    (h : ChatHistory py parse origin w) (g : Gateway) (commands : Catalog)
    (answer : Except AnswerError (String × Option ℚ)) (m : ChatMention) :
    ((∀ id cost, (maybeHandleCommand py parse g commands answer m w).1 = .ok (some (.alreadyQueued id, cost)) →
        (∃ row ∈ w.pendingApprovals, row.id = id) ∧ ∃ order, origin id = some order ∧ order.ts = m.ts) ∧
      ((∃ order ∈ origin.pendingOrders w, order.ts = m.ts) →
        (maybeHandleCommand py parse g commands answer m w).2.approvals = w.approvals)) ↔
    ∀ commandId cost, ComesToGuard parse commands answer commandId cost → ∀ order,
      ((origin.pendingOrders w).find? fun o => o.resembles m.ts) = some order → order.ts = m.ts := by
  have hfits := originFits_of_history h
  have hplain := plainStamp_of_transport m.stamp
  have hfind := origin_alreadyQueued hfits hplain
  generalize hrun : maybeHandleCommand py parse g commands answer m w = result
  obtain ⟨out, w'⟩ := result
  constructor
  · rintro ⟨hidentifies, -⟩ commandId cost hguard order horder
    cases maybeHandleCommand_ends hrun with
    | found hguard' hfound =>
        obtain ⟨-, order', horder', hts⟩ := hidentifies _ _ rfl
        rw [hfound] at hfind
        have hsame : origin _ = some order := hfind.trans horder
        rw [horder'] at hsame
        rw [← Option.some.inj hsame]
        exact hts
    | queued hguard' hfound =>
        rw [hfound, horder] at hfind
        cases hfind
    | passed happrovals hnone hout =>
        rw [hnone commandId cost hguard, horder] at hfind
        cases hfind
  · intro holdest
    constructor
    · intro id cost hout
      cases maybeHandleCommand_ends hrun with
      | found hguard hfound =>
          obtain rfl := ChatReply.alreadyQueued.inj (Prod.mk.inj (Option.some.inj (Except.ok.inj hout))).1
          obtain ⟨order, horder⟩ := origin_of_alreadyQueued hfits hplain hfound
          rw [hfound, Option.bind_some, horder] at hfind
          exact ⟨mem_of_alreadyQueued hfound, order, horder, holdest _ _ hguard order hfind.symm⟩
      | queued hguard hfound =>
          exact ChatReply.noConfusion (Prod.mk.inj (Option.some.inj (Except.ok.inj hout))).1
      | passed happrovals hnone hno =>
          exact absurd rfl ((hno _ _ hout).1 id)
    · rintro ⟨order, horder, hts⟩
      cases maybeHandleCommand_ends hrun with
      | found hguard hfound =>
          rfl
      | queued hguard hfound =>
          exact absurd hts (ne_of_alreadyQueued_none hfits hplain hfound order horder)
      | passed happrovals hnone hno =>
          exact happrovals

/-- Library functions that agree with the real ones on the texts of the sample commands. -/
def chatPython : Python :=
  { samplePython with lower := id }

/-- A catalog with one command. -/
def sampleCatalog : Catalog :=
  [("create_issue",
    { description := "Tạo Jira issue", server := "jira", tool := "createissue",
      argsSchema := [("summary", { required := true, maxLen := 200 })], buildArgs := none })]

/-- A model that takes every message for a command. -/
def sampleParse (_ : String) : Option Val :=
  some (.dict [("intent", .str "command"), ("command_id", .str "create_issue"), ("args", .dict [("summary", .str "Bug")])])

/-- A message of the chat 5. -/
def chatUpdate (messageId : ℤ) : TelegramUpdate :=
  ⟨0, some ⟨some messageId, some "tạo issue", some ⟨some 5, some "private"⟩, some 9⟩⟩

/-- The mention of a message of the chat 5. -/
def chatMention (ts : String) (h : IsTransportTs ts) : ChatMention :=
  ⟨ts, "tạo issue", "9", "telegram", "5", h⟩

theorem isTransportTs_one : IsTransportTs "tg:5:1" :=
  .inr ⟨chatUpdate 1, _, rfl, by decide⟩

theorem isTransportTs_twelve : IsTransportTs "tg:5:12" :=
  .inr ⟨chatUpdate 12, _, rfl, by decide⟩

/-- A call on a mention of the chat 5. -/
def sampleCall (ts : String) (h : IsTransportTs ts) (w : GateWorld) :
    Except AnswerError (Option (ChatReply × Option ℚ)) × GateWorld :=
  maybeHandleCommand chatPython sampleParse sampleGateway sampleCatalog (.ok ("", none)) (chatMention ts h) w

/-- The queue after the message 12. -/
def twelveQueued : GateWorld :=
  (sampleCall "tg:5:12" isTransportTs_twelve sampleGateWorld).2

/-- The only approval is that of the message 12. -/
def twelveOrigin : ChatOrigin :=
  Function.update (fun _ => none) 1 (some ⟨"create_issue", "tg:5:12"⟩)

theorem history_twelve : ChatHistory chatPython sampleParse twelveOrigin twelveQueued := by
  have hout : (sampleCall "tg:5:12" isTransportTs_twelve sampleGateWorld).1 =
      .ok (some (.queued (some 1) "create_issue" "summary=Bug", none)) := by
    decide
  have hrun : sampleCall "tg:5:12" isTransportTs_twelve sampleGateWorld =
      (.ok (some (.queued (some 1) "create_issue" "summary=Bug", none)), twelveQueued) :=
    Prod.ext hout rfl
  exact .mention (.start rfl) sampleGateway sampleCatalog (.ok ("", none))
    (chatMention "tg:5:12" isTransportTs_twelve) hrun

/-- The message 12 is polled again: its own approval is found. -/
theorem guard_identifies_again :
    (sampleCall "tg:5:12" isTransportTs_twelve twelveQueued).1 = .ok (some (.alreadyQueued 1, none)) ∧
      (∃ row ∈ twelveQueued.pendingApprovals, row.id = 1) ∧
        ∃ order, twelveOrigin 1 = some order ∧ order.ts = "tg:5:12" := by
  have hout : (sampleCall "tg:5:12" isTransportTs_twelve twelveQueued).1 = .ok (some (.alreadyQueued 1, none)) := by
    decide +kernel
  refine ⟨hout, ((guard_identifies_iff history_twelve sampleGateway sampleCatalog (.ok ("", none))
    (chatMention "tg:5:12" isTransportTs_twelve)).2 fun commandId cost _ order horder => ?_).1 1 none hout⟩
  have hall : ((twelveOrigin.pendingOrders twelveQueued).all fun o => decide (o.ts = "tg:5:12")) = true := by
    decide +kernel
  exact of_decide_eq_true (List.all_eq_true.1 hall order (List.mem_of_find?_eq_some horder))

/-- The message 1 of the same chat is taken for the message 12, and dropped. -/
theorem command_taken_for_another : ¬ ∀ (origin : ChatOrigin) (w : GateWorld),
    ChatHistory chatPython sampleParse origin w → ∀ (answer : Except AnswerError (String × Option ℚ)) (m : ChatMention),
      ∀ id cost, (maybeHandleCommand chatPython sampleParse sampleGateway sampleCatalog answer m w).1 =
          .ok (some (.alreadyQueued id, cost)) →
        (∃ row ∈ w.pendingApprovals, row.id = id) ∧ ∃ order, origin id = some order ∧ order.ts = m.ts := by
  intro h
  have hout : (sampleCall "tg:5:1" isTransportTs_one twelveQueued).1 = .ok (some (.alreadyQueued 1, none)) := by
    decide +kernel
  obtain ⟨-, order, horder, hts⟩ := h twelveOrigin twelveQueued history_twelve (.ok ("", none))
    (chatMention "tg:5:1" isTransportTs_one) 1 none hout
  have hone : twelveOrigin 1 = some ⟨"create_issue", "tg:5:12"⟩ := Function.update_self ..
  obtain rfl := Option.some.inj (hone.symm.trans horder)
  exact absurd hts (by decide)

end ProjectManager
