import ProjectManager.Actions.Contract
import ProjectManager.Lib.Matching

/-!
# What redaction leaves

Every pattern of a credential takes more characters in a row than the mask has between its asterisks, and none
of them is an asterisk: so a redacted value has no secret, and redacting it again changes nothing.  The audit log
keeps redacted entries; the approval queue redacts the action and keeps the reason and the rationale as they come
(`stores_clean_iff`).
-/

namespace ProjectManager

open Pattern Process

/-! ### Texts -/

section

variable {py : Python} {text key : String}

/-- The mask, with the asterisk as its separator. -/
theorem redacted_mask : Mask '*' 8 redacted.toList where
  head := by decide
  last := by decide
  short := by
    have hall : ∀ rest ∈ redacted.toList.tails, ∀ w ∈ rest.inits, '*' ∉ w → w.length ≤ 8 := by
      decide
    intro w hw
    obtain ⟨rest, hbegin, hend⟩ := List.infix_iff_prefix_suffix.1 hw
    exact hall rest ((List.mem_tails _ _).2 hend) w ((List.mem_inits _ _).2 hbegin)

/-- All patterns but the last have no boundaries, and take no asterisk. -/
theorem vendor_maskable : ∀ rx ∈ (secretRegexes py).dropLast, Maskable '*' 8 rx.parts := by
  simp only [secretRegexes, List.dropLast, List.forall_mem_cons, List.not_mem_nil, false_implies, implies_true,
    and_true]
  and_intros <;> decide

/-- What the last pattern takes between its boundaries. -/
def telegramToken (py : Python) : List Part :=
  .run py.isDecimal 8 (some 10) :: (lit ":" ++ [exactly 35 (isAsciiOr "_-")])

theorem telegramToken_maskable (hstar : py.isDecimal '*' = false) : Maskable '*' 8 (telegramToken py) := by
  have hrest : Maskable '*' 8 (lit ":" ++ [exactly 35 (isAsciiOr "_-")]) := by
    decide
  refine ⟨List.forall_mem_cons.2 ⟨rfl, hrest.runs⟩, List.forall_mem_cons.2 ⟨?_, hrest.avoids⟩, ?_⟩
  · simp [Part.avoids, hstar]
  · have := hrest.long
    simp only [telegramToken, minLength]
    omega

theorem secretRegexes_eq (py : Python) : ∃ last, secretRegexes py = (secretRegexes py).dropLast ++ [last] ∧
    last.parts = edged true (telegramToken py) :=
  ⟨_, rfl, rfl⟩

theorem secretRegexes_maskable (hstar : py.isDecimal '*' = false) :
    ∀ parts ∈ (secretRegexes py).map fun rx => rx.parts, ∃ edges mid, parts = edged edges mid ∧ Maskable '*' 8 mid := by
  obtain ⟨last, hsplit, hlast⟩ := secretRegexes_eq py
  intro parts hparts
  obtain ⟨rx, hrx, rfl⟩ := List.mem_map.1 hparts
  rw [hsplit, List.mem_append, List.mem_singleton] at hrx
  obtain hrx | rfl := hrx
  · exact ⟨false, rx.parts, rfl, vendor_maskable rx hrx⟩
  · exact ⟨true, telegramToken py, hlast, telegramToken_maskable hstar⟩

theorem secretRegexes_pairwise : ((secretRegexes py).map fun rx => rx.parts).Pairwise fun parts _ =>
    Maskable '*' 8 parts := by
  obtain ⟨last, hsplit, -⟩ := secretRegexes_eq py
  rw [hsplit, List.map_append, List.pairwise_append]
  have hvendor : ∀ parts ∈ (secretRegexes py).dropLast.map fun rx => rx.parts, Maskable '*' 8 parts := by
    intro parts hparts
    obtain ⟨rx, hrx, rfl⟩ := List.mem_map.1 hparts
    exact vendor_maskable rx hrx
  refine ⟨?_, List.pairwise_singleton _ _, fun parts hparts _ _ => hvendor parts hparts⟩
  exact List.Pairwise.imp_of_mem (fun hparts _ _ => hvendor _ hparts)
    (List.pairwise_of_forall (R := fun _ _ => True) fun _ _ => trivial)

theorem findSecret_eq_none_iff : findSecret py text = none ↔
    ∀ parts ∈ (secretRegexes py).map fun rx => rx.parts, ¬ Found py.isWord parts none text.toList := by
  simp only [findSecret, Option.map_eq_none_iff, List.find?_eq_none, List.forall_mem_map, search_iff]

theorem redactText_toList : (redactText py text).toList =
    maskAll py.isWord redacted.toList ((secretRegexes py).map fun rx => rx.parts) text.toList := by
  unfold redactText
  generalize secretRegexes py = patterns
  induction patterns generalizing text with
  | nil =>
      rfl
  | cons rx patterns ih =>
      rw [List.foldl_cons, ih, List.map_cons, maskAll_cons, replaceAll, String.toList_ofList, String.length_toList]

/-- A redacted text has no secret. -/
theorem findSecret_redactText (hstar : py.isDecimal '*' = false) : findSecret py (redactText py text) = none := by
  rw [findSecret_eq_none_iff, redactText_toList]
  exact maskAll_not_found redacted_mask (secretRegexes_maskable hstar) secretRegexes_pairwise

example : redactText samplePython "key sk-or-0123456789" = "key ***REDACTED***" := by
  decide +kernel

/-- A text is redacted to itself exactly when it has no secret. -/
theorem redactText_eq_iff (hstar : py.isDecimal '*' = false) :
    redactText py text = text ↔ findSecret py text = none := by
  constructor
  · intro h
    rw [← h]
    exact findSecret_redactText hstar
  · intro h
    apply String.toList_injective
    rw [redactText_toList]
    exact maskAll_of_not_found (findSecret_eq_none_iff.1 h)

/-- Every match is longer than eight characters. -/
theorem findSecret_of_short (hstar : py.isDecimal '*' = false) (h : text.toList.length ≤ 8) :
    findSecret py text = none := by
  rw [findSecret_eq_none_iff]
  intro parts hparts hfound
  obtain ⟨edges, mid, rfl, hmid⟩ := secretRegexes_maskable hstar parts hparts
  obtain ⟨pre, w, post, htext, hacc⟩ := hfound
  have hle := minLength_le ((accepts_edged hmid.runs).1 hacc).1
  have hlong := hmid.long
  have hlen := congrArg List.length htext
  simp only [List.length_append] at hlen
  omega

/-- The mask itself has no secret. -/
theorem findSecret_redacted (hstar : py.isDecimal '*' = false) : findSecret py redacted = none := by
  rw [findSecret_eq_none_iff]
  intro parts hparts hfound
  obtain ⟨edges, mid, rfl, hmid⟩ := secretRegexes_maskable hstar parts hparts
  obtain ⟨pre, w, post, htext, hacc⟩ := hfound
  obtain ⟨hword, -⟩ := (accepts_edged hmid.runs).1 hacc
  have := redacted_mask.short w ⟨pre, post, htext.symm⟩ (not_mem_of_accepts hmid.avoids hword)
  have := minLength_le hword
  have := hmid.long
  omega

/-! ### Values -/

mutual

/-- A redacted value has no secret. -/
theorem containsSecret_redact (hstar : py.isDecimal '*' = false) : ∀ v : Val, containsSecret py (redact py v) = none
  | .dict entries => entriesContainSecret_redact hstar entries
  | .list items => itemsContainSecret_redact hstar items
  | .str text => by
      simp only [redact, containsSecret, findSecret_redactText hstar, Option.map_none]
  | .none => rfl
  | .bool _ => rfl
  | .int _ => rfl
  | .float _ => rfl

theorem entriesContainSecret_redact (hstar : py.isDecimal '*' = false) :
    ∀ entries : List (String × Val), entriesContainSecret py (redactEntries py entries) = none
  | [] => rfl
  | (key, v) :: rest => by
      have hrest := entriesContainSecret_redact hstar rest
      by_cases hkey : keyIsSecret py key = true
      · have hmask : Val.isSecretValue (.str redacted) = false := by
          decide
        simp only [redactEntries, entriesContainSecret, hkey, hmask, if_true, Bool.and_false, Bool.false_eq_true,
          if_false, containsSecret, findSecret_redacted hstar, Option.map_none, Option.none_or, hrest]
      · simp only [redactEntries, entriesContainSecret, hkey, Bool.false_and, Bool.false_eq_true, if_false,
          containsSecret_redact hstar v, Option.none_or, hrest]

theorem itemsContainSecret_redact (hstar : py.isDecimal '*' = false) :
    ∀ items : List Val, itemsContainSecret py (redactItems py items) = none
  | [] => rfl
  | v :: rest => by
      simp only [redactItems, itemsContainSecret, containsSecret_redact hstar v, Option.none_or,
        itemsContainSecret_redact hstar rest]

end

mutual

/-- Redacting twice is redacting once. -/
theorem redact_redact (hstar : py.isDecimal '*' = false) : ∀ v : Val, redact py (redact py v) = redact py v
  | .dict entries => congrArg Val.dict (redactEntries_redactEntries hstar entries)
  | .list items => congrArg Val.list (redactItems_redactItems hstar items)
  | .str _ => congrArg Val.str ((redactText_eq_iff hstar).2 (findSecret_redactText hstar))
  | .none => rfl
  | .bool _ => rfl
  | .int _ => rfl
  | .float _ => rfl

theorem redactEntries_redactEntries (hstar : py.isDecimal '*' = false) :
    ∀ entries : List (String × Val), redactEntries py (redactEntries py entries) = redactEntries py entries
  | [] => rfl
  | (key, v) :: rest => by
      by_cases hkey : keyIsSecret py key = true
      · simp only [redactEntries, hkey, if_true, redactEntries_redactEntries hstar rest]
      · simp only [redactEntries, hkey, Bool.false_eq_true, if_false, redact_redact hstar v,
          redactEntries_redactEntries hstar rest]

theorem redactItems_redactItems (hstar : py.isDecimal '*' = false) :
    ∀ items : List Val, redactItems py (redactItems py items) = redactItems py items
  | [] => rfl
  | v :: rest => by
      simp only [redactItems, redact_redact hstar v, redactItems_redactItems hstar rest]

end

end

/-! ### Stores -/

/-- `asdict` of an entry that was made at a time. -/
def AuditEntry.asdict (entry : AuditEntry) (timestamp : String) : Val :=
  .dict [("action_type", .str entry.actionType), ("tool", .str entry.tool), ("verdict", .str entry.verdict),
    ("reason", .str entry.reason), ("params", .dict entry.params), ("result_summary", .str entry.resultSummary),
    ("dry_run", .bool entry.dryRun), ("rationale", .str entry.rationale), ("timestamp", .str timestamp)]

/-- The payload of a line that `AuditLog.record` appends. -/
def AuditEntry.payload (py : Python) (entry : AuditEntry) (timestamp : String) : Val :=
  redact py (entry.asdict timestamp)

/-- The columns `action_json`, `reason`, `status` and `rationale` of a row. -/
def PendingApproval.columns (row : PendingApproval) : Val :=
  .list [.dict row.action, .str row.reason, .str row.status.text, .str row.rationale]

/-- Nothing in the audit log and the approval queue that the gateway would detect as a secret. -/
structure StoresClean (py : Python) (w : GateWorld) : Prop where
  audit : ∀ entry ∈ w.audit, ∀ timestamp, containsSecret py (entry.payload py timestamp) = none
  approvals : ∀ row ∈ w.approvals.rows, containsSecret py row.columns = none

/-- The reason and the rationale with which an action is queued have no secret. -/
def GateCall.TextsClean (py : Python) : GateCall → Prop
  | .enqueue _ reason rationale => findSecret py reason = none ∧ findSecret py rationale = none
  | _ => True

instance (py : Python) : DecidablePred (GateCall.TextsClean py)
  | .enqueue _ reason rationale =>
      inferInstanceAs (Decidable (findSecret py reason = none ∧ findSecret py rationale = none))
  | .files | .getApproval _ | .transitionIfPending .. | .setStatus .. | .claim _ | .release _ | .today |
    .checkRateLimit _ | .record _ | .invoke _ => .isTrue trivial

/-- No call is running, and the approval queue has no secret. -/
def cleanIdle (py : Python) (pool : GatePool) : Prop :=
  pool.procs = [] ∧ ∀ row ∈ pool.world.approvals.rows, containsSecret py row.columns = none

section

variable {py : Python} {w : GateWorld}

/-- An enqueued action gets a row of its own. -/
theorem rows_enqueue {a : Action} {reason rationale : String} :
    ((GateCall.enqueue a reason rationale).handle py w).2.approvals.rows = w.approvals.rows ++
      [⟨w.approvals.last + 1, redactEntries py a, reason, .pending, rationale⟩] := by
  simp only [GateCall.handle]
  split
  · rename_i approvals hinsert
    exact (Table.Auto.insert?_eq_some hinsert).2.1
  · rename_i hinsert
    obtain ⟨row, hrow, hid⟩ := List.mem_map.1 (Table.Auto.insert?_eq_none.1 hinsert)
    have hid : row.id = w.approvals.last + 1 := hid
    have := w.approvals.le_last row hrow
    omega

theorem rows_updateApprovals {p : PendingApproval → Bool} {status : ApprovalStatus} :
    (w.updateApprovals p status).approvals.rows = w.approvals.rows.map fun row =>
      if p row then { row with status := status } else row :=
  rfl

theorem containsSecret_columns (hstar : py.isDecimal '*' = false) {row : PendingApproval} :
    containsSecret py row.columns = none ↔ entriesContainSecret py row.action = none ∧
      findSecret py row.reason = none ∧ findSecret py row.rationale = none := by
  have hstatus : findSecret py row.status.text = none := by
    apply findSecret_of_short hstar
    cases row.status <;> decide
  simp only [PendingApproval.columns, containsSecret, itemsContainSecret, Option.or_eq_none_iff,
    Option.map_eq_none_iff, hstatus, true_and, and_true]

/-- One call leaves the queue clean exactly when it was clean and the call queues no secret text. -/
theorem approvalsClean_handle (hstar : py.isDecimal '*' = false) (c : GateCall) :
    (∀ row ∈ (c.handle py w).2.approvals.rows, containsSecret py row.columns = none) ↔
      (∀ row ∈ w.approvals.rows, containsSecret py row.columns = none) ∧ c.TextsClean py := by
  have hupdate : ∀ (p : PendingApproval → Bool) (status : ApprovalStatus),
      (∀ row ∈ (w.updateApprovals p status).approvals.rows, containsSecret py row.columns = none) ↔
        ∀ row ∈ w.approvals.rows, containsSecret py row.columns = none := by
    intro p status
    rw [rows_updateApprovals, List.forall_mem_map]
    refine forall₂_congr fun row _ => ?_
    rw [containsSecret_columns hstar, containsSecret_columns hstar]
    split <;> rfl
  cases c with
  | enqueue a reason rationale =>
      have haction : entriesContainSecret py (redactEntries py a) = none := entriesContainSecret_redact hstar a
      simp only [rows_enqueue, List.forall_mem_append, List.forall_mem_singleton, containsSecret_columns hstar,
        haction, true_and, GateCall.TextsClean]
  | transitionIfPending id status =>
      rw [show GateCall.TextsClean py (.transitionIfPending id status) = True from rfl, and_true]
      exact hupdate _ status
  | setStatus id status =>
      rw [show GateCall.TextsClean py (.setStatus id status) = True from rfl, and_true]
      exact hupdate _ status
  | claim key =>
      simp only [GateCall.handle, GateCall.TextsClean, and_true]
      split <;> rfl
  | _ =>
      simp only [GateCall.handle, GateCall.TextsClean, and_true]

variable {comes : GateRequest → Prop} {allows : GatePool → GateRequest → GateCall → Prop} {events : List GateEvent}
  {pool : GatePool}

/-- The queue of a run has no secret exactly when none came with the texts of a queued action. -/
theorem approvalsClean_iff (hstar : py.isDecimal '*' = false)
    (h : (gateRuns py comes allows).Chronicle (cleanIdle py) events pool) :
    (∀ row ∈ pool.world.approvals.rows, containsSecret py row.columns = none) ↔
      ∀ ev ∈ events, ev.entry.1.TextsClean py := by
  induction h with
  | init h =>
      exact iff_of_true h.2 (by simp)
  | @run events w front back p e k log _ _ ih =>
      rw [List.forall_mem_append, List.forall_mem_singleton, ← ih]
      exact approvalsClean_handle hstar e
  | start _ _ ih =>
      exact ih
  | leave _ ih =>
      exact ih
  | ext _ hext ih =>
      obtain ⟨monotonic, localDate, files, handler, rfl⟩ := hext
      exact ih

end

/-- A redacted value has no secret, and redacting it again changes nothing.  In every run the audit log has no
secret, and the approval queue has none exactly when none came with the reason or the rationale of a queued
action. -/
theorem redaction_complete {py : Python} (hstar : py.isDecimal '*' = false) :
    (∀ v, containsSecret py (redact py v) = none ∧ redact py (redact py v) = redact py v) ∧
      ∀ (comes : GateRequest → Prop) (allows : GatePool → GateRequest → GateCall → Prop) (events : List GateEvent)
        (pool : GatePool), (gateRuns py comes allows).Chronicle (cleanIdle py) events pool →
          (StoresClean py pool.world ↔ ∀ ev ∈ events, ev.entry.1.TextsClean py) := by
  refine ⟨fun v => ⟨containsSecret_redact hstar v, redact_redact hstar v⟩, fun comes allows events pool h => ?_⟩
  rw [← approvalsClean_iff hstar h]
  constructor
  · intro hclean
    exact hclean.approvals
  · intro hclean
    exact ⟨fun entry _ timestamp => containsSecret_redact hstar _, hclean⟩

/-! ### Two mails -/

/-- A mail is queued, with a rationale. -/
def queuedMail (rationale : String) : List GateEvent × GatePool :=
  gateSchedule samplePython (fun _ => True) (fun _ _ _ => True) (fun _ _ _ => true) sampleGateWorld
    [.come (.execute sampleGateway
      (.dict [("type", .str "email_send"), ("to", .str "a@b.c"), ("body", .str "xin chào"), ("cookie", .str "")]) false
      rationale), .call 0 9]

theorem chronicle_queuedMail (rationale : String) : (gateRuns samplePython (fun _ => True) fun _ _ _ => True).Chronicle
    (cleanIdle samplePython) (queuedMail rationale).1 (queuedMail rationale).2 :=
  chronicle_gateSchedule_from ⟨rfl, by decide⟩ (fun _ _ _ _ => trivial) fun _ _ => trivial

/-- The queue takes the key that the rationale quotes. -/
theorem redaction_skips_rationale :
    ¬ ∀ events pool, (gateRuns samplePython (fun _ => True) fun _ _ _ => True).Chronicle (cleanIdle samplePython) events
      pool → StoresClean samplePython pool.world := by
  intro h
  have hclean := (h _ _ (chronicle_queuedMail "key sk-or-0123456789")).approvals
  have hsecret : ((queuedMail "key sk-or-0123456789").2.world.approvals.rows.any fun row =>
      (containsSecret samplePython row.columns).isSome) = true := by
    decide +kernel
  obtain ⟨row, hrow, hsome⟩ := List.any_eq_true.1 hsecret
  rw [hclean row hrow] at hsome
  cases hsome

/-- A rationale without a secret leaves the stores clean. -/
theorem redaction_complete_mail :
    (queuedMail "weekly report").2.world.approvals.rows ≠ [] ∧
      StoresClean samplePython (queuedMail "weekly report").2.world := by
  have hqueued : (queuedMail "weekly report").2.world.approvals.rows.isEmpty = false := by
    decide +kernel
  refine ⟨by simpa using hqueued, ?_⟩
  rw [(redaction_complete rfl).2 _ _ _ _ (chronicle_queuedMail "weekly report")]
  decide +kernel

end ProjectManager
