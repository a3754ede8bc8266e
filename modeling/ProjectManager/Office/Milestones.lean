import ProjectManager.Actions.Mediation
import ProjectManager.Office.Room

/-!
# The milestone mirror

`run_milestone_mirror`, the poller that sends the milestones of the office room to Telegram, with its two
stores: a cursor into the room and the claimed keys, one for each task, milestone and date.  The keys are
claimed before the send and the cursor moves after it.  `milestones_mirrored` says that the mirror loses no
milestone as long as every send is delivered or raises and a day on which one raised is over;
`milestone_lost` is the run in which the retry after a failed send finds its keys claimed.
-/

namespace ProjectManager

/-- A local date, as `isoformat` writes it. -/
structure LocalDate where
  iso : String
  form : ∀ c ∈ iso.toList, c.isDigit = true ∨ c = '-'

/-! ### The mirror -/

section Mirror

variable (py : Python)

/-- The text of a field of a milestone. -/
def OfficeMessage.field (m : OfficeMessage) (key : String) : String :=
  py.str (Action.get m.body key (.str ""))

/-- The key under which a milestone is claimed. -/
def mirrorKey (m : OfficeMessage) (date : LocalDate) : String :=
  "milestone-mirror:" ++ m.field py "task_id" ++ ":" ++ m.field py "milestone" ++ ":" ++ date.iso

/-- `_MILESTONE_LABELS`, and what stands for the others. -/
def milestoneLabel (milestone : String) : String :=
  if milestone = "received" then "Đã nhận việc"
  else if milestone = "done" then "Hoàn thành"
  else if milestone = "needs_approval" then "Cần duyệt"
  else "Cập nhật"

/-- `_format`. -/
def formatMilestones (milestones : List OfficeMessage) : String :=
  let line := fun m : OfficeMessage =>
    let head := "• " ++ m.field py "task_title" ++ " — " ++ milestoneLabel (m.field py "milestone")
    if (Action.get m.body "message" (.str "")).truthy then head ++ ": " ++ m.field py "message" else head
  "\n".intercalate
    ("🏁 Cập nhật tiến độ đội:" :: milestones.map line ++ ["\nXem chi tiết ở mục Văn phòng trên dashboard."])

/-- One send: the milestones of its message, the date of the tick and the operator. -/
structure MirrorSend where
  fresh : List OfficeMessage
  date : LocalDate
  operator : String

/-- The text of the message. -/
def MirrorSend.text (s : MirrorSend) : String :=
  formatMilestones py s.fresh

/-- The hint that the gateway makes its key of. -/
def MirrorSend.dedupHint (s : MirrorSend) : String :=
  "milestone-mirror-push:" ++ s.date.iso ++ ":" ++
    "|".intercalate (s.fresh.map fun m => m.field py "task_id" ++ ":" ++ m.field py "milestone")

/-- What a send comes to: the status that the gateway returns, or an exception. -/
abbrev SendOutcome :=
  Except String GatewayStatus

/-- The two stores of the mirror. -/
structure Mirror where
  lastSeq : ℕ
  seenKeys : List String

/-- What a tick returns. -/
structure MirrorResult where
  status : String
  checked : ℕ
  delivered : Bool

/-- How a tick ends: what it returns or raises, the stores, and the send if there was one. -/
structure MirrorEnd where
  result : Except String MirrorResult
  mirror : Mirror
  sent : Option (MirrorSend × SendOutcome)

/-- The milestones that the tick claims, one after the other, and the keys then. -/
def claimFresh (date : LocalDate) : List OfficeMessage → List String → List OfficeMessage × List String
  | [], keys => ([], keys)
  | m :: rest, keys =>
      if mirrorKey py m date ∈ keys then
        claimFresh date rest keys
      else
        let claimed := claimFresh date rest (mirrorKey py m date :: keys)
        (m :: claimed.1, claimed.2)

/-- The milestones after the cursor. -/
def Mirror.page (m : Mirror) (t : RoomTable) : List OfficeMessage :=
  (t.list officeRoomId m.lastSeq).filter fun r => decide (r.kind = "milestone")

/-- The cursor after the rows that a tick has read. -/
def Mirror.nextSeq (m : Mirror) (t : RoomTable) : ℕ :=
  ((t.list officeRoomId m.lastSeq).getLast?.map fun r => r.seq).getD m.lastSeq

/-- `result.status in ("executed", "pending_approval")`. -/
def SendOutcome.delivered : SendOutcome → Bool
  | .ok .executed => true
  | .ok .pendingApproval => true
  | _ => false

/-- The text of a status. -/
def GatewayStatus.text : GatewayStatus → String
  | executed => "executed"
  | dryRun => "dry_run"
  | skipped => "skipped"
  | deduplicated => "deduplicated"
  | pendingApproval => "pending_approval"

/-- `run_milestone_mirror`; `send` is what the gateway does with a message. -/
def runMilestoneMirror (operator : String) (t : RoomTable) (date : LocalDate) (writeDisabled : Bool)
    (send : MirrorSend → SendOutcome) (m : Mirror) : MirrorEnd :=
  if operator = "" then
    ⟨.ok ⟨"no_operator", 0, false⟩, m, none⟩
  else if writeDisabled then
    ⟨.ok ⟨"writes_disabled", (m.page t).length, false⟩, m, none⟩
  else if (m.page t).isEmpty then
    ⟨.ok ⟨"no_new_milestones", 0, false⟩, { m with lastSeq := m.nextSeq t }, none⟩
  else
    let claimed := claimFresh py date (m.page t) m.seenKeys
    if claimed.1.isEmpty then
      ⟨.ok ⟨"no_new_milestones", (m.page t).length, false⟩, ⟨m.nextSeq t, claimed.2⟩, none⟩
    else
      let s : MirrorSend := ⟨claimed.1, date, operator⟩
      match send s with
      | .error exc =>
          -- the claims stay, the cursor has not moved
          ⟨.error exc, { m with seenKeys := claimed.2 }, some (s, .error exc)⟩
      | .ok status =>
          let delivered := SendOutcome.delivered (.ok status)
          ⟨.ok ⟨if delivered then "delivered" else status.text, (m.page t).length, delivered⟩,
            ⟨m.nextSeq t, claimed.2⟩, some (s, .ok status)⟩

end Mirror

/-! ### Runs -/

/-- What a tick has done. -/
structure MirrorTick where
  date : LocalDate
  writeDisabled : Bool
  read : List OfficeMessage
  sent : Option (MirrorSend × SendOutcome)

/-- A key of the mirror. -/
def IsMirrorKey (key : String) : Prop :=
  "milestone-mirror:".toList <+: key.toList

/-- Runs of the mirror, with the list of their ticks.  Between the ticks rows come into the room, and other
programs claim and release their own keys; `comes` says which rows, `allows` which ticks. -/
inductive MirrorRun (py : Python) (operator : String) (comes : OfficeDraft → Prop)
    (allows : List MirrorTick → MirrorTick → Prop) : List MirrorTick → RoomTable → Mirror → Prop where
  | start {seenKeys : List String} (hkeys : ∀ key ∈ seenKeys, ¬ IsMirrorKey key) :
      MirrorRun py operator comes allows [] .empty ⟨0, seenKeys⟩
  | insert {ticks : List MirrorTick} {t : RoomTable} {m : Mirror} {draft : OfficeDraft}
      (h : MirrorRun py operator comes allows ticks t m) (hcomes : comes draft) :
      MirrorRun py operator comes allows ticks (t.insert draft) m
  | others {ticks : List MirrorTick} {t : RoomTable} {m : Mirror} {seenKeys : List String}
      (h : MirrorRun py operator comes allows ticks t m)
      (hsame : ∀ key, IsMirrorKey key → (key ∈ seenKeys ↔ key ∈ m.seenKeys)) :
      MirrorRun py operator comes allows ticks t { m with seenKeys := seenKeys }
  | tick {ticks : List MirrorTick} {t : RoomTable} {m : Mirror} (date : LocalDate) (writeDisabled : Bool)
      (send : MirrorSend → SendOutcome) (h : MirrorRun py operator comes allows ticks t m)
      (hallows : allows ticks
        ⟨date, writeDisabled, m.page t, (runMilestoneMirror py operator t date writeDisabled send m).sent⟩) :
      MirrorRun py operator comes allows
        (ticks ++ [⟨date, writeDisabled, m.page t, (runMilestoneMirror py operator t date writeDisabled send m).sent⟩]) t
        (runMilestoneMirror py operator t date writeDisabled send m).mirror

/-- The tick's send raised. -/
def MirrorTick.Raised (tick : MirrorTick) : Prop :=
  ∃ s exc, tick.sent = some (s, .error exc)

/-- Every send is delivered or raises, and after one that raised no tick with writes enabled comes on that date. -/
def SendsSettle (ticks : List MirrorTick) (tick : MirrorTick) : Prop :=
  (∀ s status, tick.sent = some (s, .ok status) → SendOutcome.delivered (.ok status) = true) ∧
    (tick.writeDisabled = false → ∀ earlier ∈ ticks, earlier.date.iso = tick.date.iso → ¬ earlier.Raised)

/-- The text of a milestone contains no colon, as is so for all texts that the code writes. -/
def PlainMilestone (py : Python) (body : List (String × Val)) : Prop :=
  ':' ∉ (py.str (Action.get body "milestone" (.str ""))).toList

/-- Every milestone that the cursor has passed was read by a tick, and on the date of that tick it, or one with
the same task and milestone, was part of a message that was delivered. -/
def Mirrored (py : Python) (ticks : List MirrorTick) (t : RoomTable) (m : Mirror) : Prop :=
  ∀ row ∈ t.rows, row.roomId = officeRoomId → row.kind = "milestone" → row.seq ≤ m.lastSeq →
    ∃ tick ∈ ticks, row ∈ tick.read ∧ ∃ tick' ∈ ticks, tick'.date.iso = tick.date.iso ∧
      ∃ s outcome, tick'.sent = some (s, outcome) ∧ SendOutcome.delivered outcome = true ∧
        ∃ row' ∈ s.fresh, row'.field py "task_id" = row.field py "task_id" ∧
          row'.field py "milestone" = row.field py "milestone"

/-! ### Keys -/

section Keys

variable {py : Python} {row row' : OfficeMessage} {date date' : LocalDate}

theorem isMirrorKey_mirrorKey : IsMirrorKey (mirrorKey py row date) := by
  unfold IsMirrorKey mirrorKey
  simp only [String.toList_append, List.append_assoc]
  exact List.prefix_append _ _

theorem LocalDate.noColon (date : LocalDate) : ':' ∉ date.iso.toList := by
  intro hmem
  rcases date.form ':' hmem with h | h
  · revert h
    decide
  · revert h
    decide

theorem mirror_toList (task milestone iso : String) :
    ("milestone-mirror:" ++ task ++ ":" ++ milestone ++ ":" ++ iso).toList =
      (("milestone-mirror:".toList ++ task.toList) ++ ':' :: milestone.toList) ++ ':' :: iso.toList := by
  have hcolon : ":".toList = [':'] := rfl
  simp only [String.toList_append, hcolon, List.append_assoc, List.cons_append, List.nil_append]

/-- The key of a milestone says task, milestone and date. -/
theorem mirrorKey_inj (hrow : ':' ∉ (row.field py "milestone").toList) (hrow' : ':' ∉ (row'.field py "milestone").toList)
    (h : mirrorKey py row date = mirrorKey py row' date') : row.field py "task_id" = row'.field py "task_id" ∧
      row.field py "milestone" = row'.field py "milestone" ∧ date.iso = date'.iso := by
  have hplain : ∀ {l : List Char}, ':' ∉ l → ∀ x ∈ l, (x != ':') = true := by
    intro l hl x hx
    exact bne_iff_ne.2 fun heq => hl (heq ▸ hx)
  have hlist := congrArg String.toList h
  unfold mirrorKey at hlist
  rw [mirror_toList, mirror_toList] at hlist
  obtain ⟨hrest, -, hdate⟩ :=
    Text.tail_unique (p := (· != ':')) (hplain date.noColon) (hplain date'.noColon) rfl rfl hlist
  obtain ⟨htask, -, hmilestone⟩ :=
    Text.tail_unique (p := (· != ':')) (hplain hrow) (hplain hrow') rfl rfl hrest
  exact ⟨String.toList_injective (List.append_cancel_left htask), String.toList_injective hmilestone,
    String.toList_injective hdate⟩

theorem claimFresh_subset (rows : List OfficeMessage) (keys : List String) :
    (claimFresh py date rows keys).1 ⊆ rows := by
  induction rows generalizing keys with
  | nil =>
      simp [claimFresh]
  | cons row rows ih =>
      unfold claimFresh
      split
      · exact fun r hr => List.mem_cons_of_mem _ (ih keys hr)
      · intro r hr
        rcases List.mem_cons.1 hr with rfl | hr
        · exact List.mem_cons_self
        · exact List.mem_cons_of_mem _ (ih _ hr)

/-- The keys after the claims: those before, and those of the fresh milestones. -/
theorem mem_claimFresh {rows : List OfficeMessage} {keys : List String} {key : String} :
    key ∈ (claimFresh py date rows keys).2 ↔
      key ∈ keys ∨ ∃ row ∈ (claimFresh py date rows keys).1, mirrorKey py row date = key := by
  induction rows generalizing keys with
  | nil =>
      simp [claimFresh]
  | cons row rows ih =>
      unfold claimFresh
      split
      · exact ih
      · simp only [ih, List.mem_cons, exists_eq_or_imp]
        tauto

/-- Every milestone is claimed then. -/
theorem claimFresh_all {rows : List OfficeMessage} {keys : List String} (hrow : row ∈ rows) :
    mirrorKey py row date ∈ (claimFresh py date rows keys).2 := by
  induction rows generalizing keys with
  | nil =>
      cases hrow
  | cons first rows ih =>
      unfold claimFresh
      rcases List.mem_cons.1 hrow with rfl | hrow
      · split
        case isTrue hmem =>
          exact mem_claimFresh.2 (.inl hmem)
        case isFalse =>
          exact mem_claimFresh.2 (.inl List.mem_cons_self)
      · split
        · exact ih hrow
        · exact ih hrow

end Keys

/-! ### Ticks -/

section Ticks

variable {py : Python} {operator : String} {t : RoomTable} {date : LocalDate} {writeDisabled : Bool}
  {send : MirrorSend → SendOutcome} {m : Mirror} {ticks : List MirrorTick} {comes : OfficeDraft → Prop}

/-- The ways in which a tick ends. -/
inductive TickEnds (py : Python) (operator : String) (t : RoomTable) (date : LocalDate) (writeDisabled : Bool)
    (m : Mirror) : Mirror → Option (MirrorSend × SendOutcome) → Prop where
  /-- nothing is read, or nothing may be written -/
  | idle : TickEnds py operator t date writeDisabled m m none
  /-- nothing is fresh -/
  | quiet (hwrite : writeDisabled = false) (hfresh : (claimFresh py date (m.page t) m.seenKeys).1 = []) :
      TickEnds py operator t date writeDisabled m ⟨m.nextSeq t, (claimFresh py date (m.page t) m.seenKeys).2⟩ none
  /-- the send raises -/
  | raised (exc : String) (hwrite : writeDisabled = false) :
      TickEnds py operator t date writeDisabled m ⟨m.lastSeq, (claimFresh py date (m.page t) m.seenKeys).2⟩
        (some (⟨(claimFresh py date (m.page t) m.seenKeys).1, date, operator⟩, .error exc))
  /-- the send returns -/
  | returned (status : GatewayStatus) (hwrite : writeDisabled = false) :
      TickEnds py operator t date writeDisabled m ⟨m.nextSeq t, (claimFresh py date (m.page t) m.seenKeys).2⟩
        (some (⟨(claimFresh py date (m.page t) m.seenKeys).1, date, operator⟩, .ok status))

theorem tickEnds (py : Python) (operator : String) (t : RoomTable) (date : LocalDate) (writeDisabled : Bool)
    (send : MirrorSend → SendOutcome) (m : Mirror) : TickEnds py operator t date writeDisabled m
    (runMilestoneMirror py operator t date writeDisabled send m).mirror
    (runMilestoneMirror py operator t date writeDisabled send m).sent := by
  unfold runMilestoneMirror
  split
  · exact .idle
  split
  · exact .idle
  rename_i hwrite
  have hwrite : writeDisabled = false := by simpa using hwrite
  split
  case isTrue hempty =>
    have hclaimed : claimFresh py date (m.page t) m.seenKeys = ([], m.seenKeys) := by
      rw [List.isEmpty_iff.1 hempty]
      rfl
    have hquiet : TickEnds py operator t date writeDisabled m _ _ := .quiet hwrite (by rw [hclaimed])
    rw [hclaimed] at hquiet
    exact hquiet
  case isFalse =>
    dsimp only
    split
    case isTrue hempty =>
      exact .quiet hwrite (List.isEmpty_iff.1 hempty)
    case isFalse =>
      split
      · exact .raised _ hwrite
      · exact .returned _ hwrite

/-! ### The invariant -/

/-- What holds between the ticks of a run whose sends settle. -/
structure MirrorInv (py : Python) (ticks : List MirrorTick) (t : RoomTable) (m : Mirror) : Prop where
  plain : ∀ row ∈ t.rows, ':' ∉ (row.field py "milestone").toList
  sentPlain : ∀ tick ∈ ticks, ∀ s outcome, tick.sent = some (s, outcome) →
    ∀ row ∈ s.fresh, ':' ∉ (row.field py "milestone").toList
  bound : m.lastSeq ≤ t.last
  /-- a key was claimed for a message that was delivered, or whose send raised -/
  keys : ∀ key ∈ m.seenKeys, IsMirrorKey key → ∃ tick ∈ ticks, ∃ s outcome, tick.sent = some (s, outcome) ∧
    (SendOutcome.delivered outcome = true ∨ tick.Raised) ∧ ∃ row ∈ s.fresh, mirrorKey py row tick.date = key
  mirrored : Mirrored py ticks t m

theorem Mirrored.later {later : List MirrorTick} (h : Mirrored py ticks t m) : Mirrored py (ticks ++ later) t m := by
  intro row hrow hroom hkind hseq
  obtain ⟨tick, htick, hread, tick', htick', hsent⟩ := h row hrow hroom hkind hseq
  exact ⟨tick, List.mem_append_left _ htick, hread, tick', List.mem_append_left _ htick', hsent⟩

theorem mem_page {row : OfficeMessage} (hrow : row ∈ t.rows) (hroom : row.roomId = officeRoomId)
    (hkind : row.kind = "milestone") (hseq : m.lastSeq < row.seq) : row ∈ m.page t := by
  unfold Mirror.page
  rw [List.mem_filter, RoomTable.mem_list]
  exact ⟨⟨hrow, hroom, by omega⟩, by simp [hkind]⟩

theorem mem_of_page {row : OfficeMessage} (hrow : row ∈ m.page t) : row ∈ t.rows := by
  unfold Mirror.page at hrow
  exact (RoomTable.mem_list.1 (List.mem_of_mem_filter hrow)).1

theorem nextSeq_le (h : m.lastSeq ≤ t.last) : m.nextSeq t ≤ t.last := by
  unfold Mirror.nextSeq
  cases hlast : (t.list officeRoomId m.lastSeq).getLast? with
  | none =>
      exact h
  | some row =>
      exact t.le_last row (RoomTable.mem_list.1 (List.mem_of_getLast? hlast)).1

theorem MirrorInv.insert {draft : OfficeDraft} (h : MirrorInv py ticks t m) (hplain : PlainMilestone py draft.body) :
    MirrorInv py ticks (t.insert draft) m := by
  refine ⟨?_, h.sentPlain, ?_, h.keys, ?_⟩
  · intro row hrow
    rcases RoomTable.mem_insert.1 hrow with hrow | rfl
    · exact h.plain row hrow
    · exact hplain
  · rw [(RoomTable.insert_eq t draft).2]
    exact Nat.le_succ_of_le h.bound
  · intro row hrow hroom hkind hseq
    rcases RoomTable.mem_insert.1 hrow with hrow | rfl
    · exact h.mirrored row hrow hroom hkind hseq
    · have hbound := h.bound
      have hnew : t.last + 1 ≤ m.lastSeq := hseq
      omega

/-- The keys after a tick that has sent, or had nothing fresh. -/
theorem MirrorInv.claimed (h : MirrorInv py ticks t m) {tick : MirrorTick} (hdate : tick.date = date)
    (hsent : (claimFresh py date (m.page t) m.seenKeys).1 ≠ [] →
      ∃ s outcome, tick.sent = some (s, outcome) ∧ s.fresh = (claimFresh py date (m.page t) m.seenKeys).1 ∧
        (SendOutcome.delivered outcome = true ∨ tick.Raised)) :
    ∀ key ∈ (claimFresh py date (m.page t) m.seenKeys).2, IsMirrorKey key → ∃ tick' ∈ ticks ++ [tick], ∃ s outcome,
      tick'.sent = some (s, outcome) ∧ (SendOutcome.delivered outcome = true ∨ tick'.Raised) ∧
        ∃ row ∈ s.fresh, mirrorKey py row tick'.date = key := by
  intro key hkey hmirror
  rcases mem_claimFresh.1 hkey with hkey | ⟨row, hrow, rfl⟩
  · obtain ⟨tick', htick', hrest⟩ := h.keys key hkey hmirror
    exact ⟨tick', List.mem_append_left _ htick', hrest⟩
  · obtain ⟨s, outcome, hs, hfresh, hsettled⟩ := hsent (List.ne_nil_of_mem hrow)
    refine ⟨tick, by simp, s, outcome, hs, hsettled, row, ?_, by rw [hdate]⟩
    rwa [hfresh]

/-- A tick that has claimed its page and moves the cursor loses nothing. -/
theorem MirrorInv.passed (h : MirrorInv py ticks t m) {tick : MirrorTick} (hdate : tick.date = date)
    (hread : tick.read = m.page t)
    (hraised : ∀ earlier ∈ ticks, earlier.date.iso = date.iso → ¬ earlier.Raised)
    (hsent : (claimFresh py date (m.page t) m.seenKeys).1 ≠ [] →
      ∃ s outcome, tick.sent = some (s, outcome) ∧ s.fresh = (claimFresh py date (m.page t) m.seenKeys).1 ∧
        SendOutcome.delivered outcome = true) {seenKeys : List String} :
    Mirrored py (ticks ++ [tick]) t ⟨m.nextSeq t, seenKeys⟩ := by
  intro row hrow hroom hkind hseq
  by_cases hold : row.seq ≤ m.lastSeq
  · exact h.mirrored.later row hrow hroom hkind hold
  have hpage : row ∈ m.page t := mem_page hrow hroom hkind (by omega)
  refine ⟨tick, by simp, hread ▸ hpage, ?_⟩
  have hclaimed : mirrorKey py row date ∈ (claimFresh py date (m.page t) m.seenKeys).2 := claimFresh_all hpage
  rcases mem_claimFresh.1 hclaimed with hkey | ⟨row', hrow', hkey⟩
  · -- the key was claimed before, on the same date
    obtain ⟨tick', htick', s, outcome, hs, hsettled, row', hrow', hkey⟩ := h.keys _ hkey isMirrorKey_mirrorKey
    obtain ⟨htask, hmilestone, hiso⟩ :=
      mirrorKey_inj (h.sentPlain tick' htick' s outcome hs row' hrow') (h.plain row hrow) hkey
    have hdelivered : SendOutcome.delivered outcome = true := by
      rcases hsettled with hdelivered | hfailed
      · exact hdelivered
      · exact absurd hfailed (hraised tick' htick' hiso)
    exact ⟨tick', List.mem_append_left _ htick', by rw [hdate, hiso], s, outcome, hs, hdelivered, row', hrow', htask,
      hmilestone⟩
  · -- the key was claimed by this tick
    obtain ⟨s, outcome, hs, hfresh, hdelivered⟩ := hsent (List.ne_nil_of_mem hrow')
    have hplain : ':' ∉ (row'.field py "milestone").toList :=
      h.plain row' (mem_of_page (claimFresh_subset _ _ hrow'))
    obtain ⟨htask, hmilestone, -⟩ := mirrorKey_inj hplain (h.plain row hrow) hkey
    exact ⟨tick, by simp, rfl, s, outcome, hs, hdelivered, row', by rwa [hfresh], htask, hmilestone⟩

theorem MirrorInv.tick (h : MirrorInv py ticks t m)
    (hallows : SendsSettle ticks
      ⟨date, writeDisabled, m.page t, (runMilestoneMirror py operator t date writeDisabled send m).sent⟩) :
    MirrorInv py
      (ticks ++ [⟨date, writeDisabled, m.page t, (runMilestoneMirror py operator t date writeDisabled send m).sent⟩]) t
      (runMilestoneMirror py operator t date writeDisabled send m).mirror := by
  have hends := tickEnds py operator t date writeDisabled send m
  generalize (runMilestoneMirror py operator t date writeDisabled send m).sent = sent at hends hallows ⊢
  generalize (runMilestoneMirror py operator t date writeDisabled send m).mirror = m' at hends ⊢
  have hfresh : ∀ row ∈ (claimFresh py date (m.page t) m.seenKeys).1, ':' ∉ (row.field py "milestone").toList :=
    fun row hrow => h.plain row (mem_of_page (claimFresh_subset _ _ hrow))
  -- the messages sent so far, and the new one
  have hsentPlain : (∀ s outcome, sent = some (s, outcome) → s.fresh = (claimFresh py date (m.page t) m.seenKeys).1) →
      ∀ tick ∈ ticks ++ [⟨date, writeDisabled, m.page t, sent⟩], ∀ s outcome, tick.sent = some (s, outcome) →
        ∀ row ∈ s.fresh, ':' ∉ (row.field py "milestone").toList := by
    intro hsent tick htick s outcome hs row hrow
    rcases List.mem_append.1 htick with htick | htick
    · exact h.sentPlain tick htick s outcome hs row hrow
    · obtain rfl := List.mem_singleton.1 htick
      exact hfresh row (hsent s outcome hs ▸ hrow)
  cases hends with
  | idle =>
      refine ⟨h.plain, hsentPlain (by simp), h.bound, fun key hkey hmirror => ?_, h.mirrored.later⟩
      obtain ⟨tick, htick, hrest⟩ := h.keys key hkey hmirror
      exact ⟨tick, List.mem_append_left _ htick, hrest⟩
  | quiet hwrite hnone =>
      refine ⟨h.plain, hsentPlain (by simp), nextSeq_le h.bound, ?_, ?_⟩
      · exact h.claimed rfl fun hne => absurd hnone hne
      · exact h.passed rfl rfl (hallows.2 hwrite) fun hne => absurd hnone hne
  | raised exc hwrite =>
      refine ⟨h.plain, hsentPlain (by simp), h.bound, ?_, h.mirrored.later⟩
      exact h.claimed rfl fun _ => ⟨_, _, rfl, rfl, .inr ⟨_, exc, rfl⟩⟩
  | returned status hwrite =>
      have hdelivered := hallows.1 _ status rfl
      refine ⟨h.plain, hsentPlain (by simp), nextSeq_le h.bound, ?_, ?_⟩
      · exact h.claimed rfl fun _ => ⟨_, _, rfl, rfl, .inl hdelivered⟩
      · exact h.passed rfl rfl (hallows.2 hwrite) fun _ => ⟨_, _, rfl, rfl, hdelivered⟩

/-- What a send comes to is what the gateway does with it. -/
theorem outcome_of_sent {s : MirrorSend} {outcome : SendOutcome}
    (h : (runMilestoneMirror py operator t date writeDisabled send m).sent = some (s, outcome)) : outcome = send s := by
  unfold runMilestoneMirror at h
  split at h
  · cases h
  split at h
  · cases h
  split at h
  · cases h
  dsimp only at h
  split at h
  · cases h
  split at h
  · rename_i exc hsend
    obtain ⟨rfl, rfl⟩ := Prod.mk.inj (Option.some.inj h)
    exact hsend.symm
  · rename_i status hsend
    obtain ⟨rfl, rfl⟩ := Prod.mk.inj (Option.some.inj h)
    exact hsend.symm

end Ticks

/-- In every run in which each send is delivered or raises, and no tick with writes enabled comes on a date on
which one has raised, the mirror loses no milestone. -/
theorem milestones_mirrored {py : Python} {operator : String} {ticks : List MirrorTick} {t : RoomTable} {m : Mirror}
    (h : MirrorRun py operator (fun draft => PlainMilestone py draft.body) SendsSettle ticks t m) :
    Mirrored py ticks t m := by
  have hinv : MirrorInv py ticks t m := by
    induction h with
    | start hkeys =>
        refine ⟨?_, ?_, le_rfl, fun key hkey hmirror => absurd hmirror (hkeys key hkey), ?_⟩
        · simp [Table.Auto.empty]
        · simp
        · simp [Mirrored, Table.Auto.empty]
    | insert _ hplain ih =>
        exact ih.insert hplain
    | others _ hsame ih =>
        exact ⟨ih.plain, ih.sentPlain, ih.bound, fun key hkey hmirror => ih.keys key ((hsame key hmirror).1 hkey) hmirror,
          ih.mirrored⟩
    | tick date writeDisabled send _ hallows ih =>
        exact ih.tick hallows
  exact hinv.mirrored

/-! ### A failed send -/

/-- A date. -/
def sampleDate : LocalDate where
  iso := "2026-07-10"
  form := by simp

/-- A milestone of the office room. -/
def sampleMilestone : OfficeDraft where
  roomId := officeRoomId
  ts := "2026-07-10T12:00:00+00:00"
  author := "coordinator"
  kind := "milestone"
  body := [("task_id", .str "t1"), ("task_title", .str "Demo"), ("milestone", .str "done"), ("message", .str "")]

theorem sampleMilestone_plain : PlainMilestone samplePython sampleMilestone.body := by
  unfold PlainMilestone
  decide

/-- The room with the milestone. -/
def sampleRoom : RoomTable :=
  RoomTable.insert .empty sampleMilestone

/-- The mirror before its first tick. -/
theorem sampleRoom_run (allows : List MirrorTick → MirrorTick → Prop) :
    MirrorRun samplePython "42" (fun draft => PlainMilestone samplePython draft.body) allows [] sampleRoom ⟨0, []⟩ :=
  .insert (.start (by simp)) sampleMilestone_plain

/-- A tick on the sample date, when every send comes to the same. -/
def sampleTick (outcome : SendOutcome) (m : Mirror) : MirrorEnd :=
  runMilestoneMirror samplePython "42" sampleRoom sampleDate false (fun _ => outcome) m

/-- The sample milestone is delivered, and the cursor passes it. -/
theorem milestones_mirrored_sample : ∃ ticks m, m.lastSeq = 1 ∧ Mirrored samplePython ticks sampleRoom m := by
  have hsettle : SendsSettle [] ⟨sampleDate, false, Mirror.page ⟨0, []⟩ sampleRoom,
      (sampleTick (.ok .executed) ⟨0, []⟩).sent⟩ := by
    refine ⟨fun s status hsent => ?_, by simp⟩
    rw [outcome_of_sent hsent]
    rfl
  have hpassed : (sampleTick (.ok .executed) ⟨0, []⟩).mirror.lastSeq = 1 := by
    decide +kernel
  exact ⟨_, _, hpassed, milestones_mirrored (.tick sampleDate false _ (sampleRoom_run _) hsettle)⟩

/-- A send that raises, and a tick on the same date: the cursor passes a milestone that was never delivered. -/
theorem milestone_lost : ¬ ∀ (ticks : List MirrorTick) (t : RoomTable) (m : Mirror),
    MirrorRun samplePython "42" (fun draft => PlainMilestone samplePython draft.body) (fun _ _ => True) ticks t m →
      Mirrored samplePython ticks t m := by
  intro hall
  have hfirst := sampleRoom_run fun _ _ => True
  have hrun := MirrorRun.tick sampleDate false (fun _ => .error "timed out")
    (.tick sampleDate false (fun _ => .error "timed out") hfirst trivial) trivial
  have hpassed : (sampleTick (.error "timed out") (sampleTick (.error "timed out") ⟨0, []⟩).mirror).mirror.lastSeq = 1 := by
    decide +kernel
  have hrow : sampleMilestone.message 1 ∈ sampleRoom.rows := RoomTable.mem_insert.2 (.inr rfl)
  obtain ⟨_, -, -, tick, htick, -, s, outcome, hsent, hdelivered, -⟩ := hall _ _ _ hrun _ hrow rfl rfl hpassed.ge
  have hfailed : outcome = .error "timed out" := by
    simp only [List.nil_append, List.mem_append, List.mem_singleton] at htick
    rcases htick with rfl | rfl
    · exact outcome_of_sent hsent
    · exact outcome_of_sent hsent
  rw [hfailed] at hdelivered
  cases hdelivered

end ProjectManager
