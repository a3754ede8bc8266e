import ProjectManager.Actions.Mediation
import ProjectManager.Inbox.Answers
import ProjectManager.Lib.Text

/-!
# The Telegram inbox

`run_telegram_inbox` over the pending updates of one bot: the poll, the addressing rule, the loop and the saved
offset.  `telegram_keeps` says that over all polls after the first one the offset never passes a message for the
agent that was neither answered nor given up, and that messages are done with in the order of their numbers, each
once.
-/

namespace ProjectManager

open Intake

/-! ### Reading -/

structure TelegramChat where
  id : Option ℤ
  type : Option String

structure TelegramMessage where
  messageId : Option ℤ
  text : Option String
  chat : Option TelegramChat
  sender : Option ℤ

/-- An update of `getUpdates`. -/
structure TelegramUpdate where
  updateId : ℕ
  message : Option TelegramMessage

/-- The `telegram:` block and the name of the agent. -/
structure TelegramConfig where
  agentId : String
  chatIds : List String

/-- The mention dict. -/
structure TelegramMention where
  ts : String
  text : String
  channel : String
  user : String
  transport : String
  messageId : Option ℤ
  chatType : String
  updateId : ℕ
deriving DecidableEq

/-- `str(value or "")` of a number. -/
def strOrEmpty (n : Option ℤ) : String :=
  match n with
  | some 0 => ""
  | some n => toString n
  | none => ""

/-- `_to_mention`. -/
def toMention (update : TelegramUpdate) : Option TelegramMention := do
  let msg ← update.message
  let text := Text.strip (msg.text.getD "")
  let chatId := strOrEmpty (msg.chat.bind fun chat => chat.id)
  if text = "" ∨ chatId = "" then
    none
  else
    some {
      ts := "tg:" ++ chatId ++ ":" ++ (msg.messageId.map fun n => toString n).getD "None"
      text := text
      channel := chatId
      user := strOrEmpty msg.sender
      transport := "telegram"
      messageId := msg.messageId
      chatType := (msg.chat.bind fun chat => chat.type).getD ""
      updateId := update.updateId }

/-- A text message of a chat on the list. -/
def TelegramConfig.mention (cfg : TelegramConfig) (update : TelegramUpdate) : Option TelegramMention :=
  (toMention update).filter fun m => decide (m.channel ∈ cfg.chatIds)

/-- `fetch_new_messages`, from the page that the server answers with. -/
def fetchNewMessages (cfg : TelegramConfig) (updates : List TelegramUpdate) : List TelegramMention × Option ℕ :=
  if updates = [] then
    ([], none)
  else
    let messages := updates.filterMap cfg.mention
    (messages.mergeSort fun a b => decide (a.updateId ≤ b.updateId),
      (updates.map fun u => u.updateId).max?.map fun id => id + 1)

/-- `_is_for_agent`. -/
def isForAgent (py : Python) (cfg : TelegramConfig) (m : TelegramMention) : Bool :=
  m.chatType == "private" || Text.contains (py.lower m.text) (py.lower ("@" ++ cfg.agentId))

/-! ### A poll -/

/-- The end of a poll: what it returns, the offset in the state file, and what became of the messages. -/
structure TelegramEnd where
  result : InboxResult
  offset : Option ℕ
  history : List (Handling TelegramMention)

/-- The results of a poll that answers nothing. -/
def quietResult (status : String) : InboxResult :=
  ⟨status, 0, none, false⟩

/-- `run_telegram_inbox`, with the offset in the state file.  The page is none when the fetch fails. -/
def runTelegramInbox (py : Python) (cfg : TelegramConfig) (writeDisabled : Bool)
    (answer : TelegramMention → Except AnswerError (Option ℚ)) (page : Option (List TelegramUpdate))
    (offset : Option ℕ) : TelegramEnd :=
  match page with
  | none => ⟨quietResult "telegram_unreachable", offset, []⟩
  | some updates =>
      let (messages, nextOffset) := fetchNewMessages cfg updates
      if offset = none then
        ⟨quietResult "bootstrapped", some (nextOffset.getD 0), []⟩
      else if messages = [] then
        ⟨quietResult "no_mentions", nextOffset.or offset, []⟩
      else if writeDisabled then
        ⟨quietResult "writes_disabled", offset, []⟩
      else
        let r := answerLoop (fun m => m.updateId) (fun replied => decide (maxRepliesPerPoll ≤ replied))
          (isForAgent py cfg) answer messages Replies.start
        ⟨⟨if r.replied = 0 then "no_mentions" else "replied_" ++ toString r.replied, r.replied, r.costUsd,
            decide (0 < r.replied)⟩,
          (r.last.map fun id => id + 1).or offset, r.history⟩

/-! ### Runs -/

/-- The updates that the server holds for the bot, in the order of their numbers, the state file, and what became
of messages so far. -/
structure TelegramWorld where
  queue : List TelegramUpdate
  sorted : queue.Pairwise fun u v => u.updateId < v.updateId
  offset : Option ℕ
  history : List (Handling TelegramMention)

/-- The updates that `getUpdates` has for an offset: those from it on, or for a negative one as many from the end. -/
def pendingUpdates (queue : List TelegramUpdate) (offset : ℤ) : List TelegramUpdate :=
  if offset < 0 then
    queue.drop (queue.length - offset.natAbs)
  else
    queue.filter fun u => decide (offset ≤ u.updateId)

/-- `getUpdates`: a page has at most a hundred updates, the first ones. -/
def GetUpdates (queue : List TelegramUpdate) (offset : ℤ) (page : List TelegramUpdate) : Prop :=
  page <+: pendingUpdates queue offset ∧ page.length ≤ 100

/-- The offset with which a poll fetches. -/
def fetchOffset (offset : Option ℕ) : ℤ :=
  (offset.map fun n => (n : ℤ)).getD (-1)

namespace TelegramWorld

/-- An update arrives. -/
def arrive (w : TelegramWorld) (u : TelegramUpdate) (hnew : ∀ v ∈ w.queue, v.updateId < u.updateId) : TelegramWorld :=
  { w with
    queue := w.queue ++ [u]
    sorted := List.pairwise_append.2 ⟨w.sorted, List.pairwise_singleton _ _, by simpa using hnew⟩ }

/-- A poll runs. -/
def poll (py : Python) (cfg : TelegramConfig) (writeDisabled : Bool)
    (answer : TelegramMention → Except AnswerError (Option ℚ)) (page : Option (List TelegramUpdate)) (w : TelegramWorld) :
    TelegramWorld :=
  let ended := runTelegramInbox py cfg writeDisabled answer page w.offset
  { w with offset := ended.offset, history := w.history ++ ended.history }

end TelegramWorld

/-- One step: an update arrives, or a poll runs. -/
inductive TelegramStep (py : Python) (cfg : TelegramConfig) : TelegramWorld → TelegramWorld → Prop where
  | arrive {w : TelegramWorld} (u : TelegramUpdate) (hnew : ∀ v ∈ w.queue, v.updateId < u.updateId) :
      TelegramStep py cfg w (w.arrive u hnew)
  | poll {w : TelegramWorld} (writeDisabled : Bool) (answer : TelegramMention → Except AnswerError (Option ℚ))
      (page : Option (List TelegramUpdate)) (hpage : ∀ p, page = some p → GetUpdates w.queue (fetchOffset w.offset) p) :
      TelegramStep py cfg w (w.poll py cfg writeDisabled answer page)

/-- The runs from one world to another. -/
inductive TelegramRun (py : Python) (cfg : TelegramConfig) (w : TelegramWorld) : TelegramWorld → Prop where
  | refl : TelegramRun py cfg w w
  | step {w' w'' : TelegramWorld} (h : TelegramRun py cfg w w') (hstep : TelegramStep py cfg w' w'') :
      TelegramRun py cfg w w''

/-! ### A page -/

section Page

variable {cfg : TelegramConfig} {queue page : List TelegramUpdate} {n : ℕ}

theorem mention_updateId {u : TelegramUpdate} {m : TelegramMention} (h : cfg.mention u = some m) :
    m.updateId = u.updateId := by
  unfold TelegramConfig.mention toMention at h
  simp only [Option.filter_eq_some_iff, Option.bind_eq_bind, Option.bind_eq_some_iff] at h
  obtain ⟨⟨msg, -, hmention⟩, -⟩ := h
  split at hmention
  · cases hmention
  · exact (Option.some.inj hmention) ▸ rfl

/-- The messages of a page are in order. -/
theorem messages_sorted (h : page.Pairwise fun u v => u.updateId < v.updateId) :
    (page.filterMap cfg.mention).Pairwise fun a b => a.updateId < b.updateId := by
  refine List.Pairwise.filterMap cfg.mention ?_ h
  intro u v hlt a ha b hb
  rw [mention_updateId ha, mention_updateId hb]
  exact hlt

/-- A page in order is read as it is. -/
theorem fetchNewMessages_eq (h : page.Pairwise fun u v => u.updateId < v.updateId) : fetchNewMessages cfg page =
    (page.filterMap cfg.mention, (page.map fun u => u.updateId).max?.map fun id => id + 1) := by
  unfold fetchNewMessages
  split
  case isTrue hnil =>
    rw [hnil]
    rfl
  case isFalse _ =>
    refine Prod.ext (List.mergeSort_of_pairwise ?_) rfl
    exact (messages_sorted h).imp fun hlt => decide_eq_true (Nat.le_of_lt hlt)

theorem pending_sorted (hsorted : queue.Pairwise fun u v => u.updateId < v.updateId)
    (h : GetUpdates queue (n : ℤ) page) : page.Pairwise fun u v => u.updateId < v.updateId := by
  refine List.Pairwise.sublist h.1.sublist ?_
  unfold pendingUpdates
  split
  · exact hsorted.drop
  · exact hsorted.filter _

theorem mem_pending {u : TelegramUpdate} : u ∈ pendingUpdates queue (n : ℤ) ↔ u ∈ queue ∧ n ≤ u.updateId := by
  unfold pendingUpdates
  rw [if_neg (by omega)]
  simp

/-- A page has every update from the offset on up to the last of its own. -/
theorem mem_telegramPage (hsorted : queue.Pairwise fun u v => u.updateId < v.updateId) (h : GetUpdates queue (n : ℤ) page)
    {u v : TelegramUpdate} (hv : v ∈ page) (hu : u ∈ queue) (hn : n ≤ u.updateId) (hle : u.updateId ≤ v.updateId) :
    u ∈ page := by
  have hpending : (pendingUpdates queue (n : ℤ)).Pairwise fun u v => u.updateId < v.updateId := by
    unfold pendingUpdates
    rw [if_neg (by omega)]
    exact hsorted.filter _
  exact mem_of_prefix h.1 hpending hv (mem_pending.2 ⟨hu, hn⟩) hle

end Page

/-! ### The offset -/

/-- A message for the agent that came after the backlog. -/
def TelegramDue (py : Python) (cfg : TelegramConfig) (backlog queue : List TelegramUpdate) (m : TelegramMention) : Prop :=
  ∃ u ∈ queue, u ∉ backlog ∧ cfg.mention u = some m ∧ isForAgent py cfg m = true

/-- What holds once there is an offset. -/
structure TelegramOk (py : Python) (cfg : TelegramConfig) (backlog : List TelegramUpdate) (w : TelegramWorld) (n : ℕ) :
    Prop where
  offset : w.offset = some n
  reached : ∀ k < n, ∃ v ∈ w.queue, k ≤ v.updateId
  tracked : Tracked (fun m : TelegramMention => m.updateId) (TelegramDue py cfg backlog w.queue) (LowerSet.Iio n) w.history

section Offset

variable {py : Python} {cfg : TelegramConfig} {backlog : List TelegramUpdate} {w w' : TelegramWorld} {n : ℕ}

theorem TelegramOk.arrive {u : TelegramUpdate} (h : TelegramOk py cfg backlog w n)
    (hnew : ∀ v ∈ w.queue, v.updateId < u.updateId) : TelegramOk py cfg backlog (w.arrive u hnew) n := by
  refine ⟨h.offset, fun k hk => ?_, h.tracked.arrive fun m hm => ?_⟩
  · obtain ⟨v, hv, hle⟩ := h.reached k hk
    exact ⟨v, List.mem_append_left _ hv, hle⟩
  · obtain ⟨v, hv, hbacklog, hmention, hfor⟩ := hm
    rw [TelegramWorld.arrive, List.mem_append, List.mem_singleton] at hv
    rcases hv with hv | rfl
    · exact .inl ⟨v, hv, hbacklog, hmention, hfor⟩
    · refine .inr fun hlt => ?_
      obtain ⟨v', hv', hle⟩ := h.reached _ hlt
      have hless := hnew v' hv'
      rw [mention_updateId hmention] at hle
      omega

/-- A poll that works through messages from the offset on keeps it, when the new offset passes what is done with
and nothing else that is due. -/
theorem TelegramOk.advance {answer : TelegramMention → Except AnswerError (Option ℚ)}
    {items done : List TelegramMention} {new : List (Handling TelegramMention)} {n' : ℕ} (h : TelegramOk py cfg backlog w n)
    (hworks : Works (handle (isForAgent py cfg) answer) items done new)
    (hsorted : items.Pairwise fun a b => a.updateId < b.updateId) (habove : ∀ a ∈ items, n ≤ a.updateId) (hle : n ≤ n')
    (hdone : ∀ a ∈ done, a.updateId < n')
    (honly : ∀ a, TelegramDue py cfg backlog w.queue a → n ≤ a.updateId → a.updateId < n' → a ∈ done)
    (hreached : n' = n ∨ ∃ v ∈ w.queue, n' = v.updateId + 1)
    (hw' : w'.queue = w.queue ∧ w'.offset = some n' ∧ w'.history = w.history ++ new) :
    TelegramOk py cfg backlog w' n' := by
  obtain ⟨hqueue, hoffset, hhistory⟩ := hw'
  refine ⟨hoffset, fun k hk => ?_, ?_⟩
  · rw [hqueue]
    rcases hreached with rfl | ⟨v, hv, rfl⟩
    · exact h.reached k hk
    · exact ⟨v, hv, by omega⟩
  · rw [hqueue, hhistory]
    refine h.tracked.batch hworks handle_item ?_ hsorted (fun a ha hlt => ?_) ?_ hdone fun a ha hmark => ?_
    · rintro a ⟨-, -, -, -, hfor⟩ hconsumed
      exact handle_due hfor hconsumed
    · exact absurd hlt (Nat.not_lt.2 (habove a ha))
    · exact fun k hk => Nat.lt_of_lt_of_le hk hle
    · exact honly a ha (Nat.not_lt.1 hmark)

/-- A poll that hands out nothing. -/
theorem TelegramOk.pass {n' : ℕ} (h : TelegramOk py cfg backlog w n) (hle : n ≤ n')
    (honly : ∀ a, TelegramDue py cfg backlog w.queue a → n ≤ a.updateId → ¬ a.updateId < n')
    (hreached : n' = n ∨ ∃ v ∈ w.queue, n' = v.updateId + 1)
    (hw' : w'.queue = w.queue ∧ w'.offset = some n' ∧ w'.history = w.history) : TelegramOk py cfg backlog w' n' := by
  have hworks : Works (handle (isForAgent py cfg) fun _ => .ok none) [] [] [] := .stop
  refine h.advance hworks List.Pairwise.nil (by simp) hle (by simp) (fun a ha hge hlt => ?_) hreached ?_
  · exact absurd hlt (honly a ha hge)
  · simpa using hw'

theorem TelegramOk.poll {answer : TelegramMention → Except AnswerError (Option ℚ)} {writeDisabled : Bool}
    {page : Option (List TelegramUpdate)} (h : TelegramOk py cfg backlog w n)
    (hpage : ∀ p, page = some p → GetUpdates w.queue (fetchOffset w.offset) p) :
    ∃ n', TelegramOk py cfg backlog (w.poll py cfg writeDisabled answer page) n' := by
  obtain ⟨w', hw'⟩ : ∃ w', w.poll py cfg writeDisabled answer page = w' := ⟨_, rfl⟩
  have hqueue : w'.queue = w.queue := hw' ▸ rfl
  have hoffset : w'.offset = (runTelegramInbox py cfg writeDisabled answer page w.offset).offset := hw' ▸ rfl
  have hhistory : w'.history = w.history ++ (runTelegramInbox py cfg writeDisabled answer page w.offset).history :=
    hw' ▸ rfl
  rw [hw']
  have hstay : w'.offset = some n → w'.history = w.history → ∃ n', TelegramOk py cfg backlog w' n' := by
    intro hoffset' hhistory'
    exact ⟨n, h.pass le_rfl (fun a _ hge => Nat.not_lt.2 hge) (.inl rfl) ⟨hqueue, hoffset', hhistory'⟩⟩
  rw [h.offset] at hoffset hhistory hpage
  cases page with
  | none =>
      exact hstay hoffset (by simpa [runTelegramInbox] using hhistory)
  | some updates =>
      have hget : GetUpdates w.queue (n : ℤ) updates := hpage updates rfl
      have hsorted := pending_sorted w.sorted hget
      have hmem : ∀ u ∈ updates, u ∈ w.queue ∧ n ≤ u.updateId := fun u hu => mem_pending.1 (hget.1.subset hu)
      -- what is due up to an update of the page is on the page
      have hdue : ∀ v ∈ updates, ∀ a, TelegramDue py cfg backlog w.queue a → n ≤ a.updateId → a.updateId ≤ v.updateId →
          a ∈ updates.filterMap cfg.mention := by
        rintro v hv a ⟨u, hu, -, hmention, -⟩ hge hle
        have hid := mention_updateId hmention
        exact List.mem_filterMap.2 ⟨u, mem_telegramPage w.sorted hget hv hu (by omega) (by omega), hmention⟩
      unfold runTelegramInbox at hoffset hhistory
      simp only [fetchNewMessages_eq hsorted, reduceCtorEq, if_false] at hoffset hhistory
      by_cases hnil : updates.filterMap cfg.mention = []
      · rw [if_pos hnil] at hoffset hhistory
        cases hmax : (updates.map fun u => u.updateId).max? with
        | none =>
            exact hstay (by simpa [hmax] using hoffset) (by simpa using hhistory)
        | some k =>
            obtain ⟨hk, -⟩ := List.max?_eq_some_iff.1 hmax
            obtain ⟨v, hv, rfl⟩ := List.mem_map.1 hk
            have hge := (hmem v hv).2
            refine ⟨v.updateId + 1, h.pass (by omega) (fun a ha hle hlt => ?_) (.inr ⟨v, (hmem v hv).1, rfl⟩)
              ⟨hqueue, by simpa [hmax] using hoffset, by simpa using hhistory⟩⟩
            have hin := hdue v hv a ha hle (by omega)
            rw [hnil] at hin
            cases hin
      rw [if_neg hnil] at hoffset hhistory
      cases hwrite : writeDisabled with
      | true =>
          exact hstay (by simpa [hwrite] using hoffset) (by simpa [hwrite] using hhistory)
      | false =>
          rw [hwrite] at hoffset hhistory
          simp only [Bool.false_eq_true, if_false] at hoffset hhistory
          obtain ⟨done, hworks, hlast⟩ := answers_works (fun m : TelegramMention => m.updateId)
            (fun replied => decide (maxRepliesPerPoll ≤ replied)) (isForAgent py cfg) answer
            (updates.filterMap cfg.mention)
          rw [hlast] at hoffset
          have hitems : (updates.filterMap cfg.mention).Pairwise fun a b => a.updateId < b.updateId := messages_sorted hsorted
          have habove : ∀ a ∈ updates.filterMap cfg.mention, n ≤ a.updateId := by
            intro a ha
            obtain ⟨u, hu, hmention⟩ := List.mem_filterMap.1 ha
            rw [mention_updateId hmention]
            exact (hmem u hu).2
          cases hdone : done.getLast? with
          | none =>
              have hnone := List.getLast?_eq_none_iff.1 hdone
              refine ⟨n, h.advance hworks hitems habove le_rfl (by simp [hnone]) (fun a _ hge hlt => ?_) (.inl rfl)
                ⟨hqueue, by simpa [hdone] using hoffset, hhistory⟩⟩
              omega
          | some m =>
              have hm := List.mem_of_getLast? hdone
              obtain ⟨v, hv, hmention⟩ := List.mem_filterMap.1 (hworks.begins.subset hm)
              have hid := mention_updateId hmention
              have hge := habove m (hworks.begins.subset hm)
              refine ⟨m.updateId + 1, h.advance hworks hitems habove (by omega) (fun a ha => ?_) (fun a ha hge hlt => ?_)
                (.inr ⟨v, (hmem v hv).1, by rw [hid]⟩) ⟨hqueue, by simpa [hdone] using hoffset, hhistory⟩⟩
              · exact Nat.lt_succ_of_le (le_last (hitems.sublist hworks.begins.sublist) hdone ha)
              · exact mem_of_prefix hworks.begins hitems hm (hdue v hv a ha hge (by omega)) (Nat.le_of_lt_succ hlt)

theorem nextOffset_eq {page : List TelegramUpdate} : (fetchNewMessages cfg page).2 =
    (page.map fun u => u.updateId).max?.map fun id => id + 1 := by
  unfold fetchNewMessages
  split
  case isTrue hnil =>
    rw [hnil]
    rfl
  case isFalse _ =>
    rfl

/-- The first poll passes what the server held then, and nothing that comes later. -/
theorem TelegramOk.bootstrap {w₀ w₁ : TelegramWorld} (hempty : w₀.history = []) (hnone : w₀.offset = none)
    (hboot : TelegramStep py cfg w₀ w₁) (hsome : w₁.offset ≠ none) : ∃ n, TelegramOk py cfg w₀.queue w₁ n := by
  cases hboot with
  | arrive u hnew =>
      exact absurd hnone hsome
  | poll writeDisabled answer page hpage =>
      cases page with
      | none =>
          exact absurd hnone hsome
      | some updates =>
          have hget := hpage updates rfl
          rw [hnone] at hget
          have hqueue : ∀ u ∈ updates, u ∈ w₀.queue := fun u hu => List.mem_of_mem_drop (hget.1.subset hu)
          have hoffset : (w₀.poll py cfg writeDisabled answer (some updates)).offset =
              some ((fetchNewMessages cfg updates).2.getD 0) := by simp [TelegramWorld.poll, runTelegramInbox, hnone]
          have hhistory : (w₀.poll py cfg writeDisabled answer (some updates)).history = [] := by
            simp [TelegramWorld.poll, runTelegramInbox, hnone, hempty]
          refine ⟨_, hoffset, fun k hk => ?_, ?_⟩
          · rw [nextOffset_eq] at hk
            cases hmax : (updates.map fun u => u.updateId).max? with
            | none =>
                simp [hmax] at hk
            | some id =>
                obtain ⟨v, hv, rfl⟩ := List.mem_map.1 (List.max?_eq_some_iff.1 hmax).1
                simp only [hmax, Option.map_some, Option.getD_some] at hk
                exact ⟨v, hqueue v hv, Nat.le_of_lt_succ hk⟩
          · rw [hhistory]
            exact Tracked.begin fun m ⟨u, hu, hbacklog, _⟩ => absurd hu hbacklog

theorem TelegramOk.run (h : TelegramOk py cfg backlog w n) (hrun : TelegramRun py cfg w w') :
    ∃ n', TelegramOk py cfg backlog w' n' := by
  induction hrun with
  | refl =>
      exact ⟨n, h⟩
  | step _ hstep ih =>
      obtain ⟨n', h'⟩ := ih
      cases hstep with
      | arrive u hnew =>
          exact ⟨n', h'.arrive hnew⟩
      | poll writeDisabled answer page hpage =>
          exact h'.poll hpage

end Offset

/-- After the first poll, whatever arrives and however the polls go: the offset does not pass the number of a
message for the agent that was neither answered nor has failed for a reason of its own, and whatever is done with
comes before everything that is handled later, so that nothing is handled again. -/
theorem telegram_keeps {py : Python} {cfg : TelegramConfig} {w₀ w₁ w : TelegramWorld} (hempty : w₀.history = [])
    (hnone : w₀.offset = none) (hboot : TelegramStep py cfg w₀ w₁) (hsome : w₁.offset ≠ none)
    (h : TelegramRun py cfg w₁ w) :
    ∃ n, w.offset = some n ∧
      (∀ u ∈ w.queue, u ∉ w₀.queue → ∀ m, cfg.mention u = some m → isForAgent py cfg m = true →
        .answered m ∉ w.history → .failed m ∉ w.history → n ≤ u.updateId) ∧
      w.history.Pairwise fun e e' => e.consumed = true → e.item.updateId < e'.item.updateId := by
  obtain ⟨_, hbegin⟩ := TelegramOk.bootstrap hempty hnone hboot hsome
  obtain ⟨n, hok⟩ := hbegin.run h
  refine ⟨n, hok.offset, fun u hu hbacklog m hmention hfor hanswered hfailed => ?_, hok.tracked.ordered⟩
  refine Nat.not_lt.1 fun hlt => ?_
  have hmark : m.updateId < n := by
    rw [mention_updateId hmention]
    exact hlt
  rcases hok.tracked.covered m ⟨u, hu, hbacklog, hmention, hfor⟩ hmark with hmem | hmem
  · exact hanswered hmem
  · exact hfailed hmem

/-- A bot with one chat. -/
def sampleTelegram : TelegramConfig :=
  ⟨"acme", ["111"]⟩

/-- A direct message, the update with this number. -/
def sampleUpdate (id : ℕ) : TelegramUpdate :=
  ⟨id, some ⟨some 7, some "status?", some ⟨some 111, some "private"⟩, some 42⟩⟩

/-- Before the first poll. -/
def sampleTelegramWorld : TelegramWorld where
  queue := [sampleUpdate 5]
  sorted := List.pairwise_singleton _ _
  offset := none
  history := []

/-- The first poll. -/
def sampleBootstrapped : TelegramWorld :=
  sampleTelegramWorld.poll samplePython sampleTelegram false (fun _ => .ok none) (some [sampleUpdate 5])

/-- The second update has arrived. -/
def sampleArrived : TelegramWorld :=
  sampleBootstrapped.arrive (sampleUpdate 6) (by decide)

/-- The mention of the second update. -/
def sampleMention : TelegramMention :=
  ⟨"tg:111:7", "status?", "111", "42", "telegram", some 7, "private", 6⟩

/-- The second poll, in which the provider times out. -/
def sampleHeld : TelegramWorld :=
  sampleArrived.poll samplePython sampleTelegram false (fun _ => .error .apiTimeout) (some [sampleUpdate 6])

/-- The first poll passes update 5; the answer to update 6 times out, and the offset stays at it. -/
theorem telegram_keeps_sample : ∃ n, sampleHeld.offset = some n ∧ sampleHeld.history = [.held sampleMention] ∧ n ≤ 6 := by
  have hfirst : GetUpdates sampleTelegramWorld.queue (-1) [sampleUpdate 5] := ⟨List.prefix_rfl, by decide⟩
  have hsecond : GetUpdates sampleArrived.queue 6 [sampleUpdate 6] := ⟨List.prefix_rfl, by decide⟩
  have hboot : TelegramStep samplePython sampleTelegram sampleTelegramWorld sampleBootstrapped :=
    .poll false _ _ fun p hp => Option.some.inj hp ▸ hfirst
  have hoffset : fetchOffset sampleArrived.offset = 6 := by decide +kernel
  have harrive : TelegramRun samplePython sampleTelegram sampleBootstrapped sampleArrived := .step .refl (.arrive _ _)
  have hheld : TelegramRun samplePython sampleTelegram sampleBootstrapped sampleHeld :=
    harrive.step (.poll false _ _ fun p hp => hoffset ▸ Option.some.inj hp ▸ hsecond)
  have hhistory : sampleHeld.history = [.held sampleMention] := by decide +kernel
  obtain ⟨n, hn, hkeeps, -⟩ := telegram_keeps rfl rfl hboot (by decide +kernel) hheld
  have hqueue : sampleUpdate 6 ∈ sampleHeld.queue := List.mem_append_right _ (List.mem_singleton.2 rfl)
  have hlater : sampleUpdate 6 ∉ sampleTelegramWorld.queue := by simp [sampleTelegramWorld, sampleUpdate]
  have hmention : sampleTelegram.mention (sampleUpdate 6) = some sampleMention := by decide +kernel
  exact ⟨n, hn, hhistory, hkeeps _ hqueue hlater _ hmention (by decide +kernel) (by simp [hhistory]) (by simp [hhistory])⟩

end ProjectManager
