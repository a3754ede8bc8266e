import Mathlib.Data.List.Sort
import Mathlib.Data.String.Basic
import ProjectManager.Actions.Mediation
import ProjectManager.Inbox.Answers
import ProjectManager.Lib.Text

/-!
# The Slack inbox

`run_inbox` over one channel: the search for new mentions, the answers and the saved watermark.  The search has
a page of twenty.  `mentions_kept` says that over all polls after the first one the watermark never passes a
mention that was neither answered nor given up, provided that no poll that answers leaves an unread mention
outside its page; `mention_buried` is a burst in which one is lost.
-/

namespace ProjectManager

open Intake

/-! ### The search -/

/-- A time stamp of Slack: seconds and microseconds, so that they are ordered as texts. -/
def IsStamp (ts : String) : Prop :=
  ts.toList.length = 17 ∧ ts.toList[10]? = some '.' ∧ (ts.toList.take 10 ++ ts.toList.drop 11).all Char.isDigit = true

instance (ts : String) : Decidable (IsStamp ts) :=
  inferInstanceAs (Decidable (_ ∧ _ ∧ _))

/-- A message of the channel. -/
structure SlackMessage where
  ts : String
  text : String
  stamp : IsStamp ts
deriving DecidableEq

/-- The `inbox:` block and the name of the agent. -/
structure SlackInbox where
  agentId : String
  channel : String

/-- A query of `search_messages`. -/
structure SlackQuery where
  channelName : String
  phrase : String
  after : Option ℤ

/-- What lies outside: the texts in which the search finds a phrase, the date of a stamp as the search has it, and
the date that `datetime.fromtimestamp` gives. -/
structure SlackSearch where
  hits : String → String → Bool
  day : String → ℤ
  localDay : String → ℤ

/-- `_find_channel`, over the ids and names that the workspace lists. -/
def findChannel (channels : List (String × String)) (channelId : String) : Option String :=
  (channels.find? fun ch => ch.1 == channelId).map fun ch => ch.2

/-- `_channel_name`: the listing, and the one past the cache.  None is the error. -/
def channelName (listing : Bool → List (String × String)) (channelId : String) : Option String :=
  (findChannel (listing false) channelId).or (findChannel (listing true) channelId)

/-- The query of `fetch_new_mentions`. -/
def mentionQuery (search : SlackSearch) (name agentId : String) (lastTs : Option String) : SlackQuery where
  channelName := name
  phrase := "@" ++ agentId
  after := lastTs.map fun ts => search.localDay ts - 1

/-- `_SEARCH_COUNT`. -/
def searchCount : ℕ :=
  20

/-- A message contains the phrase. -/
def isMention (py : Python) (agentId : String) (m : SlackMessage) : Bool :=
  Text.contains (py.lower m.text) (py.lower ("@" ++ agentId))

/-- `fetch_new_mentions`; none when the channel is not found or the search fails. -/
def fetchNewMentions (py : Python) (search : SlackSearch) (inbox : SlackInbox)
    (listing : Bool → List (String × String)) (searchMessages : SlackQuery → Option (List SlackMessage))
    (lastTs : Option String) : Option (List SlackMessage × Option String) := do
  let name ← channelName listing inbox.channel
  let messages ← searchMessages (mentionQuery search name inbox.agentId lastTs)
  let newest := (messages.map fun m => m.ts).max?
  match lastTs with
  | none => some ([], newest)
  | some lastTs =>
      let fresh := messages.filter fun m => decide (lastTs < m.ts) && isMention py inbox.agentId m
      some (fresh.insertionSort fun a b => a.ts ≤ b.ts, newest)

/-! ### A poll -/

/-- What a poll meets: the time, the switch, the listing, the search and the answers. -/
structure SlackPoll where
  now : String
  stamp : IsStamp now
  writeDisabled : Bool
  listing : Bool → List (String × String)
  searchMessages : SlackQuery → Option (List SlackMessage)
  answer : SlackMessage → Except AnswerError (Option ℚ)

/-- The end of a poll: what it returns, unless it raises, the watermark in the state file, and what became of the
mentions. -/
structure SlackEnd where
  result : Option InboxResult
  watermark : Option String
  history : List (Handling SlackMessage)

/-- `run_inbox`, with the watermark in the state file. -/
def runInbox (py : Python) (search : SlackSearch) (inbox : SlackInbox) (poll : SlackPoll) (watermark : Option String) :
    SlackEnd :=
  match fetchNewMentions py search inbox poll.listing poll.searchMessages watermark with
  | none => ⟨none, watermark, []⟩
  | some (mentions, newest) =>
      if watermark = none then
        ⟨some ⟨"bootstrapped", 0, none, false⟩, some ((newest.filter fun ts => decide (ts ≠ "")).getD poll.now), []⟩
      else if poll.writeDisabled then
        ⟨some ⟨"writes_disabled", 0, none, false⟩, watermark, []⟩
      else
        let r := answerLoop (fun m => m.ts) (fun _ => false) (fun _ => true) poll.answer
          (mentions.take maxRepliesPerPoll) Replies.start
        ⟨some ⟨if mentions = [] then "no_mentions" else "replied_" ++ toString r.replied, r.replied, r.costUsd,
            decide (0 < r.replied)⟩,
          r.last.or watermark, r.history⟩

/-! ### Runs -/

/-- The messages of a channel in which the search finds a query. -/
def SlackSearch.matching (search : SlackSearch) (query : SlackQuery) (channel : List SlackMessage) : List SlackMessage :=
  channel.filter fun m => search.hits query.phrase m.text && query.after.all fun day => decide (day ≤ search.day m.ts)

/-- `search_messages`: the newest messages that match, as many as a page has, in some order. -/
def SearchPage (search : SlackSearch) (channel : List SlackMessage) (query : SlackQuery) (page : List SlackMessage) :
    Prop :=
  let found := search.matching query channel
  page.Perm (found.drop (found.length - searchCount))

/-- The messages of the channel in the order of their stamps, the time, the state file, and what became of mentions so
far. -/
structure SlackWorld where
  channel : List SlackMessage
  sorted : channel.Pairwise fun a b => a.ts < b.ts
  clock : String
  past : ∀ m ∈ channel, m.ts ≤ clock
  watermark : Option String
  history : List (Handling SlackMessage)

namespace SlackWorld

/-- Messages are posted. -/
def arrive (w : SlackWorld) (messages : List SlackMessage) (now : String)
    (hsorted : messages.Pairwise fun a b => a.ts < b.ts) (hnew : ∀ m ∈ messages, w.clock < m.ts ∧ m.ts ≤ now)
    (hnow : w.clock ≤ now) : SlackWorld :=
  { w with
    channel := w.channel ++ messages
    sorted := List.pairwise_append.2 ⟨w.sorted, hsorted, fun a ha b hb => (w.past a ha).trans_lt (hnew b hb).1⟩
    clock := now
    past := fun m hm => (List.mem_append.1 hm).elim (fun h => (w.past m h).trans hnow) fun h => (hnew m h).2 }

/-- A poll runs. -/
def poll (py : Python) (search : SlackSearch) (inbox : SlackInbox) (p : SlackPoll) (w : SlackWorld)
    (hnow : w.clock ≤ p.now) : SlackWorld :=
  let ended := runInbox py search inbox p w.watermark
  { w with
    clock := p.now
    past := fun m hm => (w.past m hm).trans hnow
    watermark := ended.watermark
    history := w.history ++ ended.history }

end SlackWorld

/-- One step: messages are posted, or a poll runs that `allows` admits. -/
inductive SlackStep (py : Python) (search : SlackSearch) (inbox : SlackInbox) (allows : SlackWorld → SlackPoll → Prop) :
    SlackWorld → SlackWorld → Prop where
  | arrive {w : SlackWorld} (messages : List SlackMessage) (now : String)
      (hsorted : messages.Pairwise fun a b => a.ts < b.ts) (hnew : ∀ m ∈ messages, w.clock < m.ts ∧ m.ts ≤ now)
      (hnow : w.clock ≤ now) : SlackStep py search inbox allows w (w.arrive messages now hsorted hnew hnow)
  | poll {w : SlackWorld} (p : SlackPoll) (hnow : w.clock ≤ p.now)
      (hpage : ∀ query page, p.searchMessages query = some page → SearchPage search w.channel query page)
      (hallows : allows w p) : SlackStep py search inbox allows w (w.poll py search inbox p hnow)

/-- The runs from one world to another. -/
inductive SlackRun (py : Python) (search : SlackSearch) (inbox : SlackInbox) (allows : SlackWorld → SlackPoll → Prop)
    (w : SlackWorld) : SlackWorld → Prop where
  | refl : SlackRun py search inbox allows w w
  | step {w' w'' : SlackWorld} (h : SlackRun py search inbox allows w w')
      (hstep : SlackStep py search inbox allows w' w'') : SlackRun py search inbox allows w w''

/-- What the search promises: it finds every mention, and the day that the query leaves room for takes up what its
dates and those of this machine differ by. -/
structure SearchOk (py : Python) (search : SlackSearch) (inbox : SlackInbox) : Prop where
  finds : ∀ m, isMention py inbox.agentId m = true → search.hits ("@" ++ inbox.agentId) m.text = true
  overlap : ∀ a b, IsStamp a → IsStamp b → a ≤ b → search.localDay a - 1 ≤ search.day b

/-- No poll that may answer has an unread mention with a page of messages or more behind it. -/
def PageHolds (py : Python) (search : SlackSearch) (inbox : SlackInbox) (w : SlackWorld) (p : SlackPoll) : Prop :=
  p.writeDisabled = true ∨ ∀ m ∈ w.channel, isMention py inbox.agentId m = true → (∀ ts, w.watermark = some ts → ts < m.ts) →
    (w.channel.filter fun a => search.hits ("@" ++ inbox.agentId) a.text && decide (m.ts ≤ a.ts)).length ≤ searchCount

/-- The watermark has not passed a mention that was neither answered nor given up, the backlog apart. -/
def MentionsKept (py : Python) (inbox : SlackInbox) (backlog : List SlackMessage) (w : SlackWorld) : Prop :=
  ∀ m ∈ w.channel, m ∉ backlog → isMention py inbox.agentId m = true → .answered m ∉ w.history → .failed m ∉ w.history →
    ∀ ts, w.watermark = some ts → ts < m.ts

/-! ### A page -/

section Page

variable {py : Python} {search : SlackSearch} {inbox : SlackInbox} {w : SlackWorld} {page l : List SlackMessage}

/-- Sorted by stamps that differ, messages come in order. -/
theorem mentions_sorted {p : SlackMessage → Bool} (hpage : page.Perm l) (hl : l.Pairwise fun a b => a.ts < b.ts) :
    ((page.filter p).insertionSort fun a b => a.ts ≤ b.ts).Pairwise fun a b => a.ts < b.ts := by
  have htotal : Std.Total fun a b : SlackMessage => a.ts ≤ b.ts := ⟨fun a b => le_total a.ts b.ts⟩
  have htrans : IsTrans SlackMessage fun a b => a.ts ≤ b.ts := ⟨fun _ _ _ hab hbc => hab.trans hbc⟩
  have hle : ((page.filter p).insertionSort fun a b => a.ts ≤ b.ts).Pairwise fun a b => a.ts ≤ b.ts :=
    List.pairwise_insertionSort _ _
  have hperm : ((page.filter p).insertionSort fun a b => a.ts ≤ b.ts).Perm (l.filter p) :=
    (List.perm_insertionSort _ _).trans (hpage.filter p)
  have hne : (l.filter p).Pairwise fun a b => a.ts ≠ b.ts := (hl.filter p).imp ne_of_lt
  have hne' := (hperm.pairwise_iff fun hab => Ne.symm hab).2 hne
  exact (hle.and hne').imp fun h => lt_of_le_of_ne h.1 h.2

/-- The first poll takes the newest stamp of a page. -/
theorem fetchNewMentions_bootstrap {listing : Bool → List (String × String)}
    {searchMessages : SlackQuery → Option (List SlackMessage)} {mentions : List SlackMessage} {newest : Option String}
    (h : fetchNewMentions py search inbox listing searchMessages none = some (mentions, newest)) :
    ∃ query page, searchMessages query = some page ∧ newest = (page.map fun m => m.ts).max? := by
  unfold fetchNewMentions at h
  simp only [Option.bind_eq_bind, Option.bind_eq_some_iff] at h
  obtain ⟨name, -, page, hpage, heq⟩ := h
  exact ⟨_, page, hpage, (congrArg Prod.snd (Option.some.inj heq)).symm⟩

/-- The mentions of a poll are those of a page behind the watermark. -/
theorem fetchNewMentions_eq_some {listing : Bool → List (String × String)}
    {searchMessages : SlackQuery → Option (List SlackMessage)} {ts : String} {mentions : List SlackMessage}
    {newest : Option String}
    (h : fetchNewMentions py search inbox listing searchMessages (some ts) = some (mentions, newest)) :
    ∃ name page, searchMessages (mentionQuery search name inbox.agentId (some ts)) = some page ∧ mentions =
      (page.filter fun m => decide (ts < m.ts) && isMention py inbox.agentId m).insertionSort
        fun a b => a.ts ≤ b.ts := by
  unfold fetchNewMentions at h
  simp only [Option.bind_eq_bind, Option.bind_eq_some_iff] at h
  obtain ⟨name, -, page, hpage, heq⟩ := h
  exact ⟨name, page, hpage, (congrArg Prod.fst (Option.some.inj heq)).symm⟩

/-- An unread mention that has less than a page of messages behind it is on the page. -/
theorem mem_searchPage (hsearch : SearchOk py search inbox) {name ts : String} (hts : IsStamp ts)
    (hpage : SearchPage search w.channel (mentionQuery search name inbox.agentId (some ts)) page) {m : SlackMessage}
    (hm : m ∈ w.channel) (hmention : isMention py inbox.agentId m = true) (hunread : ts < m.ts)
    (hcount : (w.channel.filter fun a =>
      search.hits ("@" ++ inbox.agentId) a.text && decide (m.ts ≤ a.ts)).length ≤ searchCount) : m ∈ page := by
  have hday := hsearch.overlap ts m.ts hts m.stamp hunread.le
  have hfound : m ∈ search.matching (mentionQuery search name inbox.agentId (some ts)) w.channel := by
    refine List.mem_filter.2 ⟨hm, ?_⟩
    simp [mentionQuery, hsearch.finds m hmention]
    omega
  refine hpage.symm.subset (mem_newest (w.sorted.filter _) hfound ?_)
  refine le_trans (List.Sublist.length_le ?_) hcount
  rw [SlackSearch.matching, List.filter_filter]
  refine List.monotone_filter_right _ fun a ha => ?_
  simp only [mentionQuery, Bool.and_eq_true] at ha ⊢
  exact ⟨ha.2.1, ha.1⟩

end Page

/-! ### The watermark -/

/-- A mention that came after the backlog. -/
def SlackDue (py : Python) (inbox : SlackInbox) (backlog channel : List SlackMessage) (m : SlackMessage) : Prop :=
  m ∈ channel ∧ m ∉ backlog ∧ isMention py inbox.agentId m = true

/-- What holds once there is a watermark. -/
structure SlackOk (py : Python) (inbox : SlackInbox) (backlog : List SlackMessage) (w : SlackWorld) (ts : String) : Prop where
  watermark : w.watermark = some ts
  stamp : IsStamp ts
  reached : ts ≤ w.clock
  tracked : Tracked (fun m : SlackMessage => m.ts) (SlackDue py inbox backlog w.channel) (LowerSet.Iic ts) w.history

section Watermark

variable {py : Python} {search : SlackSearch} {inbox : SlackInbox} {backlog : List SlackMessage} {w w' : SlackWorld}
  {ts : String}

theorem SlackOk.arrive (h : SlackOk py inbox backlog w ts) {messages : List SlackMessage} {now : String}
    (hsorted : messages.Pairwise fun a b => a.ts < b.ts) (hnew : ∀ m ∈ messages, w.clock < m.ts ∧ m.ts ≤ now)
    (hnow : w.clock ≤ now) : SlackOk py inbox backlog (w.arrive messages now hsorted hnew hnow) ts := by
  refine ⟨h.watermark, h.stamp, h.reached.trans hnow, h.tracked.arrive fun m hm => ?_⟩
  obtain ⟨hin, hbacklog, hmention⟩ := hm
  rcases List.mem_append.1 hin with hin | hin
  · exact .inl ⟨hin, hbacklog, hmention⟩
  · exact .inr fun hle => absurd (h.reached.trans_lt (hnew m hin).1) (not_lt_of_ge hle)

theorem SlackOk.poll (hsearch : SearchOk py search inbox) (h : SlackOk py inbox backlog w ts) {p : SlackPoll}
    (hnow : w.clock ≤ p.now)
    (hpage : ∀ query page, p.searchMessages query = some page → SearchPage search w.channel query page)
    (hallows : PageHolds py search inbox w p) :
    ∃ ts', SlackOk py inbox backlog (w.poll py search inbox p hnow) ts' := by
  obtain ⟨ended, hended⟩ : ∃ ended, runInbox py search inbox p (some ts) = ended := ⟨_, rfl⟩
  have hwatermark : (w.poll py search inbox p hnow).watermark = ended.watermark := by
    rw [← hended, ← h.watermark]
    rfl
  have hhistory : (w.poll py search inbox p hnow).history = w.history ++ ended.history := by
    rw [← hended, ← h.watermark]
    rfl
  have hstay : ended.watermark = some ts → ended.history = [] →
      ∃ ts', SlackOk py inbox backlog (w.poll py search inbox p hnow) ts' := by
    intro hsame hnone
    refine ⟨ts, hwatermark.trans hsame, h.stamp, h.reached.trans hnow, ?_⟩
    rw [hhistory, hnone, List.append_nil]
    exact h.tracked
  unfold runInbox at hended
  cases hfetch : fetchNewMentions py search inbox p.listing p.searchMessages (some ts) with
  | none =>
      rw [hfetch] at hended
      exact hstay (hended ▸ rfl) (hended ▸ rfl)
  | some fetched =>
      obtain ⟨mentions, newest⟩ := fetched
      rw [hfetch] at hended
      simp only [reduceCtorEq, if_false] at hended
      by_cases hdisabled : p.writeDisabled = true
      · rw [if_pos hdisabled] at hended
        exact hstay (hended ▸ rfl) (hended ▸ rfl)
      rw [if_neg hdisabled] at hended
      obtain ⟨done, hworks, hlast⟩ := answers_works (fun m : SlackMessage => m.ts) (fun _ => false) (fun _ => true)
        p.answer (mentions.take maxRepliesPerPoll)
      obtain ⟨name, page, hfound, hmentions⟩ := fetchNewMentions_eq_some hfetch
      have hpage' := hpage _ _ hfound
      have hsorted : mentions.Pairwise fun a b => a.ts < b.ts := by
        rw [hmentions]
        exact mentions_sorted hpage' ((w.sorted.filter _).drop)
      have hmem : ∀ m, m ∈ mentions ↔ m ∈ page ∧ ts < m.ts ∧ isMention py inbox.agentId m = true := by
        simp [hmentions]
      have hdue : ∀ m, SlackDue py inbox backlog w.channel m → ts < m.ts → m ∈ mentions := by
        rintro m ⟨hm, -, hmention⟩ hunread
        have hfew := hallows.resolve_left hdisabled m hm hmention fun ts' hts' =>
          Option.some.inj (h.watermark.symm.trans hts') ▸ hunread
        exact (hmem m).2 ⟨mem_searchPage hsearch h.stamp hpage' hm hmention hunread hfew, hunread, hmention⟩
      have hbegins : done <+: mentions := hworks.begins.trans (List.take_prefix _ _)
      -- the watermark moves to a stamp that passes what is done with, and nothing else that is due
      have hmove : ∀ ts', IsStamp ts' → ts ≤ ts' → ts' ≤ w.clock → ended.watermark = some ts' →
          (∀ a ∈ done, a.ts ≤ ts') → (∀ a ∈ mentions, a.ts ≤ ts' → a ∈ done) →
          ∃ ts', SlackOk py inbox backlog (w.poll py search inbox p hnow) ts' := by
        intro ts' hstamp hle hreached hmoved hdone honly
        refine ⟨ts', hwatermark.trans hmoved, hstamp, hreached.trans hnow, ?_⟩
        rw [hhistory, ← hended]
        refine h.tracked.batch hworks handle_item (fun a _ => handle_due rfl) (hsorted.sublist (List.take_sublist _ _))
          (fun a ha => ?_) (fun b hb => le_trans hb hle) hdone fun a ha hmark hmark' => ?_
        · exact not_le_of_gt ((hmem a).1 (List.mem_of_mem_take ha)).2.1
        · exact honly a (hdue a ha (lt_of_not_ge hmark)) hmark'
      have hlast' : ended.watermark = (done.getLast?.map fun m => m.ts).or (some ts) := by
        rw [← hended, hlast]
      cases hdone : done.getLast? with
      | none =>
          have hnil := List.getLast?_eq_none_iff.1 hdone
          refine hmove ts h.stamp le_rfl h.reached (by simpa [hdone] using hlast') (by simp [hnil]) fun a ha hle => ?_
          exact absurd hle (not_le_of_gt ((hmem a).1 ha).2.1)
      | some m =>
          have hm := List.mem_of_getLast? hdone
          obtain ⟨hin, hunread, -⟩ := (hmem m).1 (hbegins.subset hm)
          have hchannel : m ∈ w.channel := List.mem_of_mem_filter (List.mem_of_mem_drop (hpage'.subset hin))
          refine hmove m.ts m.stamp hunread.le (w.past m hchannel) (by simpa [hdone] using hlast') (fun a ha => ?_)
            fun a ha hle => ?_
          · exact le_last (hsorted.sublist hbegins.sublist) hdone ha
          · exact mem_of_prefix hbegins hsorted hm ha hle

/-- The first poll passes what it has seen, and nothing that comes later. -/
theorem SlackOk.bootstrap {w₀ w₁ : SlackWorld} {allows : SlackWorld → SlackPoll → Prop} (hempty : w₀.history = [])
    (hnone : w₀.watermark = none) (hboot : SlackStep py search inbox allows w₀ w₁) (hsome : w₁.watermark ≠ none) :
    ∃ ts, SlackOk py inbox w₀.channel w₁ ts := by
  cases hboot with
  | arrive messages now hsorted hnew hnow =>
      exact absurd hnone hsome
  | poll p hnow hpage _ =>
      cases hfetch : fetchNewMentions py search inbox p.listing p.searchMessages none with
      | none =>
          exact absurd (by simp [SlackWorld.poll, runInbox, hfetch, hnone]) hsome
      | some fetched =>
          obtain ⟨mentions, newest⟩ := fetched
          have hwatermark : (w₀.poll py search inbox p hnow).watermark =
              some ((newest.filter fun ts => decide (ts ≠ "")).getD p.now) := by
            simp [SlackWorld.poll, runInbox, hfetch, hnone]
          have hhistory : (w₀.poll py search inbox p hnow).history = [] := by
            simp [SlackWorld.poll, runInbox, hfetch, hnone, hempty]
          have hstamp : ∀ ts, (newest.filter fun ts => decide (ts ≠ "")).getD p.now = ts → IsStamp ts ∧ ts ≤ p.now := by
            rintro ts rfl
            cases hnewest : newest.filter fun ts => decide (ts ≠ "") with
            | none =>
                exact ⟨p.stamp, le_rfl⟩
            | some ts =>
                obtain ⟨query, page, hfound, hmax⟩ := fetchNewMentions_bootstrap hfetch
                rw [hmax, Option.filter_eq_some_iff] at hnewest
                obtain ⟨m, hm, rfl⟩ := List.mem_map.1 (List.max?_mem hnewest.1)
                have hchannel : m ∈ w₀.channel :=
                  List.mem_of_mem_filter (List.mem_of_mem_drop ((hpage _ _ hfound).subset hm))
                exact ⟨m.stamp, (w₀.past m hchannel).trans hnow⟩
          obtain ⟨hts, hle⟩ := hstamp _ rfl
          refine ⟨_, hwatermark, hts, hle, ?_⟩
          rw [hhistory]
          exact Tracked.begin fun m hm => absurd hm.1 hm.2.1

theorem SlackOk.run (hsearch : SearchOk py search inbox) (h : SlackOk py inbox backlog w ts)
    (hrun : SlackRun py search inbox (PageHolds py search inbox) w w') : ∃ ts', SlackOk py inbox backlog w' ts' := by
  induction hrun with
  | refl =>
      exact ⟨ts, h⟩
  | step _ hstep ih =>
      obtain ⟨ts', h'⟩ := ih
      cases hstep with
      | arrive messages now hsorted hnew hnow =>
          exact ⟨ts', h'.arrive hsorted hnew hnow⟩
      | poll p hnow hpage hallows =>
          exact h'.poll hsearch hnow hpage hallows

end Watermark

/-- After the first poll, whatever is posted and however the answers go: the watermark does not pass a mention that
was neither answered nor has failed for a reason of its own, when every poll that may answer has the unread mentions
on its page. -/
theorem mentions_kept {py : Python} {search : SlackSearch} {inbox : SlackInbox} (hsearch : SearchOk py search inbox)
    {w₀ w₁ w : SlackWorld} (hempty : w₀.history = []) (hnone : w₀.watermark = none)
    (hboot : SlackStep py search inbox (fun _ _ => True) w₀ w₁) (hsome : w₁.watermark ≠ none)
    (h : SlackRun py search inbox (PageHolds py search inbox) w₁ w) : MentionsKept py inbox w₀.channel w := by
  obtain ⟨_, hbegin⟩ := SlackOk.bootstrap hempty hnone hboot hsome
  obtain ⟨ts, hok⟩ := hbegin.run hsearch h
  intro m hm hbacklog hmention hanswered hfailed ts' hts'
  have heq : ts' = ts := Option.some.inj (hts'.symm.trans hok.watermark)
  refine lt_of_not_ge fun hle => ?_
  rcases hok.tracked.covered m ⟨hm, hbacklog, hmention⟩ (heq ▸ hle) with hmem | hmem
  · exact hanswered hmem
  · exact hfailed hmem

/-- An inbox of the agent acme. -/
def sampleInbox : SlackInbox :=
  ⟨"acme", "C_IN"⟩

/-- The search on one day, which finds a phrase in whatever case. -/
def sampleSearch : SlackSearch where
  hits := fun phrase text => Text.contains (samplePython.lower text) (samplePython.lower phrase)
  day := fun _ => 19675
  localDay := fun _ => 19675

theorem sampleSearch_ok : SearchOk samplePython sampleSearch sampleInbox where
  finds := fun _ h => h
  overlap := fun _ _ _ _ _ => by simp [sampleSearch]

/-- The n-th mention of a burst. -/
def sampleBurst (n : Fin 21) : SlackMessage where
  ts := "17000000" ++ toString (n.val + 10) ++ ".000000"
  text := "@acme"
  stamp := by
    revert n
    decide

/-- A poll of a channel with these messages, in which every answer succeeds. -/
def samplePoll (now : String) (stamp : IsStamp now) (channel : List SlackMessage) : SlackPoll where
  now := now
  stamp := stamp
  writeDisabled := false
  listing := fun _ => [("C_IN", "report")]
  searchMessages := fun query =>
    let found := sampleSearch.matching query channel
    some (found.drop (found.length - searchCount))
  answer := fun _ => .ok none

/-- Before the first poll. -/
def sampleSlack : SlackWorld where
  channel := []
  sorted := List.Pairwise.nil
  clock := "1700000000.000000"
  past := by simp
  watermark := none
  history := []

/-- The first poll. -/
def sampleSlackBootstrapped : SlackWorld :=
  sampleSlack.poll samplePython sampleSearch sampleInbox (samplePoll "1700000000.000000" (by decide) []) le_rfl

theorem sampleSlack_boot : SlackStep samplePython sampleSearch sampleInbox (fun _ _ => True) sampleSlack
    sampleSlackBootstrapped := by
  refine .poll _ le_rfl (fun query page hpage => ?_) trivial
  exact Option.some.inj hpage ▸ List.Perm.refl _

/-- The first mentions of the burst. -/
def sampleMentions (k : ℕ) : List SlackMessage :=
  ((List.finRange 21).map sampleBurst).take k

theorem sampleMentions_sorted (k : ℕ) : (sampleMentions k).Pairwise fun a b => a.ts < b.ts := by
  have hall : ((List.finRange 21).map sampleBurst).Pairwise fun a b => a.ts < b.ts := by decide
  exact hall.sublist (List.take_sublist _ _)

theorem sampleMentions_new (k : ℕ) :
    ∀ m ∈ sampleMentions k, sampleSlackBootstrapped.clock < m.ts ∧ m.ts ≤ "1700000059.000000" := by
  have hall : ∀ n : Fin 21, "1700000000.000000" < (sampleBurst n).ts ∧ (sampleBurst n).ts ≤ "1700000059.000000" := by
    decide
  intro m hm
  obtain ⟨n, -, rfl⟩ := List.mem_map.1 (List.mem_of_mem_take hm)
  exact hall n

/-- The first mentions of the burst are posted. -/
def samplePosted (k : ℕ) : SlackWorld :=
  sampleSlackBootstrapped.arrive (sampleMentions k) "1700000059.000000" (sampleMentions_sorted k) (sampleMentions_new k)
    (by decide)

/-- A poll answers mentions. -/
def sampleAnswered (k : ℕ) : SlackWorld :=
  (samplePosted k).poll samplePython sampleSearch sampleInbox
    (samplePoll "1700000059.000000" (by decide) (samplePosted k).channel) le_rfl

theorem sampleAnswered_run {k : ℕ} {allows : SlackWorld → SlackPoll → Prop} (hallows : ∀ p, allows (samplePosted k) p) :
    SlackRun samplePython sampleSearch sampleInbox allows sampleSlackBootstrapped (sampleAnswered k) := by
  have hposted : SlackRun samplePython sampleSearch sampleInbox allows sampleSlackBootstrapped (samplePosted k) :=
    .step .refl (.arrive _ _ _ _ _)
  refine hposted.step (.poll _ le_rfl (fun query page hpage => ?_) (hallows _))
  exact Option.some.inj hpage ▸ List.Perm.refl _

/-- One mention is posted and answered, and the watermark passes nothing else. -/
theorem mentions_kept_sample : (sampleAnswered 1).watermark = some "1700000010.000000" ∧
    MentionsKept samplePython sampleInbox [] (sampleAnswered 1) := by
  have hwatermark : (sampleAnswered 1).watermark = some "1700000010.000000" := by decide +kernel
  have hrun : SlackRun samplePython sampleSearch sampleInbox (PageHolds samplePython sampleSearch sampleInbox)
      sampleSlackBootstrapped (sampleAnswered 1) := by
    refine sampleAnswered_run fun p => .inr fun m hm _ _ => ?_
    refine (List.length_filter_le _ _).trans ?_
    decide +kernel
  exact ⟨hwatermark, mentions_kept sampleSearch_ok rfl rfl sampleSlack_boot (by decide +kernel) hrun⟩

/-- A burst of one mention more than a page: the poll answers the three oldest of its page, and the watermark passes
the mention before them. -/
theorem mention_buried : SearchOk samplePython sampleSearch sampleInbox ∧
    ¬ ∀ w₀ w₁ w : SlackWorld, w₀.history = [] → w₀.watermark = none →
      SlackStep samplePython sampleSearch sampleInbox (fun _ _ => True) w₀ w₁ → w₁.watermark ≠ none →
      SlackRun samplePython sampleSearch sampleInbox (fun _ _ => True) w₁ w →
        MentionsKept samplePython sampleInbox w₀.channel w := by
  refine ⟨sampleSearch_ok, fun hall => ?_⟩
  have hkept := hall sampleSlack sampleSlackBootstrapped (sampleAnswered 21) rfl rfl sampleSlack_boot (by decide +kernel)
    (sampleAnswered_run fun _ => trivial)
  have hended : ((sampleAnswered 21).watermark, (sampleAnswered 21).history) = (some "1700000013.000000",
      [.answered (sampleBurst 1), .answered (sampleBurst 2), .answered (sampleBurst 3)]) := by decide +kernel
  obtain ⟨hwatermark, hhistory⟩ := Prod.mk.inj hended
  have hfirst : sampleBurst 0 ∈ (sampleAnswered 21).channel := by decide +kernel
  have hlost := hkept _ hfirst (by simp [sampleSlack]) (by decide +kernel) (by rw [hhistory]; decide +kernel)
    (by rw [hhistory]; decide +kernel) _ hwatermark
  exact absurd hlost (by decide +kernel)

end ProjectManager
