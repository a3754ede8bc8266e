import Mathlib.Algebra.Order.Ring.Rat
import Mathlib.Logic.Function.Basic
import ProjectManager.Actions.Mediation
import ProjectManager.Agent.OpsChat
import ProjectManager.Lib.Execution

/-!
# Dialogues for operations

The messages of one conversation, handled one after another, whatever the model, the hooks and the catalogue come
to.  `ops_runs_confirmed` says that a command that writes runs only on the reply to its own preview, when the
reply confirms it in time, and with the slots of the preview; any other reply abandons the draft.
-/

namespace ProjectManager

open Process

/-! ### Turns -/

/-- The table `ops_drafts`. -/
abbrev DraftStore :=
  String → Option OpsDraft

/-- How a call may be answered: the store by its rows, and everything else in any way. -/
def OpsAnswers : (c : OpsCall) → DraftStore → c.Resp → DraftStore → Prop
  | .select key, s, draft, s' => draft = s key ∧ s' = s
  | .save key draft, s, _, s' => s' = Function.update s key (some draft)
  | .clear key, s, _, s' => s' = Function.update s key none
  | _, s, _, s' => s' = s

/-- Calls of the chat and their answers. -/
abbrev OpsLog :=
  Log OpsCall OpsCall.Resp

/-- The runs of commands, with their slots. -/
def runsOf (log : OpsLog) : List (String × Slots) :=
  log.filterMap fun e =>
    match e.1 with
    | .run commandId slots => some (commandId, slots)
    | _ => none

/-- The previews, with the slots that they left and what they came to. -/
def previewsOf (log : OpsLog) : List (String × Slots × Except CommandError String) :=
  log.filterMap fun e =>
    match e with
    | ⟨.preview commandId _, left, previewed⟩ => some (commandId, left, previewed)
    | _ => none

/-- The hooks of abandoned commands. -/
def cancelsOf (log : OpsLog) : List (String × Slots) :=
  log.filterMap fun e =>
    match e.1 with
    | .onCancel commandId slots => some (commandId, slots)
    | _ => none

/-- A message that was handled: when, under which catalogue, the row before and after it, and the calls. -/
structure OpsTurn where
  catalogue : OpsCatalogue
  message : String
  now : ℚ
  found : Option OpsDraft
  left : Option OpsDraft
  log : OpsLog

/-- The turns of a conversation, oldest first, and the store after them. -/
inductive Dialogue (lib : OpsLibrary) (key : String) : List OpsTurn → DraftStore → Prop where
  /-- there is no draft at the beginning -/
  | start {s : DraftStore} (h : s key = none) : Dialogue lib key [] s
  | turn {turns : List OpsTurn} {s s' : DraftStore} (h : Dialogue lib key turns s) (catalogue : OpsCatalogue)
      (message : String) (now : ℚ) {log : OpsLog} {out : Except String OpsReply}
      (hexec : (handleOpsMessage lib catalogue message key now).Execs OpsAnswers s log out s') :
      Dialogue lib key (turns ++ [⟨catalogue, message, now, s key, s' key, log⟩]) s'
  /-- other conversations go on -/
  | elsewhere {turns : List OpsTurn} {s s' : DraftStore} (h : Dialogue lib key turns s) (hsame : s' key = s key) :
      Dialogue lib key turns s'

/-! ### What a turn does -/

/-- The calls of a turn that neither confirms nor abandons anything: it runs at most one command, which only reads. -/
structure QuietCalls (catalogue : OpsCatalogue) (log : OpsLog) : Prop where
  readonly : ∀ r ∈ runsOf log, ∃ spec, catalogue.lookup r.1 = some spec ∧ spec.readonly = true
  runs : (runsOf log).length ≤ 1
  previews : (previewsOf log).length ≤ 1
  cancels : cancelsOf log = []

/-- A turn of such calls, after which a draft that awaits a reply was there before or has had its preview. -/
structure QuietTurn (catalogue : OpsCatalogue) (key : String) (now : ℚ) (s : DraftStore) (log : OpsLog) (s' : DraftStore) :
    Prop extends QuietCalls catalogue log where
  left : ∀ d, s' key = some d → d.phase = .awaitingConfirm →
    s key = some d ∨ d.updatedAt = now ∧ ∃ text, (d.commandId, d.slots, .ok text) ∈ previewsOf log

section Turns

variable {lib : OpsLibrary} {catalogue : OpsCatalogue} {key message : String} {now : ℚ} {s s' : DraftStore} {log : OpsLog}

/-- Calls among which are no runs, previews and hooks. -/
def Silent (log : OpsLog) : Prop :=
  runsOf log = [] ∧ previewsOf log = [] ∧ cancelsOf log = []

theorem Silent.append {before : OpsLog} (h : Silent before) (log : OpsLog) : runsOf (before ++ log) = runsOf log ∧
    previewsOf (before ++ log) = previewsOf log ∧ cancelsOf (before ++ log) = cancelsOf log := by
  obtain ⟨hruns, hpreviews, hcancels⟩ := h
  unfold runsOf previewsOf cancelsOf at *
  simp only [List.filterMap_append, hruns, hpreviews, hcancels, List.nil_append, and_self]

/-- Silent calls before a quiet turn. -/
theorem QuietTurn.after {before : OpsLog} (hbefore : Silent before) (h : QuietTurn catalogue key now s log s') :
    QuietTurn catalogue key now s (before ++ log) s' := by
  obtain ⟨hruns, hpreviews, hcancels⟩ := hbefore.append log
  exact ⟨⟨hruns ▸ h.readonly, hruns ▸ h.runs, hpreviews ▸ h.previews, hcancels ▸ h.cancels⟩, hpreviews ▸ h.left⟩

/-- A turn without runs, previews and hooks that leaves no draft which awaits a reply. -/
theorem QuietTurn.silent (hlog : Silent log)
    (hleft : ∀ d, s' key = some d → d.phase = .awaitingConfirm → s key = some d) :
    QuietTurn catalogue key now s log s' := by
  obtain ⟨hruns, hpreviews, hcancels⟩ := hlog
  exact ⟨⟨by simp [hruns], by simp [hruns], by simp [hpreviews], hcancels⟩, fun d hd hphase => .inl (hleft d hd hphase)⟩

/-- A turn with one preview, after which only a draft with the slots of the preview awaits a reply. -/
theorem QuietTurn.previewed {commandId : String} {slots : Slots} {previewed : Except CommandError String}
    (hlog : runsOf log = [] ∧ previewsOf log = [(commandId, slots, previewed)] ∧ cancelsOf log = [])
    (hleft : ∀ d, s' key = some d → d.phase = .awaitingConfirm →
      s key = some d ∨ d = ⟨commandId, slots, .awaitingConfirm, now⟩ ∧ ∃ text, previewed = .ok text) :
    QuietTurn catalogue key now s log s' := by
  obtain ⟨hruns, hpreviews, hcancels⟩ := hlog
  refine ⟨⟨by simp [hruns], by simp [hruns], by simp [hpreviews], hcancels⟩, fun d hd hphase => ?_⟩
  rcases hleft d hd hphase with hsame | ⟨rfl, text, rfl⟩
  · exact .inl hsame
  · exact .inr ⟨rfl, text, by simp [hpreviews]⟩

theorem cleared (h : OpsAnswers (.clear key) s () s') : s' key = none := by
  have heq : s' = Function.update s key none := h
  rw [heq, Function.update_self]

theorem saved {draft : OpsDraft} (h : OpsAnswers (.save key draft) s () s') : s' key = some draft := by
  have heq : s' = Function.update s key (some draft) := h
  rw [heq, Function.update_self]

/-- Asking for a slot, or the preview. -/
theorem advanceOrConfirm_quiet (commandId : String) (slots : Slots) (cost : Option ℚ) :
    (advanceOrConfirm catalogue commandId slots key now cost).Ensures OpsAnswers s fun log _ s' =>
      QuietTurn catalogue key now s log s' := by
  unfold advanceOrConfirm
  split
  · exact .raise (.silent ⟨rfl, rfl, rfl⟩ fun d hd _ => hd)
  · split
    · refine .call fun _ s₁ hs₁ => .ret (.silent ⟨rfl, rfl, rfl⟩ fun d hd hphase => ?_)
      obtain rfl := Option.some.inj ((saved hs₁).symm.trans hd)
      cases hphase
    · refine .call fun r s₁ hs₁ => ?_
      obtain rfl : s₁ = s := hs₁
      obtain ⟨left, previewed⟩ := r
      cases previewed with
      | error exc =>
          cases exc with
          | valueError msg =>
              refine .call fun _ s₂ hs₂ => .ret (.previewed ⟨rfl, rfl, rfl⟩ fun d hd _ => ?_)
              cases (cleared hs₂).symm.trans hd
          | other msg =>
              exact .raise (.previewed ⟨rfl, rfl, rfl⟩ fun d hd _ => .inl hd)
      | ok text =>
          dsimp only [Prog.bind_eq, Prog.ret_bind]
          split
          · refine .call fun _ s₂ hs₂ => .ret (.previewed ⟨rfl, rfl, rfl⟩ fun d hd _ => ?_)
            cases (cleared hs₂).symm.trans hd
          · refine .call fun _ s₂ hs₂ => .ret (.previewed ⟨rfl, rfl, rfl⟩ fun d hd _ => ?_)
            exact .inr ⟨(Option.some.inj ((saved hs₂).symm.trans hd)).symm, text, rfl⟩

/-- Questions to the model and nothing else. -/
def AsksModel (s : DraftStore) (log : OpsLog) (s' : DraftStore) : Prop :=
  s' = s ∧ Silent log

theorem classifyOpsIntent_asks : (classifyOpsIntent lib message).Ensures OpsAnswers s fun log _ s' =>
    AsksModel s log s' := by
  refine .call fun answer s₁ hs₁ => ?_
  have hasks : AsksModel s [⟨.classify message, answer⟩] s₁ := ⟨hs₁, rfl, rfl, rfl⟩
  dsimp only [Prog.ret_bind]
  split
  · split
    · exact .ret hasks
    · exact .ret hasks
  · split
    · exact .raise hasks
    · exact .ret hasks

theorem extractSlotValue_asks (field prompt answer hint : String) :
    (extractSlotValue lib field prompt answer hint).Ensures OpsAnswers s fun log _ s' => AsksModel s log s' := by
  refine .call fun answered s₁ hs₁ => ?_
  have hasks : AsksModel s [⟨.extract field prompt answer hint, answered⟩] s₁ := ⟨hs₁, rfl, rfl, rfl⟩
  dsimp only [Prog.ret_bind]
  split
  · split
    · exact .ret hasks
    · exact .ret hasks
  · split
    · exact .raise hasks
    · exact .ret hasks

/-- A turn that begins with a question to the model. -/
theorem QuietTurn.after_asking {α : Type} {p : OpsProg α} {f : α → OpsProg OpsReply}
    (h : p.Ensures OpsAnswers s fun log _ s' => AsksModel s log s')
    (hf : ∀ a, (f a).Ensures OpsAnswers s fun log _ s' => QuietTurn catalogue key now s log s') :
    (p.bind f).Ensures OpsAnswers s fun log _ s' => QuietTurn catalogue key now s log s' := by
  refine h.bind ?_ ?_
  · rintro before a s₁ ⟨rfl, hsilent⟩
    exact (hf a).mono fun log _ s' hquiet => hquiet.after hsilent
  · rintro before msg s₁ ⟨rfl, hsilent⟩
    exact .silent hsilent fun d hd _ => hd

theorem startNew_quiet : (startNew lib catalogue message key now).Ensures OpsAnswers s fun log _ s' =>
    QuietTurn catalogue key now s log s' := by
  refine QuietTurn.after_asking classifyOpsIntent_asks fun classified => ?_
  have hnothing : QuietTurn catalogue key now s [] s := .silent ⟨rfl, rfl, rfl⟩ fun d hd _ => hd
  obtain ⟨intent, cost⟩ := classified
  dsimp only
  split
  · exact .ret hnothing
  · split
    · exact .ret hnothing
    · split
      · rename_i commandId hcommand
        cases hspec : catalogue.lookup commandId with
        | none =>
            exact .ret hnothing
        | some spec =>
            cases intentSlots intent with
            | error msg =>
                exact .raise hnothing
            | ok entries =>
                by_cases hreadonly : spec.readonly = true
                · simp only [hreadonly]
                  refine .call fun r s₁ hs₁ => ?_
                  obtain rfl : s₁ = s := hs₁
                  have hrun : QuietTurn catalogue key now s₁ [⟨.run commandId (seedSlots lib spec [] entries), r⟩] s₁ :=
                    ⟨⟨by simp [runsOf, hspec, hreadonly], by simp [runsOf], by simp [previewsOf], rfl⟩, fun d hd _ => .inl hd⟩
                  cases r with
                  | ok text =>
                      exact .ret hrun
                  | error exc =>
                      exact .ret hrun
                · simp only [hreadonly]
                  exact advanceOrConfirm_quiet _ _ _
      · exact .raise hnothing
      · exact .raise hnothing
      · exact .ret hnothing

theorem collectSlot_quiet (draft : OpsDraft) : (collectSlot lib catalogue draft message key now).Ensures OpsAnswers s
    fun log _ s' => QuietTurn catalogue key now s log s' := by
  have hnothing : QuietTurn catalogue key now s [] s := .silent ⟨rfl, rfl, rfl⟩ fun d hd _ => hd
  have hclear : ∀ s₁ : DraftStore, OpsAnswers (.clear key) s () s₁ →
      QuietTurn catalogue key now s [⟨.clear key, ()⟩] s₁ := fun s₁ hs₁ => .silent ⟨rfl, rfl, rfl⟩ fun d hd _ => by
    cases (cleared hs₁).symm.trans hd
  unfold collectSlot
  split
  · exact .call fun _ s₁ hs₁ => .ret (hclear s₁ hs₁)
  · split
    · exact .call fun _ s₁ hs₁ => .ret (hclear s₁ hs₁)
    · split
      · exact advanceOrConfirm_quiet _ _ _
      · refine QuietTurn.after_asking (extractSlotValue_asks _ _ _ _) fun extracted => ?_
        obtain ⟨value, cost⟩ := extracted
        dsimp only
        split
        · exact advanceOrConfirm_quiet _ _ _
        · split
          · exact .ret hnothing
          · exact advanceOrConfirm_quiet _ _ _

/-- The hook of a draft that is abandoned, if its command has one. -/
def abandons (catalogue : OpsCatalogue) (draft : OpsDraft) : List (String × Slots) :=
  if (catalogue.lookup draft.commandId).any fun c => c.onCancel then [(draft.commandId, draft.slots)] else []

/-- A turn that replies to a preview: the draft is gone, and its command runs when the reply confirms it, or else
its hook. -/
structure ConfirmTurn (lib : OpsLibrary) (catalogue : OpsCatalogue) (message key : String) (draft : OpsDraft) (log : OpsLog)
    (s' : DraftStore) : Prop where
  left : s' key = none
  previews : previewsOf log = []
  runs : runsOf log = [] ∨ (confirmDecision lib.py message = .confirm ∧ catalogue.lookup draft.commandId ≠ none) ∧
    runsOf log = [(draft.commandId, draft.slots)]
  cancels : (confirmDecision lib.py message = .confirm → catalogue.lookup draft.commandId = none) →
    cancelsOf log = abandons catalogue draft

theorem handleConfirm_ensures (draft : OpsDraft) : (handleConfirm lib catalogue draft message key).Ensures OpsAnswers s
    fun log _ s' => ConfirmTurn lib catalogue message key draft log s' := by
  unfold handleConfirm
  dsimp only
  split
  case isTrue hconfirm =>
    refine .call fun _ s₁ hs₁ => .call fun r s₂ hs₂ => ?_
    obtain rfl : s₂ = s₁ := hs₂
    have hcommand := Option.isSome_iff_ne_none.1 hconfirm.2
    have hrun : ConfirmTurn lib catalogue message key draft
        [⟨.clear key, ()⟩, ⟨.run draft.commandId draft.slots, r⟩] s₂ :=
      ⟨cleared hs₁, rfl, .inr ⟨⟨hconfirm.1, hcommand⟩, rfl⟩, fun hnot => absurd (hnot hconfirm.1) hcommand⟩
    cases r with
    | ok text =>
        exact .ret hrun
    | error exc =>
        cases exc with
        | valueError msg =>
            exact .ret hrun
        | other msg =>
            exact .ret hrun
  case isFalse hnot =>
    refine .call fun _ s₁ hs₁ => ?_
    dsimp only [Prog.ret_bind]
    split
    case isTrue hhook =>
      refine .call fun r s₂ hs₂ => .ret ?_
      obtain rfl : s₂ = s₁ := hs₂
      exact ⟨cleared hs₁, rfl, .inl rfl, fun _ => by simp [abandons, hhook, cancelsOf]⟩
    case isFalse hhook =>
      exact .ret ⟨cleared hs₁, rfl, .inl rfl, fun _ => by simp [abandons, hhook, cancelsOf]⟩

/-- What loading has come to: the row is alive, or there is none any more. -/
def Loaded (key : String) (now : ℚ) (s : DraftStore) : Option OpsDraft → DraftStore → Prop
  | some draft, s' => s key = some draft ∧ ¬ draftTtl < now - draft.updatedAt ∧ s' = s
  | none, s' => s' key = none ∧ ∀ draft, s key = some draft → draftTtl < now - draft.updatedAt

theorem loadDraft_ensures : (loadDraft key now).Ensures OpsAnswers s fun log out s' =>
    Silent log ∧ ∃ found, out = .ok found ∧ Loaded key now s found s' := by
  refine .call fun r s₁ hs₁ => ?_
  obtain ⟨hr, rfl⟩ : r = s key ∧ s₁ = s := hs₁
  cases r with
  | none =>
      exact .ret ⟨⟨rfl, rfl, rfl⟩, none, rfl, hr.symm, fun draft hdraft => by cases hr.trans hdraft⟩
  | some draft =>
      dsimp only [Prog.ret_bind]
      split
      case isTrue hold =>
        refine .call fun _ s₂ hs₂ => .ret ⟨⟨rfl, rfl, rfl⟩, none, rfl, cleared hs₂, fun draft' hdraft' => ?_⟩
        obtain rfl := Option.some.inj (hr.trans hdraft')
        exact hold
      case isFalse hlive =>
        exact .ret ⟨⟨rfl, rfl, rfl⟩, some draft, rfl, hr.symm, hlive, rfl⟩

/-- A message is handled as its draft is found. -/
theorem handle_loaded {Q : OpsLog → DraftStore → Prop}
    (h : ∀ before found s₁, Silent before → Loaded key now s found s₁ →
      Prog.Ensures OpsAnswers (match found with
        | none => startNew lib catalogue message key now
        | some draft =>
          match draft.phase with
          | .awaitingConfirm => handleConfirm lib catalogue draft message key
          | .collecting => collectSlot lib catalogue draft message key now) s₁ fun log _ s' => Q (before ++ log) s') :
    (handleOpsMessage lib catalogue message key now).Ensures OpsAnswers s fun log _ s' => Q log s' := by
  refine loadDraft_ensures.bind ?_ ?_
  · rintro before _ s₁ ⟨hsilent, found, hout, hloaded⟩
    obtain rfl := Except.ok.inj hout
    exact h before _ s₁ hsilent hloaded
  · rintro before msg s₁ ⟨-, found, hout, -⟩
    cases hout

/-- A reply to a draft that is alive and awaits one. -/
theorem handle_confirm {draft : OpsDraft} (hdraft : s key = some draft) (hphase : draft.phase = .awaitingConfirm)
    (hlive : ¬ draftTtl < now - draft.updatedAt) : (handleOpsMessage lib catalogue message key now).Ensures OpsAnswers s
      fun log _ s' => ConfirmTurn lib catalogue message key draft log s' := by
  refine handle_loaded fun before found s₁ hsilent hloaded => ?_
  cases found with
  | none =>
      exact absurd (hloaded.2 draft hdraft) hlive
  | some found =>
      obtain ⟨hfound, -, rfl⟩ := hloaded
      obtain rfl := Option.some.inj (hfound.symm.trans hdraft)
      simp only [hphase]
      refine (handleConfirm_ensures found).mono fun log _ s' h => ?_
      obtain ⟨hruns, hpreviews, hcancels⟩ := hsilent.append log
      exact ⟨h.left, hpreviews ▸ h.previews, hruns ▸ h.runs, hcancels ▸ h.cancels⟩

/-- A draft that awaits a reply after this turn has had its preview in it. -/
def Previewed (key : String) (now : ℚ) (log : OpsLog) (s' : DraftStore) : Prop :=
  ∀ draft, s' key = some draft → draft.phase = .awaitingConfirm →
    draft.updatedAt = now ∧ ∃ text, (draft.commandId, draft.slots, .ok text) ∈ previewsOf log

theorem QuietTurn.previews_left (h : QuietTurn catalogue key now s log s')
    (hs : ∀ draft, s key = some draft → draft.phase ≠ .awaitingConfirm) : Previewed key now log s' :=
  fun draft hdraft hphase => (h.left draft hdraft hphase).resolve_left fun hsame => hs draft hsame hphase

/-- Any other message. -/
theorem handle_quiet (hquiet : ∀ draft, s key = some draft → draft.phase = .awaitingConfirm →
    draftTtl < now - draft.updatedAt) : (handleOpsMessage lib catalogue message key now).Ensures OpsAnswers s
      fun log _ s' => QuietCalls catalogue log ∧ Previewed key now log s' := by
  refine handle_loaded fun before found s₁ hsilent hloaded => ?_
  have hafter : ∀ log s', (∀ draft, s₁ key = some draft → draft.phase ≠ .awaitingConfirm) →
      QuietTurn catalogue key now s₁ log s' →
      QuietCalls catalogue (before ++ log) ∧ Previewed key now (before ++ log) s' :=
    fun log s' hs h => ⟨(h.after hsilent).toQuietCalls, (h.after hsilent).previews_left hs⟩
  cases found with
  | none =>
      refine startNew_quiet.mono fun log _ s' => hafter log s' fun draft hdraft => ?_
      cases hloaded.1.symm.trans hdraft
  | some draft =>
      obtain ⟨hfound, hlive, rfl⟩ := hloaded
      cases hphase : draft.phase with
      | awaitingConfirm =>
          exact absurd (hquiet draft hfound hphase) hlive
      | collecting =>
          simp only [hphase]
          refine (collectSlot_quiet draft).mono fun log _ s' => hafter log s' fun draft' hdraft' => ?_
          obtain rfl := Option.some.inj (hfound.symm.trans hdraft')
          simp [hphase]

end Turns

/-! ### Conversations -/

section Conversations

variable {lib : OpsLibrary} {key : String} {turns before after : List OpsTurn} {turn : OpsTurn} {s : DraftStore}

/-- A draft that awaits a reply has had its preview in the last turn. -/
def AwaitsLast (turns : List OpsTurn) (draft : OpsDraft) : Prop :=
  ∃ earlier last text, turns = earlier ++ [last] ∧ draft.updatedAt = last.now ∧
    (draft.commandId, draft.slots, .ok text) ∈ previewsOf last.log

theorem Dialogue.awaits (h : Dialogue lib key turns s) :
    ∀ draft, s key = some draft → draft.phase = .awaitingConfirm → AwaitsLast turns draft := by
  induction h with
  | start hnone =>
      intro draft hdraft
      cases hnone.symm.trans hdraft
  | elsewhere _ hsame ih =>
      intro draft hdraft
      exact ih draft (hsame ▸ hdraft)
  | @turn turns s s' _ catalogue message now log out hexec ih =>
      intro draft hdraft hphase
      by_cases hlive : ∃ found, s key = some found ∧ found.phase = .awaitingConfirm ∧ ¬ draftTtl < now - found.updatedAt
      · obtain ⟨found, hfound, hawaits, hlive⟩ := hlive
        cases (handle_confirm hfound hawaits hlive _ _ _ hexec).left.symm.trans hdraft
      · have hquiet : ∀ found, s key = some found → found.phase = .awaitingConfirm → draftTtl < now - found.updatedAt :=
          fun found hfound hawaits => not_not.1 fun hnot => hlive ⟨found, hfound, hawaits, hnot⟩
        obtain ⟨hnow, text, hpreview⟩ := (handle_quiet hquiet _ _ _ hexec).2 draft hdraft hphase
        exact ⟨turns, _, text, rfl, hnow, hpreview⟩

/-- A turn of a conversation is the handling of its message. -/
theorem Dialogue.at (h : Dialogue lib key turns s) (hsplit : turns = before ++ turn :: after) :
    ∃ s₀ s₁ out, Dialogue lib key before s₀ ∧ turn.found = s₀ key ∧ turn.left = s₁ key ∧
      (handleOpsMessage lib turn.catalogue turn.message key turn.now).Execs OpsAnswers s₀ turn.log out s₁ := by
  induction h generalizing after with
  | start _ =>
      simp at hsplit
  | elsewhere _ _ ih =>
      exact ih hsplit
  | @turn turns s s' h catalogue message now log out hexec ih =>
      rcases List.eq_nil_or_concat after with rfl | ⟨after, last, rfl⟩
      · obtain ⟨rfl, hlast⟩ := List.append_inj' hsplit rfl
        obtain rfl := List.head_eq_of_cons_eq hlast
        exact ⟨s, s', out, h, rfl, rfl, hexec⟩
      · rw [List.concat_eq_append, ← List.cons_append, ← List.append_assoc] at hsplit
        exact ih (List.append_inj' hsplit rfl).1

/-- A command that writes runs only as the reply to its preview in the turn before, with the slots of the preview,
when the reply confirms it and comes in time. -/
def RunsConfirmed (lib : OpsLibrary) (before : List OpsTurn) (turn : OpsTurn) : Prop :=
  ∀ r ∈ runsOf turn.log, (∃ spec, turn.catalogue.lookup r.1 = some spec ∧ spec.readonly = true) ∨
    confirmDecision lib.py turn.message = .confirm ∧ ∃ earlier last text, before = earlier ++ [last] ∧
      (r.1, r.2, .ok text) ∈ previewsOf last.log ∧ turn.now - last.now ≤ draftTtl

/-- Any other reply to a preview, or one whose command has left the catalogue, runs nothing, takes the draft away and
calls the hook of its command once. -/
def OtherwiseAbandoned (lib : OpsLibrary) (turn : OpsTurn) : Prop :=
  ∀ draft, turn.found = some draft → draft.phase = .awaitingConfirm → turn.now - draft.updatedAt ≤ draftTtl →
    (confirmDecision lib.py turn.message = .confirm → turn.catalogue.lookup draft.commandId = none) →
      runsOf turn.log = [] ∧ turn.left = none ∧ cancelsOf turn.log = abandons turn.catalogue draft

end Conversations

/-- In every conversation, whatever the model answers and the hooks come to: a command that writes runs only as the
confirmed reply to the preview of the turn before, in time and with the slots that the preview left; a turn has at
most one run and at most one preview; and any other reply to a draft that awaits one abandons it. -/
theorem ops_runs_confirmed {lib : OpsLibrary} {key : String} {turns : List OpsTurn} {s : DraftStore}
    (h : Dialogue lib key turns s) (before : List OpsTurn) (turn : OpsTurn) (after : List OpsTurn)
    (hsplit : turns = before ++ turn :: after) :
    RunsConfirmed lib before turn ∧ (runsOf turn.log).length ≤ 1 ∧ (previewsOf turn.log).length ≤ 1 ∧
      OtherwiseAbandoned lib turn := by
  obtain ⟨s₀, s₁, out, hbefore, hfound, hleft, hexec⟩ := h.at hsplit
  by_cases hlive : ∃ draft, s₀ key = some draft ∧ draft.phase = .awaitingConfirm ∧ ¬ draftTtl < turn.now - draft.updatedAt
  · obtain ⟨draft, hdraft, hphase, hlive⟩ := hlive
    have hturn := handle_confirm hdraft hphase hlive _ _ _ hexec
    obtain ⟨earlier, last, text, hlast, hnow, hpreview⟩ := hbefore.awaits draft hdraft hphase
    refine ⟨fun r hr => ?_, ?_, by simp [hturn.previews], fun found hfound' _ _ hnot => ?_⟩
    · rcases hturn.runs with hnone | ⟨hconfirm, hone⟩
      · simp [hnone] at hr
      · obtain rfl := List.mem_singleton.1 (hone ▸ hr)
        exact .inr ⟨hconfirm.1, earlier, last, text, hlast, hpreview, hnow ▸ not_lt.1 hlive⟩
    · rcases hturn.runs with hnone | ⟨-, hone⟩
      · simp [hnone]
      · simp [hone]
    · obtain rfl := Option.some.inj (hdraft.symm.trans (hfound.symm.trans hfound'))
      exact ⟨hturn.runs.resolve_right fun hrun => hrun.1.2 (hnot hrun.1.1), hleft.trans hturn.left, hturn.cancels hnot⟩
  · have hquiet : ∀ draft, s₀ key = some draft → draft.phase = .awaitingConfirm → draftTtl < turn.now - draft.updatedAt :=
      fun draft hdraft hphase => not_not.1 fun hnot => hlive ⟨draft, hdraft, hphase, hnot⟩
    obtain ⟨hcalls, -⟩ := handle_quiet hquiet _ _ _ hexec
    refine ⟨fun r hr => .inl (hcalls.readonly r hr), hcalls.runs, hcalls.previews, fun draft hdraft hphase hle => ?_⟩
    exact absurd (hquiet draft (hfound.symm.trans hdraft) hphase) (not_lt.2 hle)

/-- A library whose parser knows one answer. -/
def sampleLibrary : OpsLibrary where
  py := samplePython
  parseJsonObject := fun content =>
    if content = "pause" then some [("intent", .str "command"), ("command_id", .str "pause")] else none
  fullmatch := fun _ _ => true

/-- A catalogue with one command that writes. -/
def sampleCatalogue : OpsCatalogue :=
  [("pause", ⟨"pause an agent", [], false, true⟩)]

/-- Every message means the command, and all its hooks succeed. -/
def sampleHandle : (c : OpsCall) → DraftStore → c.Resp × DraftStore
  | .select key, s => (s key, s)
  | .save key draft, s => ((), Function.update s key (some draft))
  | .clear key, s => ((), Function.update s key none)
  | .classify _, s => (.ok ("pause", none), s)
  | .extract _ _ _ _, s => (.ok ("", none), s)
  | .preview _ slots, s => ((slots, .ok "Pause?"), s)
  | .run _ _, s => (.ok "Paused.", s)
  | .onCancel _ _, s => (.ok (), s)

theorem sampleHandle_answers (c : OpsCall) (s : DraftStore) : OpsAnswers c s (sampleHandle c s).1 (sampleHandle c s).2 := by
  cases c with
  | select key =>
      exact ⟨rfl, rfl⟩
  | _ =>
      rfl

/-- The message asks for the command. -/
def sampleAsk : OpsProg OpsReply :=
  handleOpsMessage sampleLibrary sampleCatalogue "pause it" "ceo" 1000

/-- The reply confirms it. -/
def sampleConfirm : OpsProg OpsReply :=
  handleOpsMessage sampleLibrary sampleCatalogue "ok" "ceo" 1060

/-- The store after the preview. -/
def samplePreviewed : DraftStore :=
  (sampleAsk.run sampleHandle fun _ => none).2

/-- The command runs, and only as the reply to its preview. -/
theorem ops_runs_confirmed_sample : ∃ before turn s, Dialogue sampleLibrary "ceo" (before ++ [turn]) s ∧
    runsOf turn.log = [("pause", [])] ∧ RunsConfirmed sampleLibrary before turn := by
  have hask : Dialogue sampleLibrary "ceo" _ samplePreviewed :=
    .turn (.start (s := fun _ => none) rfl) sampleCatalogue "pause it" 1000 (Prog.execs_run sampleHandle_answers sampleAsk _)
  have hconfirm := hask.turn sampleCatalogue "ok" 1060 (Prog.execs_run sampleHandle_answers sampleConfirm _)
  have hruns : runsOf (sampleConfirm.trace sampleHandle samplePreviewed) = [("pause", [])] := by
    decide +kernel
  exact ⟨_, _, _, hconfirm, hruns, (ops_runs_confirmed hconfirm _ _ [] rfl).1⟩

end ProjectManager
