import ProjectManager.Lib.Pairing
import ProjectManager.Web.AgentOfficeState

/-!
# Consults between desks

A `consult` overwrites both of its ends, every other event of a desk ends the consult of the desk and of its partner.
`consults_symmetric_iff`: all along a run the desks point at each other, just when each consult finds its two ends in no
consult with a third desk.
-/

namespace ProjectManager.Web

open Pairing

/-- A desk that is in a consult is in one with a desk that is in a consult with it. -/
def Symmetric (desks : Desks) : Prop :=
  ∀ a d, desks.get? a = some d → ∀ b, d.consultWith = some b →
    ∃ d', desks.get? b = some d' ∧ d'.consultWith = some a

/-- The ends of a consult. -/
def OfficeMessage.ends (m : OfficeMessage) : List String :=
  [m.body.asker, m.body.colleague].filterMap truthy

/-- What a consult must find: no end in a consult with a third desk, and no end named by the empty text. -/
def Joins (desks : Desks) (m : OfficeMessage) : Prop :=
  m.kind = .consult → ∀ id ∈ m.ends, (m.body.asker ≠ some "" ∧ m.body.colleague ≠ some "") ∧
    ∀ d, desks.get? id = some d → ∀ partner, d.consultWith = some partner → partner ∈ m.ends

/-- The colleague that a desk is in a consult with. -/
def partnerOf (desks : Desks) (id : String) : Option String :=
  (desks.get? id).bind fun d => d.consultWith

section Partners

variable {desks : Desks} {m : OfficeMessage} {f : AgentDeskState → AgentDeskState} {id : String}

theorem partnerOf_eq_some {partner : String} :
    partnerOf desks id = some partner ↔ ∃ d, desks.get? id = some d ∧ d.consultWith = some partner :=
  Option.bind_eq_some_iff

theorem symmetric_iff : Symmetric desks ↔ Paired (partnerOf desks) := by
  constructor
  · intro h a b hab
    obtain ⟨d, hd, hb⟩ := partnerOf_eq_some.1 hab
    exact partnerOf_eq_some.2 (h a d hd b hb)
  · intro h a d hd b hb
    exact partnerOf_eq_some.1 (h a b (partnerOf_eq_some.2 ⟨d, hd, hb⟩))

@[simp] theorem partnerOf_ensure (desks : Desks) (id : String) : partnerOf (ensure desks id) = partnerOf desks := by
  funext x
  simp only [partnerOf, ensure, OrderedMap.get?_ensure]
  split
  · cases desks.get? x <;> rfl
  · rfl

/-- A change that leaves the consult alone. -/
theorem partnerOf_modify (hf : ∀ d, (f d).consultWith = d.consultWith) (desks : Desks) (id : String) :
    partnerOf (desks.modify id f) = partnerOf desks := by
  funext x
  simp only [partnerOf, OrderedMap.get?_modify]
  split
  · cases desks.get? x with
    | none =>
        rfl
    | some d =>
        exact hf d
  · rfl

theorem partnerOf_map (hf : ∀ d, (f d).consultWith = d.consultWith) (desks : Desks) :
    partnerOf (desks.map f) = partnerOf desks := by
  funext x
  simp only [partnerOf, OrderedMap.get?_map]
  cases desks.get? x with
  | none =>
      rfl
  | some d =>
      exact hf d

/-- One end of a consult. -/
theorem partnerOf_consultEnd (desks : Desks) (end_ other : Option String) :
    partnerOf (consultEnd desks end_ other) =
      match truthy end_ with
      | none => partnerOf desks
      | some id => Function.update (partnerOf desks) id other := by
  unfold consultEnd
  cases truthy end_ with
  | none =>
      rfl
  | some id =>
      funext x
      simp only [Function.update_apply, partnerOf, ensure, OrderedMap.get?_modify, OrderedMap.get?_ensure]
      by_cases hx : x = id
      · simp [hx]
      · simp [hx]

/-- The end of a consult, where the desk without an id is in none. -/
theorem partnerOf_endConsult (hempty : partnerOf desks "" = none) (id : String) :
    partnerOf (endConsult desks id) = release (partnerOf desks) id := by
  have hclear : ∀ (desks : Desks) x, partnerOf (desks.modify id fun d => { d with consultWith := none }) x =
      if x = id then none else partnerOf desks x := by
    intro desks x
    simp only [partnerOf, OrderedMap.get?_modify]
    split
    · cases desks.get? x <;> rfl
    · rfl
  have htest : ((desks.get? id).bind fun d => truthy d.consultWith) = truthy (partnerOf desks id) := by
    unfold partnerOf
    cases desks.get? id <;> rfl
  funext x
  simp only [endConsult, htest]
  rw [hclear]
  unfold release
  by_cases hx : x = id
  · simp [hx]
  rw [if_neg hx]
  split
  · -- the desk is in no consult, or in one with the desk without an id
    rename_i hnone
    rw [if_neg]
    rintro (hid | ⟨hpartner, hback⟩)
    · exact hx hid
    · obtain hnone | hnone := truthy_eq_none.1 hnone
      · rw [hnone] at hpartner
        cases hpartner
      · rw [hnone] at hpartner
        obtain rfl := Option.some.inj hpartner
        rw [hempty] at hback
        cases hback
  · rename_i partner hpartner
    obtain ⟨hpartner, -⟩ := truthy_eq_some.1 hpartner
    rw [hpartner]
    simp only [partnerOf, OrderedMap.get?_modify]
    by_cases hxp : x = partner
    · subst hxp
      simp only [hx, false_or, true_and, if_true]
      cases desks.get? x with
      | none =>
          simp
      | some d =>
          simp only [Option.map_some, Option.bind_some]
          split <;> simp_all
    · have hne : partner ≠ x := fun h => hxp h.symm
      simp [hx, hxp, hne]

/-! ### One message -/

/-- Every message but a consult ends consults or leaves them alone. -/
theorem partnerOf_reduce (hempty : partnerOf desks "" = none) (hkind : m.kind ≠ .consult) :
    partnerOf (reduce desks m) = partnerOf desks ∨ ∃ id, partnerOf (reduce desks m) = release (partnerOf desks) id := by
  have hdeliver : ∃ id, partnerOf (deliver desks m) = release (partnerOf desks) id := by
    refine ⟨m.body.assignedTo.getD m.author, ?_⟩
    refine (partnerOf_modify (fun d => ?_) _ _).trans ?_
    · rfl
    · rw [partnerOf_endConsult (by simpa using hempty), partnerOf_ensure]
  unfold reduce
  split
  · split
    · refine .inl ((partnerOf_modify (fun d => ?_) _ _).trans (partnerOf_ensure desks _))
      rfl
    · exact .inl rfl
  · split
    · exact .inl rfl
    · rename_i id _
      right
      refine ⟨id, ?_⟩
      refine (partnerOf_modify (fun d => ?_) _ _).trans ?_
      · rfl
      · rw [partnerOf_endConsult (by simpa using hempty), partnerOf_ensure]
  · exact .inr hdeliver
  · exact .inr hdeliver
  · split
    · split
      · refine .inl (partnerOf_map (fun d => ?_) desks)
        rfl
      · exact .inl rfl
    · exact .inl rfl
  · rename_i hconsult
    exact absurd hconsult hkind
  · exact .inl rfl
  · exact .inl rfl

/-- The desk without an id is in no consult. -/
theorem partnerOf_empty (messages : List OfficeMessage) : partnerOf (deriveAgentDesks messages) "" = none := by
  induction messages using List.reverseRecOn with
  | nil =>
      rfl
  | append_singleton messages m ih =>
      rw [deriveAgentDesks_append]
      by_cases hkind : m.kind = .consult
      · have hend : ∀ (desks : Desks) end_ other, partnerOf desks "" = none → partnerOf (consultEnd desks end_ other) "" = none := by
          intro desks end_ other h
          rw [partnerOf_consultEnd]
          split
          · exact h
          · rename_i id hid
            rw [Function.update_of_ne (truthy_eq_some.1 hid).2.symm]
            exact h
        simp only [reduce, hkind]
        exact hend _ _ _ (hend _ _ _ ih)
      · obtain hsame | ⟨id, hreleased⟩ := partnerOf_reduce ih hkind
        · rw [hsame, ih]
        · rw [hreleased]
          unfold release
          split
          · rfl
          · exact ih

theorem joins_iff (hkind : m.kind = .consult) : Joins desks m ↔ ∀ id ∈ m.ends,
    (m.body.asker ≠ some "" ∧ m.body.colleague ≠ some "") ∧ ∀ partner, partnerOf desks id = some partner → partner ∈ m.ends := by
  simp only [Joins, hkind, forall_const, partnerOf_eq_some]
  refine forall₂_congr fun id _ => and_congr_right fun _ => ?_
  constructor
  · rintro h partner ⟨d, hd, hpartner⟩
    exact h d hd partner hpartner
  · intro h d hd partner hpartner
    exact h partner ⟨d, hd, hpartner⟩

/-- One end that is named alone. -/
theorem paired_single (hpaired : Paired (partnerOf desks)) (hempty : partnerOf desks "" = none) {other : Option String}
    (hid : id ≠ "") (hother : truthy other = none) : Paired (Function.update (partnerOf desks) id other) ↔
      other ≠ some "" ∧ ∀ partner, partnerOf desks id = some partner → partner = id := by
  obtain rfl | rfl := truthy_eq_none.1 hother
  · rw [hpaired.clear_iff]
    simp
  · refine iff_of_false (fun hlink => ?_) (by simp)
    have hback := hlink id "" (Function.update_self ..)
    rw [Function.update_of_ne hid.symm, hempty] at hback
    cases hback

/-- A consult keeps the pairs just when it joins desks that are free for it. -/
theorem paired_consult (hpaired : Paired (partnerOf desks)) (hempty : partnerOf desks "" = none) (hkind : m.kind = .consult) :
    Paired (partnerOf (reduce desks m)) ↔ Joins desks m := by
  rw [joins_iff hkind]
  simp only [reduce, hkind, partnerOf_consultEnd]
  cases hasker : truthy m.body.asker with
  | none =>
      cases hcolleague : truthy m.body.colleague with
      | none =>
          have hends : m.ends = [] := by simp [OfficeMessage.ends, hasker, hcolleague]
          simpa [hends] using hpaired
      | some b =>
          obtain ⟨hb, hbne⟩ := truthy_eq_some.1 hcolleague
          have hends : m.ends = [b] := by simp [OfficeMessage.ends, hasker, hcolleague]
          rw [paired_single hpaired hempty hbne hasker]
          simp [hends, hb, hbne]
  | some a =>
      obtain ⟨ha, hane⟩ := truthy_eq_some.1 hasker
      cases hcolleague : truthy m.body.colleague with
      | none =>
          have hends : m.ends = [a] := by simp [OfficeMessage.ends, hasker, hcolleague]
          rw [paired_single hpaired hempty hane hcolleague]
          simp [hends, ha, hane]
      | some b =>
          obtain ⟨hb, hbne⟩ := truthy_eq_some.1 hcolleague
          have hends : m.ends = [a, b] := by simp [OfficeMessage.ends, hasker, hcolleague]
          simp only [ha, hb, hends]
          rw [hpaired.link_iff]
          simp [hane, hbne]

theorem symmetric_reduce (h : Symmetric desks) (hempty : partnerOf desks "" = none) :
    Symmetric (reduce desks m) ↔ Joins desks m := by
  rw [symmetric_iff] at h ⊢
  by_cases hkind : m.kind = .consult
  · exact paired_consult h hempty hkind
  · refine iff_of_true ?_ fun hconsult => absurd hconsult hkind
    obtain hsame | ⟨id, hreleased⟩ := partnerOf_reduce hempty hkind
    · exact hsame ▸ h
    · exact hreleased ▸ h.release id

/-- Where consults are symmetric, the end of one leaves nobody behind. -/
theorem endConsult_both (h : Symmetric desks) (hempty : partnerOf desks "" = none) (id : String) :
    ∀ a d, (endConsult desks id).get? a = some d → d.consultWith ≠ some id := by
  intro a d hd hleft
  have hpaired := (symmetric_iff.1 h).release id
  rw [← partnerOf_endConsult hempty] at hpaired
  have hback := hpaired a id (partnerOf_eq_some.2 ⟨d, hd, hleft⟩)
  rw [partnerOf_endConsult hempty, release, if_pos (.inl rfl)] at hback
  cases hback

end Partners

/-! ### Every run -/

/-- All along a list of messages the consults are symmetric, just when each consult finds its ends free for each other. -/
theorem consults_symmetric_iff (messages : List OfficeMessage) :
    (∀ past, past <+: messages → Symmetric (deriveAgentDesks past)) ↔
      ∀ past m later, messages = past ++ m :: later → Joins (deriveAgentDesks past) m := by
  constructor
  · rintro hsymmetric past m later rfl
    have hnext := hsymmetric (past ++ [m]) ⟨later, by simp⟩
    rw [deriveAgentDesks_append] at hnext
    exact (symmetric_reduce (hsymmetric past (List.prefix_append _ _)) (partnerOf_empty past)).1 hnext
  · intro hjoins past hpast
    induction past using List.reverseRecOn with
    | nil =>
        exact symmetric_iff.2 paired_none
    | append_singleton past m ih =>
        obtain ⟨later, hlater⟩ := hpast
        have hsplit : messages = past ++ m :: later := by simp [← hlater]
        rw [deriveAgentDesks_append]
        exact (symmetric_reduce (ih ⟨m :: later, hsplit.symm⟩) (partnerOf_empty past)).2 (hjoins past m later hsplit)

/-- A consult between two agents. -/
def consult (asker colleague : String) : OfficeMessage :=
  ⟨asker, .consult, { asker := some asker, colleague := some colleague }⟩

/-- The asker turns to another colleague: the first one is left standing. -/
theorem consults_not_symmetric : ¬ ∀ messages, Symmetric (deriveAgentDesks messages) := by
  intro hall
  have hfirst : partnerOf (deriveAgentDesks [consult "a" "b", consult "a" "c"]) "b" = some "a" := by decide
  have hother : partnerOf (deriveAgentDesks [consult "a" "b", consult "a" "c"]) "a" = some "c" := by decide
  have hback := symmetric_iff.1 (hall [consult "a" "b", consult "a" "c"]) "b" "a" hfirst
  rw [hother] at hback
  exact absurd hback (by decide)

end ProjectManager.Web
