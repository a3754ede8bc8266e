import ProjectManager.Web.AgentOfficeState

/-!
# Attempts at a desk

A desk drops the step events of another attempt than its own, and a dispatch makes it forget its attempt, so that the next
event with an attempt is taken, whatever the attempt.  `attempts_guarded_iff`: late events of earlier attempts are dropped
all along a run, just when each of them finds the desk with an attempt that has reported since the dispatch.
-/

namespace ProjectManager.Web

/-! ### Statuses -/

/-- A step event for the desk. -/
def OfficeMessage.IsStatusOf (m : OfficeMessage) (id : String) : Prop :=
  m.kind = .stepStatus ∧ truthy m.body.assignedTo = some id

/-- A step event of an attempt. -/
def OfficeMessage.Carries (m : OfficeMessage) (id attempt : String) : Prop :=
  m.IsStatusOf id ∧ truthy m.body.attemptId = some attempt

/-- The ticker starts a new attempt. -/
def OfficeMessage.Dispatches (m : OfficeMessage) (id : String) : Prop :=
  m.IsStatusOf id ∧ truthy m.body.attemptId = none ∧ m.body.status = some "started"

instance (m : OfficeMessage) (id : String) : Decidable (m.Dispatches id) :=
  inferInstanceAs (Decidable ((_ ∧ _) ∧ _))

/-- The desk has seen the attempt. -/
def Seen (past : List OfficeMessage) (id attempt : String) : Prop :=
  ∃ m ∈ past, m.Carries id attempt

/-- The desk had seen the attempt before it was dispatched anew. -/
def Stale (past : List OfficeMessage) (id attempt : String) : Prop :=
  ∃ before m later, past = before ++ m :: later ∧ m.Dispatches id ∧ Seen before id attempt

/-- What came since the last dispatch, newest first. -/
def sinceDispatch (past : List OfficeMessage) (id : String) : List OfficeMessage :=
  past.reverse.takeWhile fun m => decide (¬ m.Dispatches id)

/-- The desk, a new one if there is none. -/
def deskOf (desks : Desks) (id : String) : AgentDeskState :=
  (desks.get? id).getD {}

/-- The guard at one message: a late event of an earlier attempt changes nothing that the desk shows, and an event of a new
attempt is not dropped for the sake of an earlier one. -/
structure Guarded (past : List OfficeMessage) (m : OfficeMessage) : Prop where
  stale : ∀ id attempt, m.Carries id attempt → Stale past id attempt →
    (deskOf (deriveAgentDesks (past ++ [m])) id).toDeskView = (deskOf (deriveAgentDesks past) id).toDeskView
  fresh : ∀ id attempt, m.Carries id attempt → ¬ Seen past id attempt →
    ∀ current, (deskOf (deriveAgentDesks past) id).attemptId = some current → ¬ Stale past id current

/-- A late event comes only after the new attempt has reported. -/
def Awaited (past : List OfficeMessage) (m : OfficeMessage) : Prop :=
  ∀ id attempt, m.Carries id attempt → Stale past id attempt → ∃ m' ∈ sinceDispatch past id, ∃ attempt', m'.Carries id attempt'

section Attempts

variable {desks : Desks} {m : OfficeMessage} {past : List OfficeMessage} {id attempt : String}

/-! ### What the messages do to a desk -/

@[simp] theorem deskOf_ensure (desks : Desks) (id x : String) : deskOf (ensure desks id) x = deskOf desks x := by
  simp only [deskOf, ensure, OrderedMap.get?_ensure]
  split <;> simp

theorem deskOf_modify (desks : Desks) (id x : String) (f : AgentDeskState → AgentDeskState) :
    deskOf (desks.modify id f) x = if x = id ∧ id ∈ desks.keys then f (deskOf desks x) else deskOf desks x := by
  simp only [deskOf, OrderedMap.get?_modify]
  by_cases hx : x = id
  · subst hx
    cases hget : desks.get? x with
    | none =>
        simp [OrderedMap.get?_eq_none.1 hget]
    | some d =>
        have hmem : x ∈ desks.keys := OrderedMap.get?_isSome.1 (by simp [hget])
        simp [hmem]
  · simp [hx]

/-- A change that leaves what the desks show. -/
theorem view_modify {f : AgentDeskState → AgentDeskState} (hf : ∀ d, (f d).toDeskView = d.toDeskView) (desks : Desks)
    (id x : String) : (deskOf (desks.modify id f) x).toDeskView = (deskOf desks x).toDeskView := by
  rw [deskOf_modify]
  split
  · exact hf _
  · rfl

@[simp] theorem view_endConsult (desks : Desks) (id x : String) :
    (deskOf (endConsult desks id) x).toDeskView = (deskOf desks x).toDeskView := by
  refine (view_modify (fun d => ?_) _ id x).trans ?_
  · rfl
  · split
    · rfl
    · refine view_modify (fun d => ?_) _ _ x
      split <;> rfl

/-- A step event for the desk. -/
theorem view_status (h : m.IsStatusOf id) (desks : Desks) (x : String) : (deskOf (reduce desks m) x).toDeskView =
    if x = id then (deskOf desks x).toDeskView.stepStatus m.body else (deskOf desks x).toDeskView := by
  have hmem : id ∈ (endConsult (ensure desks id) id).keys := by
    rw [keys_endConsult, keys_ensure]
    exact mem_withId.2 (.inr rfl)
  have hview := view_endConsult (ensure desks id) id x
  rw [deskOf_ensure] at hview
  simp only [reduce, h.1, h.2]
  rw [deskOf_modify]
  by_cases hx : x = id
  · rw [if_pos ⟨hx, hmem⟩, if_pos hx, ← hview]
  · rw [if_neg fun h => hx h.1, if_neg hx]
    exact hview

theorem attempt_deliver (desks : Desks) (m : OfficeMessage) (x : String) :
    (deskOf (deliver desks m) x).attemptId = (deskOf desks x).attemptId := by
  have hview := congrArg DeskView.attemptId
    (view_endConsult (ensure desks (m.body.assignedTo.getD m.author)) (m.body.assignedTo.getD m.author) x)
  rw [deskOf_ensure] at hview
  simp only [deliver]
  rw [deskOf_modify]
  split
  · exact hview
  · exact hview

theorem view_consultEnd (desks : Desks) (end_ other : Option String) (x : String) :
    (deskOf (consultEnd desks end_ other) x).toDeskView = (deskOf desks x).toDeskView := by
  unfold consultEnd
  split
  · rfl
  · refine (view_modify (fun d => ?_) _ _ x).trans ?_
    · rfl
    · rw [deskOf_ensure]

theorem view_map {f : AgentDeskState → AgentDeskState} (hf : ∀ d, (f d).toDeskView = d.toDeskView) (desks : Desks) (x : String) :
    (deskOf (desks.map f) x).toDeskView = (deskOf desks x).toDeskView := by
  simp only [deskOf, OrderedMap.get?_map]
  cases desks.get? x with
  | none =>
      rfl
  | some d =>
      exact hf d

/-- Only its step events change the attempt of a desk. -/
theorem attempt_other (h : ¬ m.IsStatusOf id) (desks : Desks) :
    (deskOf (reduce desks m) id).attemptId = (deskOf desks id).attemptId := by
  by_cases hstatus : ∃ x, m.IsStatusOf x
  · obtain ⟨x, hx⟩ := hstatus
    have hne : id ≠ x := by
      rintro rfl
      exact h hx
    have hview := view_status hx desks id
    rw [if_neg hne] at hview
    exact congrArg DeskView.attemptId hview
  · have hnone : m.kind = .stepStatus → truthy m.body.assignedTo = none := by
      intro hkind
      by_contra hsome
      obtain ⟨x, hx⟩ := Option.ne_none_iff_exists'.1 hsome
      exact hstatus ⟨x, hkind, hx⟩
    unfold reduce
    split
    · split
      · refine (congrArg DeskView.attemptId (view_modify (fun d => ?_) _ _ id)).trans ?_
        · rfl
        · rw [deskOf_ensure]
      · rfl
    · rename_i hkind
      rw [hnone hkind]
    · exact attempt_deliver desks m id
    · exact attempt_deliver desks m id
    · split
      · split
        · refine congrArg DeskView.attemptId (view_map (fun d => ?_) desks id)
          rfl
        · rfl
      · rfl
    · refine congrArg DeskView.attemptId ?_
      exact (view_consultEnd _ _ _ id).trans (view_consultEnd _ _ _ id)
    · rfl
    · rfl

theorem attempt_stepStatus (d : DeskView) (body : OfficeEventBody) : (d.stepStatus body).attemptId =
    match truthy body.attemptId with
    | none => if body.status = some "started" then none else d.attemptId
    | some incoming => if truthy d.attemptId = none then some incoming else d.attemptId := by
  unfold DeskView.stepStatus
  cases truthy body.attemptId with
  | none =>
      simp only
      split <;> rfl
  | some incoming =>
      cases hcurrent : truthy d.attemptId with
      | none =>
          rfl
      | some current =>
          simp only [reduceCtorEq, if_false]
          split
          · rfl
          · rename_i hsame
            obtain rfl := not_not.1 hsame
            exact (truthy_eq_some.1 hcurrent).1.symm

/-! ### The attempt of a desk -/

/-- A desk has no attempt, or one with an id. -/
theorem attempt_ne_empty (past : List OfficeMessage) (id : String) : (deskOf (deriveAgentDesks past) id).attemptId ≠ some "" := by
  induction past using List.reverseRecOn with
  | nil =>
      nofun
  | append_singleton past m ih =>
      rw [deriveAgentDesks_append]
      by_cases hstatus : m.IsStatusOf id
      · have hview := congrArg DeskView.attemptId (view_status hstatus (deriveAgentDesks past) id)
        rw [if_pos rfl, attempt_stepStatus] at hview
        rw [hview]
        split
        · split
          · nofun
          · exact ih
        · rename_i incoming hincoming
          split
          · simpa using (truthy_eq_some.1 hincoming).2
          · exact ih
      · rw [attempt_other hstatus]
        exact ih

theorem truthy_attempt (past : List OfficeMessage) (id : String) :
    truthy (deskOf (deriveAgentDesks past) id).attemptId = (deskOf (deriveAgentDesks past) id).attemptId := by
  cases hattempt : (deskOf (deriveAgentDesks past) id).attemptId with
  | none =>
      rfl
  | some current =>
      refine truthy_eq_some.2 ⟨rfl, ?_⟩
      rintro rfl
      exact attempt_ne_empty past id hattempt

theorem attempt_dispatched (h : m.Dispatches id) :
    (deskOf (deriveAgentDesks (past ++ [m])) id).attemptId = none := by
  rw [deriveAgentDesks_append]
  refine (congrArg DeskView.attemptId (view_status h.1 _ id)).trans ?_
  rw [if_pos rfl, attempt_stepStatus, h.2.1]
  exact if_pos h.2.2

theorem attempt_carried (h : m.Carries id attempt) : (deskOf (deriveAgentDesks (past ++ [m])) id).attemptId =
    if (deskOf (deriveAgentDesks past) id).attemptId = none then some attempt
      else (deskOf (deriveAgentDesks past) id).attemptId := by
  rw [deriveAgentDesks_append]
  refine (congrArg DeskView.attemptId (view_status h.1 _ id)).trans ?_
  rw [if_pos rfl, attempt_stepStatus, h.2]
  change (if truthy (deskOf (deriveAgentDesks past) id).attemptId = none then _ else _) = _
  rw [truthy_attempt]

/-- A message that neither dispatches the desk nor carries an attempt leaves its attempt. -/
theorem attempt_kept (hdispatch : ¬ m.Dispatches id) (hcarry : ∀ attempt, ¬ m.Carries id attempt) :
    (deskOf (deriveAgentDesks (past ++ [m])) id).attemptId = (deskOf (deriveAgentDesks past) id).attemptId := by
  rw [deriveAgentDesks_append]
  by_cases hstatus : m.IsStatusOf id
  · refine (congrArg DeskView.attemptId (view_status hstatus _ id)).trans ?_
    rw [if_pos rfl, attempt_stepStatus]
    cases hincoming : truthy m.body.attemptId with
    | none =>
        exact if_neg fun hstarted => hdispatch ⟨hstatus, hincoming, hstarted⟩
    | some incoming =>
        exact absurd ⟨hstatus, hincoming⟩ (hcarry incoming)
  · exact attempt_other hstatus _

/-- The desk has an attempt just when one has reported since the last dispatch. -/
theorem attempt_iff (past : List OfficeMessage) (id : String) : (deskOf (deriveAgentDesks past) id).attemptId ≠ none ↔
    ∃ m ∈ sinceDispatch past id, ∃ attempt, m.Carries id attempt := by
  induction past using List.reverseRecOn with
  | nil =>
      simp [sinceDispatch, deskOf, deriveAgentDesks]
  | append_singleton past m ih =>
      have hsince : sinceDispatch (past ++ [m]) id = if m.Dispatches id then [] else m :: sinceDispatch past id := by
        simp only [sinceDispatch, List.reverse_append, List.reverse_cons, List.reverse_nil, List.nil_append,
          List.singleton_append, List.takeWhile_cons]
        by_cases hdispatch : m.Dispatches id <;> simp [hdispatch]
      rw [hsince]
      by_cases hdispatch : m.Dispatches id
      · rw [attempt_dispatched hdispatch]
        simp [hdispatch]
      · rw [if_neg hdispatch]
        by_cases hcarry : ∃ attempt, m.Carries id attempt
        · obtain ⟨attempt, hattempt⟩ := hcarry
          refine iff_of_true ?_ ⟨m, by simp, attempt, hattempt⟩
          rw [attempt_carried hattempt]
          split
          · exact Option.some_ne_none _
          · assumption
        · rw [not_exists] at hcarry
          rw [attempt_kept hdispatch hcarry, ih]
          simp [hcarry]

/-! ### The guard -/

theorem Stale.append (h : Stale past id attempt) (later : List OfficeMessage) : Stale (past ++ later) id attempt := by
  obtain ⟨before, m, rest, rfl, hdispatch, hseen⟩ := h
  exact ⟨before, m, rest ++ later, by simp, hdispatch, hseen⟩

theorem Stale.of_append (h : Stale (past ++ [m]) id attempt) : Stale past id attempt ∨ m.Dispatches id := by
  obtain ⟨before, m', later, hsplit, hdispatch, hseen⟩ := h
  obtain rfl | ⟨later, last, rfl⟩ := List.eq_nil_or_concat later
  · obtain ⟨-, hlast⟩ := List.append_inj' hsplit rfl
    obtain rfl := (List.cons.inj hlast).1
    exact .inr hdispatch
  · have hsplit : past ++ [m] = (before ++ m' :: later) ++ [last] := by simpa using hsplit
    exact .inl ⟨before, m', later, (List.append_inj' hsplit rfl).1, hdispatch, hseen⟩

/-- An event of another attempt than the one of the desk is dropped. -/
theorem view_dropped (h : m.Carries id attempt) {current : String}
    (hcurrent : (deskOf (deriveAgentDesks past) id).attemptId = some current) (hne : attempt ≠ current) :
    (deskOf (deriveAgentDesks (past ++ [m])) id).toDeskView = (deskOf (deriveAgentDesks past) id).toDeskView := by
  have hgiven : truthy (deskOf (deriveAgentDesks past) id).attemptId = some current := by
    rw [truthy_attempt, hcurrent]
  rw [deriveAgentDesks_append, view_status h.1, if_pos rfl]
  simp only [DeskView.stepStatus, h.2, hgiven]
  exact if_pos hne

/-- Where late events come only after the new attempt has reported, no desk has the attempt of an earlier dispatch. -/
theorem attempt_not_stale {messages : List OfficeMessage}
    (hawaited : ∀ past m later, messages = past ++ m :: later → Awaited past m) (hpast : past <+: messages) (id : String) :
    ∀ current, (deskOf (deriveAgentDesks past) id).attemptId = some current → ¬ Stale past id current := by
  induction past using List.reverseRecOn with
  | nil =>
      intro current hcurrent
      cases hcurrent
  | append_singleton past m ih =>
      obtain ⟨later, hlater⟩ := hpast
      have hsplit : messages = past ++ m :: later := by simp [← hlater]
      have hold := ih ⟨m :: later, hsplit.symm⟩
      intro current hcurrent hstale
      by_cases hdispatch : m.Dispatches id
      · rw [attempt_dispatched hdispatch] at hcurrent
        cases hcurrent
      obtain hstale | hdispatch' := hstale.of_append
      · by_cases hcarry : ∃ attempt, m.Carries id attempt
        · obtain ⟨attempt, hattempt⟩ := hcarry
          rw [attempt_carried hattempt] at hcurrent
          split at hcurrent
          · rename_i hnone
            obtain rfl := Option.some.inj hcurrent
            exact (attempt_iff past id).2 (hawaited past m later hsplit id attempt hattempt hstale) hnone
          · exact hold current hcurrent hstale
        · rw [not_exists] at hcarry
          rw [attempt_kept hdispatch hcarry] at hcurrent
          exact hold current hcurrent hstale
      · exact hdispatch hdispatch'

/-- All along a list of messages the guard works, just when late events come only after the new attempt has reported. -/
theorem attempts_guarded_iff (messages : List OfficeMessage) :
    (∀ past m later, messages = past ++ m :: later → Guarded past m) ↔
      ∀ past m later, messages = past ++ m :: later → Awaited past m := by
  constructor
  · intro hguarded past m later hsplit id attempt hcarry hstale
    refine (attempt_iff past id).1 fun hnone => ?_
    -- a desk without an attempt takes the late one
    have hview := congrArg DeskView.attemptId ((hguarded past m later hsplit).stale id attempt hcarry hstale)
    have htaken : (deskOf (deriveAgentDesks (past ++ [m])) id).attemptId = _ := attempt_carried hcarry
    rw [if_pos hnone] at htaken
    rw [htaken, hnone] at hview
    cases hview
  · rintro hawaited past m later rfl
    have hnone := attempt_not_stale hawaited (List.prefix_append past (m :: later))
    constructor
    · intro id attempt hcarry hstale
      obtain ⟨current, hcurrent⟩ := Option.ne_none_iff_exists'.1
        ((attempt_iff past id).2 (hawaited past m later rfl id attempt hcarry hstale))
      refine view_dropped hcarry hcurrent ?_
      rintro rfl
      exact hnone id attempt hcurrent hstale
    · exact fun id attempt _ _ current hcurrent => hnone id current hcurrent

end Attempts

/-! ### A late event -/

/-- A step event of an attempt of `a`. -/
def phaseOf (attempt phase : String) : OfficeMessage :=
  ⟨"a", .stepStatus, { status := some "started", assignedTo := some "a", phase := some phase, attemptId := some attempt }⟩

/-- The ticker starts `a` anew. -/
def dispatchOf : OfficeMessage :=
  ⟨"coordinator", .stepStatus, { status := some "started", assignedTo := some "a" }⟩

/-- Right after the dispatch the desk takes the late event of the first attempt, and then drops those of the second one. -/
theorem attempts_not_guarded : ¬ ∀ messages past m later, messages = past ++ m :: later → Guarded past m := by
  intro hall
  have hguarded := hall _ [phaseOf "1" "dang-lam", dispatchOf] (phaseOf "1" "dang-sua") [phaseOf "2" "dang-lam"] rfl
  have hstale : Stale [phaseOf "1" "dang-lam", dispatchOf] "a" "1" :=
    ⟨[phaseOf "1" "dang-lam"], dispatchOf, [], rfl, by decide, phaseOf "1" "dang-lam", by simp, ⟨rfl, by decide⟩, by decide⟩
  have hview := hguarded.stale "a" "1" ⟨⟨rfl, by decide⟩, by decide⟩ hstale
  exact absurd hview (by decide)

end ProjectManager.Web
