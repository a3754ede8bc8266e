import ProjectManager.Office.TickerContract

/-!
# The book of reviews

`Booked` says what the reviews and reworks of a task look like at any time: each belongs to a started
step, their ids follow from round and rank, only the newest review of a step can be pending, and rounds
are closed one after the other by a rework.  `Booked.carry` takes the book along when rows are rewritten
or replanned (`Booked.map`, `Booked.replan`).  The ticker mints by its snapshot: `Minting.fits` says that
what it mints fits the book of the snapshot, `NewRow.carry` that it then fits the store, and
`Booked.append` enters the row.
-/

namespace ProjectManager

open Process

/-! ### The ids of minted rows -/

/-- The id of a review. -/
def reviewId (contentStepId : String) (reviewRound mintCount : ℕ) : String :=
  contentStepId ++ "-review-" ++ reviewRound.repr ++ "-" ++ mintCount.repr

/-- The id of a rework. -/
def reworkId (contentStepId : String) (reviewRound : ℕ) : String :=
  contentStepId ++ "-rework-" ++ reviewRound.repr

theorem reviewId_toList (c : String) (r n : ℕ) :
    (reviewId c r n).toList = ((c ++ "-review").toList ++ '-' :: r.repr.toList) ++ '-' :: n.repr.toList := by
  simp [reviewId, String.toList_append]

theorem reworkId_toList (c : String) (r : ℕ) :
    (reworkId c r).toList = ((c ++ "-rewor").toList ++ ['k']) ++ '-' :: r.repr.toList := by
  simp [reworkId, String.toList_append]

/-- The id of a review says which one it is. -/
theorem reviewId_inj {c c' : String} {r r' n n' : ℕ} (h : reviewId c r n = reviewId c' r' n') :
    c = c' ∧ r = r' ∧ n = n' := by
  have hlist := congrArg String.toList h
  rw [reviewId_toList, reviewId_toList] at hlist
  obtain ⟨hrest, -, hn⟩ := Text.digits_last (Text.repr_digits n) (Text.repr_digits n') (by decide) (by decide) hlist
  obtain ⟨hname, -, hr⟩ := Text.digits_last (Text.repr_digits r) (Text.repr_digits r') (by decide) (by decide) hrest
  rw [String.toList_append, String.toList_append] at hname
  exact ⟨String.toList_injective (List.append_cancel_right hname), Text.repr_inj hr, Text.repr_inj hn⟩

/-- The id of a rework says which one it is. -/
theorem reworkId_inj {c c' : String} {r r' : ℕ} (h : reworkId c r = reworkId c' r') : c = c' ∧ r = r' := by
  have hlist := congrArg String.toList h
  rw [reworkId_toList, reworkId_toList] at hlist
  obtain ⟨hrest, -, hr⟩ := Text.digits_last (Text.repr_digits r) (Text.repr_digits r') (by decide) (by decide) hlist
  have hname := List.append_cancel_right hrest
  rw [String.toList_append, String.toList_append] at hname
  exact ⟨String.toList_injective (List.append_cancel_right hname), Text.repr_inj hr⟩

/-- A review and a rework never have one id. -/
theorem reviewId_ne_reworkId (c c' : String) (r r' n : ℕ) : reviewId c r n ≠ reworkId c' r' := by
  intro h
  have hlist := congrArg String.toList h
  rw [reviewId_toList, reworkId_toList] at hlist
  obtain ⟨hrest, -, -⟩ := Text.digits_last (Text.repr_digits n) (Text.repr_digits r') (by decide) (by decide) hlist
  obtain ⟨-, hchar, -⟩ := Text.digits_last (Text.repr_digits r) (by simp) (by decide) (by decide) hrest
  exact absurd hchar (by decide)

/-! ### The book -/

/-- The rows of a task are in the order of their numbers and have ids of their own. -/
structure Ordered (steps : List TeamStep) : Prop where
  sorted : steps.Pairwise fun a b => a.seq < b.seq
  unique : (steps.map fun s => s.stepId).Nodup

/-- The number of reviews of a step before one. -/
def rank (steps : List TeamStep) (contentStepId : String) (r : TeamStep) : ℕ :=
  (childrenOf steps contentStepId .review).countP fun s => decide (s.seq < r.seq)

/-- What the reviews and reworks of a task look like. -/
structure Booked (files : ArtifactPath → Option Artifact) (taskId : String) (steps : List TeamStep) : Prop where
  /-- each belongs to a started step: a review to a colleague, a rework to the author -/
  content : ∀ r ∈ steps, r.stepType ≠ .work → ∃ c ∈ steps, r.parentStepId = some c.stepId ∧ c.stepType = .work ∧
    c.status ≠ .pending ∧ (r.stepType = .review → r.assignedTo ≠ c.assignedTo) ∧
      (r.stepType = .rework → r.assignedTo = c.assignedTo)
  reviewRound : ∀ r ∈ steps, r.stepType = .review → r.reviewRound ≤ maxReviewRounds
  reworkRound : ∀ w ∈ steps, w.stepType = .rework → w.reviewRound < maxReviewRounds
  reviewIds : ∀ c, ∀ r ∈ childrenOf steps c .review, r.stepId = reviewId c r.reviewRound (rank steps c r)
  reworkIds : ∀ c, ∀ w ∈ childrenOf steps c .rework, w.stepId = reworkId c w.reviewRound
  /-- only the newest review can be pending, and rounds go up -/
  older : ∀ c, ∀ r ∈ childrenOf steps c .review, ∀ r' ∈ childrenOf steps c .review, r.seq < r'.seq →
    r.status ≠ .pending ∧ r.reviewRound ≤ r'.reviewRound
  /-- a rework comes from a review of its round -/
  source : ∀ c, ∀ w ∈ childrenOf steps c .rework, ∃ x ∈ childrenOf steps c .review, x.status ≠ .pending ∧
    x.reviewRound = w.reviewRound
  /-- a rework waits for the review that was pending when it was minted -/
  waits : ∀ c, ∀ w ∈ childrenOf steps c .rework, ∀ r ∈ childrenOf steps c .review, r.seq < w.seq →
    r.status = .pending → w.status = .pending ∧ w.deps = [r.stepId]
  /-- a rework closes its round -/
  later : ∀ c, ∀ w ∈ childrenOf steps c .rework, ∀ r ∈ childrenOf steps c .review, w.seq < r.seq →
    w.reviewRound < r.reviewRound
  /-- the rounds before were closed by a rework -/
  reworked : ∀ c, ∀ r ∈ childrenOf steps c .review, ∀ n < r.reviewRound, ∃ w ∈ childrenOf steps c .rework,
    w.reviewRound = n ∧ w.status ≠ .pending
  /-- a round with a rework has a verdict -/
  verdicts : ∀ c ∈ steps, ∀ w ∈ childrenOf steps c.stepId .rework,
    files (reviewVerdictArtifactPath taskId c.seq w.reviewRound) ≠ none

theorem mem_childrenOf {steps : List TeamStep} {c : String} {t : StepType} {s : TeamStep} :
    s ∈ childrenOf steps c t ↔ s ∈ steps ∧ s.stepType = t ∧ s.parentStepId = some c := by
  simp [childrenOf]

theorem Ordered.eq_of_seq {steps : List TeamStep} (h : Ordered steps) {a b : TeamStep} (ha : a ∈ steps) (hb : b ∈ steps)
    (hseq : a.seq = b.seq) : a = b := by
  have hnodup : (steps.map fun s => s.seq).Nodup := List.pairwise_map.2 (h.sorted.imp fun hlt => Nat.ne_of_lt hlt)
  exact Table.eq_of_key hnodup ha hb hseq

theorem Ordered.eq_of_id {steps : List TeamStep} (h : Ordered steps) {a b : TeamStep} (ha : a ∈ steps) (hb : b ∈ steps)
    (hid : a.stepId = b.stepId) : a = b :=
  Table.eq_of_key h.unique ha hb hid

/-- The newest child is the one with the largest number. -/
theorem Ordered.newest {steps : List TeamStep} (h : Ordered steps) {c : String} {t : StepType} {r : TeamStep}
    (hr : (childrenOf steps c t).getLast? = some r) :
    r ∈ childrenOf steps c t ∧ ∀ s ∈ childrenOf steps c t, s.seq ≤ r.seq := by
  refine ⟨List.mem_of_getLast? hr, fun s hs => ?_⟩
  obtain ⟨front, hfront⟩ := List.getLast?_eq_some_iff.1 hr
  have hsorted : (childrenOf steps c t).Pairwise fun a b => a.seq < b.seq := h.sorted.sublist List.filter_sublist
  rw [hfront, List.pairwise_append] at hsorted
  rw [hfront, List.mem_append, List.mem_singleton] at hs
  rcases hs with hs | rfl
  · exact (hsorted.2.2 s hs r (by simp)).le
  · exact le_rfl

/-! ### Rows that go on -/

/-- The second list goes on from the first: its minted rows were there, and what had been started is still
there and started. -/
structure Carries (steps steps' : List TeamStep) : Prop where
  back : ∀ s' ∈ steps', s'.stepType ≠ .work → ∃ s ∈ steps, s.toStepIdent = s'.toStepIdent ∧
    (s.status ≠ .pending → s'.status ≠ .pending)
  forth : ∀ s ∈ steps, s.status ≠ .pending → ∃ s' ∈ steps', s'.toStepIdent = s.toStepIdent ∧ s'.status ≠ .pending

section Carried

variable {files files' : ArtifactPath → Option Artifact} {taskId : String} {steps steps' : List TeamStep}

theorem mem_childrenOf_ident {s s' : TeamStep} {c : String} {t : StepType} (hident : s.toStepIdent = s'.toStepIdent)
    (hs : s ∈ steps) (hs' : s' ∈ childrenOf steps' c t) : s ∈ childrenOf steps c t := by
  obtain ⟨-, htype, hparent⟩ := mem_childrenOf.1 hs'
  refine mem_childrenOf.2 ⟨hs, ?_, ?_⟩
  · rw [congrArg StepIdent.stepType hident, htype]
  · rw [congrArg StepIdent.parentStepId hident, hparent]

/-- A child was there before. -/
theorem Carries.child (h : Carries steps steps') {c : String} {t : StepType} (ht : t ≠ .work) {s' : TeamStep}
    (hs' : s' ∈ childrenOf steps' c t) : ∃ s ∈ childrenOf steps c t, s.toStepIdent = s'.toStepIdent ∧
      (s.status ≠ .pending → s'.status ≠ .pending) := by
  obtain ⟨hmem, htype, -⟩ := mem_childrenOf.1 hs'
  obtain ⟨s, hs, hident, hstarted⟩ := h.back s' hmem (by rw [htype]; exact ht)
  exact ⟨s, mem_childrenOf_ident hident hs hs', hident, hstarted⟩

/-- A started child is still there. -/
theorem Carries.startedChild (h : Carries steps steps') {c : String} {t : StepType} {s : TeamStep}
    (hs : s ∈ childrenOf steps c t) (hstarted : s.status ≠ .pending) :
    ∃ s' ∈ childrenOf steps' c t, s'.toStepIdent = s.toStepIdent ∧ s'.status ≠ .pending := by
  obtain ⟨s', hs', hident, hstarted'⟩ := h.forth s (mem_childrenOf.1 hs).1 hstarted
  exact ⟨s', mem_childrenOf_ident hident hs' hs, hident, hstarted'⟩

/-- The book goes on with the rows, when the ranks stay and no waiting rework is started. -/
theorem Booked.carry (h : Booked files taskId steps) (hcarry : Carries steps steps') (hordered : Ordered steps')
    (hfiles : ∀ path, files path ≠ none → files' path ≠ none)
    (hrank : ∀ c, ∀ r ∈ childrenOf steps' c .review, rank steps' c r = rank steps c r)
    (hwaits : ∀ c, ∀ w' ∈ childrenOf steps' c .rework, ∀ w ∈ childrenOf steps c .rework,
      w.toStepIdent = w'.toStepIdent → w.status = .pending → ∀ r ∈ childrenOf steps' c .review,
        r.status = .pending → w.deps = [r.stepId] → w'.status = .pending) :
    Booked files' taskId steps' where
  content := by
    intro r' hr' htype
    obtain ⟨r, hr, hident, -⟩ := hcarry.back r' hr' htype
    rw [← congrArg StepIdent.stepType hident] at htype
    obtain ⟨c, hc, hparent, hwork, hstarted, hreview, hrework⟩ := h.content r hr htype
    obtain ⟨c', hc', hcident, hstarted'⟩ := hcarry.forth c hc hstarted
    have hassigned : c'.assignedTo = c.assignedTo := congrArg (fun i : StepIdent => i.assignedTo) hcident
    refine ⟨c', hc', ?_, ?_, hstarted', fun ht => ?_, fun ht => ?_⟩
    · rw [← congrArg StepIdent.parentStepId hident, hparent, congrArg (fun i : StepIdent => i.stepId) hcident]
    · rw [congrArg StepIdent.stepType hcident, hwork]
    · rw [← congrArg StepIdent.stepType hident] at ht
      rw [← congrArg (fun i : StepIdent => i.assignedTo) hident, hassigned]
      exact hreview ht
    · rw [← congrArg StepIdent.stepType hident] at ht
      rw [← congrArg (fun i : StepIdent => i.assignedTo) hident, hassigned]
      exact hrework ht
  reviewRound := by
    intro r' hr' htype
    obtain ⟨r, hr, hident, -⟩ := hcarry.back r' hr' (by rw [htype]; decide)
    rw [← congrArg StepIdent.reviewRound hident]
    exact h.reviewRound r hr (by rw [congrArg StepIdent.stepType hident, htype])
  reworkRound := by
    intro w' hw' htype
    obtain ⟨w, hw, hident, -⟩ := hcarry.back w' hw' (by rw [htype]; decide)
    rw [← congrArg StepIdent.reviewRound hident]
    exact h.reworkRound w hw (by rw [congrArg StepIdent.stepType hident, htype])
  reviewIds := by
    intro c r' hr'
    obtain ⟨r, hr, hident, -⟩ := hcarry.child (by decide) hr'
    have hsame : rank steps c r = rank steps c r' := by
      unfold rank
      rw [congrArg StepIdent.seq hident]
    rw [hrank c r' hr', ← hsame, ← congrArg StepIdent.reviewRound hident,
      ← congrArg (fun i : StepIdent => i.stepId) hident]
    exact h.reviewIds c r hr
  reworkIds := by
    intro c w' hw'
    obtain ⟨w, hw, hident, -⟩ := hcarry.child (by decide) hw'
    rw [← congrArg StepIdent.reviewRound hident, ← congrArg (fun i : StepIdent => i.stepId) hident]
    exact h.reworkIds c w hw
  older := by
    intro c r' hr' s' hs' hlt
    obtain ⟨r, hr, hident, hstarted⟩ := hcarry.child (by decide) hr'
    obtain ⟨s, hs, hsident, -⟩ := hcarry.child (by decide) hs'
    rw [← congrArg StepIdent.seq hident, ← congrArg StepIdent.seq hsident] at hlt
    obtain ⟨hold, hround⟩ := h.older c r hr s hs hlt
    refine ⟨hstarted hold, ?_⟩
    rw [← congrArg StepIdent.reviewRound hident, ← congrArg StepIdent.reviewRound hsident]
    exact hround
  source := by
    intro c w' hw'
    obtain ⟨w, hw, hident, -⟩ := hcarry.child (by decide) hw'
    obtain ⟨x, hx, hstarted, hround⟩ := h.source c w hw
    obtain ⟨x', hx', hxident, hstarted'⟩ := hcarry.startedChild hx hstarted
    refine ⟨x', hx', hstarted', ?_⟩
    rw [congrArg StepIdent.reviewRound hxident, hround, congrArg StepIdent.reviewRound hident]
  waits := by
    intro c w' hw' r' hr' hlt hpending
    obtain ⟨w, hw, hident, -⟩ := hcarry.child (by decide) hw'
    obtain ⟨r, hr, hrident, hstarted⟩ := hcarry.child (by decide) hr'
    rw [← congrArg StepIdent.seq hident, ← congrArg StepIdent.seq hrident] at hlt
    have hpending' : r.status = .pending := by
      by_contra hne
      exact hstarted hne hpending
    obtain ⟨hwpending, hdeps⟩ := h.waits c w hw r hr hlt hpending'
    rw [congrArg (fun i : StepIdent => i.stepId) hrident] at hdeps
    refine ⟨hwaits c w' hw' w hw hident hwpending r' hr' hpending hdeps, ?_⟩
    rw [← congrArg (fun i : StepIdent => i.deps) hident]
    exact hdeps
  later := by
    intro c w' hw' r' hr' hlt
    obtain ⟨w, hw, hident, -⟩ := hcarry.child (by decide) hw'
    obtain ⟨r, hr, hrident, -⟩ := hcarry.child (by decide) hr'
    rw [← congrArg StepIdent.seq hident, ← congrArg StepIdent.seq hrident] at hlt
    rw [← congrArg StepIdent.reviewRound hident, ← congrArg StepIdent.reviewRound hrident]
    exact h.later c w hw r hr hlt
  reworked := by
    intro c r' hr' n hn
    obtain ⟨r, hr, hident, -⟩ := hcarry.child (by decide) hr'
    rw [← congrArg StepIdent.reviewRound hident] at hn
    obtain ⟨w, hw, hround, hstarted⟩ := h.reworked c r hr n hn
    obtain ⟨w', hw', hwident, hstarted'⟩ := hcarry.startedChild hw hstarted
    exact ⟨w', hw', by rw [congrArg StepIdent.reviewRound hwident, hround], hstarted'⟩
  verdicts := by
    intro c' hc' w' hw'
    obtain ⟨w, hw, hident, -⟩ := hcarry.child (by decide) hw'
    obtain ⟨hmem, htype, hparent⟩ := mem_childrenOf.1 hw
    obtain ⟨c, hc, hparent', -, hstarted, -⟩ := h.content w hmem (by rw [htype]; decide)
    obtain ⟨c₀, hc₀, hcident, -⟩ := hcarry.forth c hc hstarted
    rw [hparent] at hparent'
    have hsame : c₀ = c' := by
      refine hordered.eq_of_id hc₀ hc' ?_
      rw [congrArg (fun i : StepIdent => i.stepId) hcident, ← Option.some.inj hparent']
    rw [← hsame, congrArg StepIdent.seq hcident, ← congrArg StepIdent.reviewRound hident]
    refine hfiles _ (h.verdicts c hc w (mem_childrenOf.2 ⟨hmem, htype, ?_⟩))
    rw [hparent, hparent']

theorem childrenOf_map {g : TeamStep → TeamStep} (hg : ∀ s, (g s).toStepIdent = s.toStepIdent)
    (steps : List TeamStep) (c : String) (t : StepType) :
    childrenOf (steps.map g) c t = (childrenOf steps c t).map g := by
  unfold childrenOf
  rw [List.filter_map]
  congr 1
  refine List.filter_congr fun s _ => ?_
  simp [congrArg StepIdent.stepType (hg s), congrArg StepIdent.parentStepId (hg s)]

/-- The book after rows were rewritten. -/
theorem Booked.map (h : Booked files taskId steps) {g : TeamStep → TeamStep}
    (hg : ∀ s, (g s).toStepIdent = s.toStepIdent) (hordered : Ordered (steps.map g))
    (hstarted : ∀ s ∈ steps, s.status ≠ .pending → (g s).status ≠ .pending)
    (hwaits : ∀ w ∈ steps, w.stepType = .rework → w.status = .pending → (g w).status ≠ .pending →
      ∀ r ∈ steps, r.status = .pending → w.deps ≠ [r.stepId]) :
    Booked files taskId (steps.map g) := by
  have hcarry : Carries steps (steps.map g) := by
    constructor
    · intro s' hs' _
      obtain ⟨s, hs, rfl⟩ := List.mem_map.1 hs'
      exact ⟨s, hs, (hg s).symm, hstarted s hs⟩
    · exact fun s hs hst => ⟨g s, List.mem_map_of_mem hs, hg s, hstarted s hs hst⟩
  refine h.carry hcarry hordered (fun _ h => h) ?_ ?_
  · intro c r _
    unfold rank
    rw [childrenOf_map hg, List.countP_map]
    congr 1
    funext s
    simp [congrArg StepIdent.seq (hg s)]
  · intro c w' hw' w hw hident hpending r' hr' hrpending hdeps
    rw [childrenOf_map hg] at hw' hr'
    obtain ⟨w₀, hw₀, rfl⟩ := List.mem_map.1 hw'
    obtain ⟨r, hr, rfl⟩ := List.mem_map.1 hr'
    have hsame : g w = g w₀ := by
      refine hordered.eq_of_seq (List.mem_map_of_mem (mem_childrenOf.1 hw).1)
        (List.mem_map_of_mem (mem_childrenOf.1 hw₀).1) ?_
      rw [congrArg StepIdent.seq (hg w), congrArg StepIdent.seq hident]
    rw [← hsame]
    by_contra hne
    obtain ⟨hwmem, hwtype, -⟩ := mem_childrenOf.1 hw
    have hr' : r ∈ steps := (mem_childrenOf.1 hr).1
    refine hwaits w hwmem hwtype hpending hne r hr' ?_ ?_
    · by_contra hstart
      exact hstarted r hr' hstart hrpending
    · rw [hdeps, congrArg (fun i : StepIdent => i.stepId) (hg r)]

/-- The book after pending rows have made way for work. -/
theorem Booked.replan (h : Booked files taskId steps) (hbefore : Ordered steps) {keep : TeamStep → Bool} {new : List TeamStep}
    (hordered : Ordered (steps.filter keep ++ new)) (hkeep : ∀ s ∈ steps, s.status ≠ .pending → keep s = true)
    (hnew : ∀ s ∈ new, s.stepType = .work) : Booked files taskId (steps.filter keep ++ new) := by
  have hmem : ∀ s ∈ steps.filter keep ++ new, s.stepType ≠ .work → s ∈ steps := by
    intro s hs htype
    rcases List.mem_append.1 hs with hs | hs
    · exact (List.mem_filter.1 hs).1
    · exact absurd (hnew s hs) htype
  have hchildren : ∀ c t, t ≠ .work → childrenOf (steps.filter keep ++ new) c t = (childrenOf steps c t).filter keep := by
    intro c t ht
    have hnone : new.filter (fun s => decide (s.stepType = t) && decide (s.parentStepId = some c)) = [] := by
      rw [List.filter_eq_nil_iff]
      intro s hs
      simp [hnew s hs, Ne.symm ht]
    unfold childrenOf
    rw [List.filter_append, hnone, List.append_nil, List.filter_filter, List.filter_filter]
    congr 1
    funext s
    rw [Bool.and_comm]
  have hcarry : Carries steps (steps.filter keep ++ new) := by
    constructor
    · exact fun s hs htype => ⟨s, hmem s hs htype, rfl, id⟩
    · intro s hs hstarted
      exact ⟨s, List.mem_append_left _ (List.mem_filter.2 ⟨hs, hkeep s hs hstarted⟩), rfl, hstarted⟩
  refine h.carry hcarry hordered (fun _ h => h) ?_ ?_
  · intro c r hr
    have hr' : r ∈ childrenOf steps c .review := by
      rw [hchildren c .review (by decide)] at hr
      exact (List.mem_filter.1 hr).1
    unfold rank
    rw [hchildren c .review (by decide), List.countP_filter]
    refine List.countP_congr fun s hs => ?_
    simp only [Bool.and_eq_true, decide_eq_true_eq, and_iff_left_iff_imp]
    exact fun hlt => hkeep s (mem_childrenOf.1 hs).1 (h.older c s hs r hr' hlt).1
  · intro c w' hw' w hw hident hpending _ _ _ _
    have hw'' : w' ∈ steps := hmem w' (mem_childrenOf.1 hw').1 (by rw [(mem_childrenOf.1 hw').2.1]; decide)
    rw [← hbefore.eq_of_seq (mem_childrenOf.1 hw).1 hw'' (congrArg StepIdent.seq hident)]
    exact hpending

end Carried

/-! ### A minted row -/

section Mint

variable {files : ArtifactPath → Option Artifact} {taskId : String} {steps : List TeamStep}

/-- All reviews of the step have been started. -/
def AllStarted (steps : List TeamStep) (c : String) : Prop :=
  ∀ r ∈ childrenOf steps c .review, r.status ≠ .pending

theorem childrenOf_append (steps : List TeamStep) (row : TeamStep) (c : String) (t : StepType) :
    childrenOf (steps ++ [row]) c t =
      childrenOf steps c t ++ if row.stepType = t ∧ row.parentStepId = some c then [row] else [] := by
  unfold childrenOf
  rw [List.filter_append]
  congr 1
  by_cases h : row.stepType = t ∧ row.parentStepId = some c
  · simp [h.1, h.2]
  · simp only [h, if_false, List.filter_eq_nil_iff]
    intro s hs
    rw [List.mem_singleton.1 hs]
    simpa using h

theorem mem_childrenOf_append {row s : TeamStep} {c : String} {t : StepType} (h : s ∈ childrenOf (steps ++ [row]) c t) :
    s ∈ childrenOf steps c t ∨ s = row ∧ row.stepType = t ∧ row.parentStepId = some c := by
  obtain ⟨hmem, htype, hparent⟩ := mem_childrenOf.1 h
  rcases List.mem_append.1 hmem with hmem | hmem
  · exact .inl (mem_childrenOf.2 ⟨hmem, htype, hparent⟩)
  · obtain rfl := List.mem_singleton.1 hmem
    exact .inr ⟨rfl, htype, hparent⟩

theorem mem_childrenOf_left {row s : TeamStep} {c : String} {t : StepType} (h : s ∈ childrenOf steps c t) :
    s ∈ childrenOf (steps ++ [row]) c t := by
  obtain ⟨hmem, hrest⟩ := mem_childrenOf.1 h
  exact mem_childrenOf.2 ⟨List.mem_append_left _ hmem, hrest⟩

/-- A row with the last number changes no rank. -/
theorem rank_append {row r : TeamStep} (c : String) (hr : r.seq ≤ row.seq) :
    rank (steps ++ [row]) c r = rank steps c r := by
  unfold rank
  rw [childrenOf_append, List.countP_append]
  split
  · simp [Nat.not_lt.2 hr]
  · simp

/-- The rank of a row with the last number. -/
theorem rank_last {row : TeamStep} (c : String) (hlast : ∀ s ∈ steps, s.seq < row.seq) :
    rank (steps ++ [row]) c row = (childrenOf steps c .review).length := by
  rw [rank_append c le_rfl]
  unfold rank
  rw [List.countP_eq_length]
  intro s hs
  simpa using hlast s (mem_childrenOf.1 hs).1

/-- What a minted row has to bring along. -/
structure NewRow (steps : List TeamStep) (row content : TeamStep) : Prop where
  parent : row.parentStepId = some content.stepId
  mem : content ∈ steps
  work : content.stepType = .work
  started : content.status ≠ .pending
  peer : row.stepType = .review → row.assignedTo ≠ content.assignedTo
  author : row.stepType = .rework → row.assignedTo = content.assignedTo

/-- What a new review has to bring along. -/
structure NewReview (steps : List TeamStep) (row content : TeamStep) : Prop where
  stepId : row.stepId = reviewId content.stepId row.reviewRound (childrenOf steps content.stepId .review).length
  bounded : row.reviewRound ≤ maxReviewRounds
  others : AllStarted steps content.stepId
  ascending : ∀ r ∈ childrenOf steps content.stepId .review, r.reviewRound ≤ row.reviewRound
  closed : ∀ w ∈ childrenOf steps content.stepId .rework, w.reviewRound < row.reviewRound
  reworked : ∀ n < row.reviewRound, ∃ w ∈ childrenOf steps content.stepId .rework,
    w.reviewRound = n ∧ w.status ≠ .pending

/-- What a new rework has to bring along. -/
structure NewRework (files : ArtifactPath → Option Artifact) (taskId : String) (steps : List TeamStep)
    (row content : TeamStep) : Prop where
  stepId : row.stepId = reworkId content.stepId row.reviewRound
  bounded : row.reviewRound < maxReviewRounds
  source : ∃ x ∈ childrenOf steps content.stepId .review, x.status ≠ .pending ∧ x.reviewRound = row.reviewRound
  waits : ∀ r ∈ childrenOf steps content.stepId .review, r.status = .pending →
    row.status = .pending ∧ row.deps = [r.stepId]
  verdict : files (reviewVerdictArtifactPath taskId content.seq row.reviewRound) ≠ none
  first : ∀ w ∈ childrenOf steps content.stepId .rework, w.reviewRound ≠ row.reviewRound

/-- The book with a minted row. -/
theorem Booked.append (h : Booked files taskId steps) {row content : TeamStep} (hnew : NewRow steps row content)
    (hreview : row.stepType = .review → NewReview steps row content)
    (hrework : row.stepType = .rework → NewRework files taskId steps row content)
    (hordered : Ordered (steps ++ [row])) (hlast : ∀ s ∈ steps, s.seq < row.seq) :
    Booked files taskId (steps ++ [row]) := by
  have hparent : ∀ {c : String}, row.parentStepId = some c → c = content.stepId := by
    intro c hc
    rw [hnew.parent] at hc
    exact (Option.some.inj hc).symm
  have hbefore : ∀ {s : TeamStep} {c : String} {t : StepType}, s ∈ childrenOf steps c t → s.seq < row.seq :=
    fun hs => hlast _ (mem_childrenOf.1 hs).1
  constructor
  case content =>
    intro r hr htype
    rcases List.mem_append.1 hr with hold | hlast
    · obtain ⟨c, hc, hrest⟩ := h.content r hold htype
      exact ⟨c, List.mem_append_left _ hc, hrest⟩
    · rw [List.mem_singleton.1 hlast]
      exact ⟨content, List.mem_append_left _ hnew.mem, hnew.parent, hnew.work, hnew.started, hnew.peer, hnew.author⟩
  case reviewRound =>
    intro r hr htype
    rcases List.mem_append.1 hr with hold | hlast
    · exact h.reviewRound r hold htype
    · rw [List.mem_singleton.1 hlast] at htype ⊢
      exact (hreview htype).bounded
  case reworkRound =>
    intro w hw htype
    rcases List.mem_append.1 hw with hold | hlast
    · exact h.reworkRound w hold htype
    · rw [List.mem_singleton.1 hlast] at htype ⊢
      exact (hrework htype).bounded
  case reviewIds =>
    intro c r hr
    rcases mem_childrenOf_append hr with hold | ⟨rfl, htype, hc⟩
    · rw [rank_append c (hbefore hold).le]
      exact h.reviewIds c r hold
    · rw [hparent hc, rank_last _ hlast]
      exact (hreview htype).stepId
  case reworkIds =>
    intro c w hw
    rcases mem_childrenOf_append hw with hold | ⟨rfl, htype, hc⟩
    · exact h.reworkIds c w hold
    · rw [hparent hc]
      exact (hrework htype).stepId
  case older =>
    intro c r hr r' hr' hlt
    rcases mem_childrenOf_append hr with hold | ⟨rfl, -, -⟩
    · rcases mem_childrenOf_append hr' with hold' | ⟨rfl, htype, hc⟩
      · exact h.older c r hold r' hold' hlt
      · rw [hparent hc] at hold
        exact ⟨(hreview htype).others r hold, (hreview htype).ascending r hold⟩
    · rcases mem_childrenOf_append hr' with hold' | ⟨rfl, -, -⟩
      · exact absurd hlt (hbefore hold').asymm
      · exact absurd hlt (lt_irrefl _)
  case source =>
    intro c w hw
    rcases mem_childrenOf_append hw with hold | ⟨rfl, htype, hc⟩
    · obtain ⟨x, hx, hrest⟩ := h.source c w hold
      exact ⟨x, mem_childrenOf_left hx, hrest⟩
    · obtain ⟨x, hx, hrest⟩ := (hrework htype).source
      rw [hparent hc]
      exact ⟨x, mem_childrenOf_left hx, hrest⟩
  case waits =>
    intro c w hw r hr hlt hpending
    rcases mem_childrenOf_append hr with hold' | ⟨rfl, -, -⟩
    · rcases mem_childrenOf_append hw with hold | ⟨rfl, htype, hc⟩
      · exact h.waits c w hold r hold' hlt hpending
      · rw [hparent hc] at hold'
        exact (hrework htype).waits r hold' hpending
    · rcases mem_childrenOf_append hw with hold | ⟨rfl, -, -⟩
      · exact absurd hlt (hbefore hold).asymm
      · exact absurd hlt (lt_irrefl _)
  case later =>
    intro c w hw r hr hlt
    rcases mem_childrenOf_append hw with hold | ⟨rfl, -, -⟩
    · rcases mem_childrenOf_append hr with hold' | ⟨rfl, htype, hc⟩
      · exact h.later c w hold r hold' hlt
      · rw [hparent hc] at hold
        exact (hreview htype).closed w hold
    · rcases mem_childrenOf_append hr with hold' | ⟨rfl, -, -⟩
      · exact absurd hlt (hbefore hold').asymm
      · exact absurd hlt (lt_irrefl _)
  case reworked =>
    intro c r hr n hn
    rcases mem_childrenOf_append hr with hold | ⟨rfl, htype, hc⟩
    · obtain ⟨w, hw, hrest⟩ := h.reworked c r hold n hn
      exact ⟨w, mem_childrenOf_left hw, hrest⟩
    · obtain ⟨w, hw, hrest⟩ := (hreview htype).reworked n hn
      rw [hparent hc]
      exact ⟨w, mem_childrenOf_left hw, hrest⟩
  case verdicts =>
    intro c hc w hw
    have hsame : ∀ c₀ ∈ steps, c₀.stepId = c.stepId → c₀ = c := fun c₀ hc₀ hid =>
      hordered.eq_of_id (List.mem_append_left _ hc₀) hc hid
    rcases mem_childrenOf_append hw with hold | ⟨rfl, htype, hid⟩
    · obtain ⟨hmem, htype, hid⟩ := mem_childrenOf.1 hold
      obtain ⟨c₀, hc₀, hid₀, -⟩ := h.content w hmem (by rw [htype]; decide)
      rw [hid] at hid₀
      rw [← hsame c₀ hc₀ (Option.some.inj hid₀).symm]
      exact h.verdicts c₀ hc₀ w (mem_childrenOf.2 ⟨hmem, htype, by rw [hid, hid₀]⟩)
    · rw [← hsame content hnew.mem (hparent hid).symm]
      exact (hrework htype).verdict

/-! #### In the snapshot -/

variable {task : TeamTask} {step content : TeamStep} {log : OfficeLog} {d : StepDict}

/-- The content step that the rule has found is the one the row belongs to. -/
theorem Booked.found (h : Booked files task.id task.steps) (hordered : Ordered task.steps) (hstep : step ∈ task.steps)
    (htype : step.stepType ≠ .work) (hcontent : step.parentStepId.bind task.step? = some content) :
    content ∈ task.steps ∧ step.parentStepId = some content.stepId ∧ content.stepType = .work ∧
      content.status ≠ .pending ∧ (step.stepType = .review → step.assignedTo ≠ content.assignedTo) := by
  obtain ⟨id, hid, hfound⟩ := Option.bind_eq_some_iff.1 hcontent
  obtain ⟨hmem, rfl⟩ := step?_eq_some hfound
  obtain ⟨c, hc, hparent, hwork, hstarted, hpeer, -⟩ := h.content step hstep htype
  rw [hid] at hparent
  obtain rfl := hordered.eq_of_id hmem hc (Option.some.inj hparent)
  exact ⟨hmem, hid, hwork, hstarted, hpeer⟩

/-- The reviews before the newest one are started and of no later round. -/
theorem Booked.upTo (h : Booked files taskId steps) (hordered : Ordered steps) {c : String} {newest r : TeamStep}
    (hnewest : (childrenOf steps c .review).getLast? = some newest) (hr : r ∈ childrenOf steps c .review) :
    (newest.status ≠ .pending → r.status ≠ .pending) ∧ r.reviewRound ≤ newest.reviewRound ∧
      (r.status = .pending → r = newest) := by
  obtain ⟨hmem, hlast⟩ := hordered.newest hnewest
  rcases Nat.lt_or_eq_of_le (hlast r hr) with hlt | heq
  · obtain ⟨hstarted, hround⟩ := h.older c r hr newest hmem hlt
    exact ⟨fun _ => hstarted, hround, fun hpending => absurd hpending hstarted⟩
  · obtain rfl := hordered.eq_of_seq (mem_childrenOf.1 hr).1 (mem_childrenOf.1 hmem).1 heq
    exact ⟨id, le_rfl, fun _ => rfl⟩

/-- The round of a rework is not after that of the newest review. -/
theorem Booked.reworkUpTo (h : Booked files taskId steps) (hordered : Ordered steps) {c : String} {newest w : TeamStep}
    (hnewest : (childrenOf steps c .review).getLast? = some newest) (hw : w ∈ childrenOf steps c .rework) :
    w.reviewRound ≤ newest.reviewRound := by
  obtain ⟨x, hx, -, hround⟩ := h.source c w hw
  rw [← hround]
  exact (h.upTo hordered hnewest hx).2.1

/-- The files that the ticker has found, and those it cannot have missed. -/
structure ReadsFiles (files : ArtifactPath → Option Artifact) (log : OfficeLog) (task : TeamTask) : Prop where
  found : ∀ path v, log.Has (.readArtifact path) (some v) → files path ≠ none
  missed : ∀ c ∈ task.steps, ∀ w ∈ childrenOf task.steps c.stepId .rework,
    ¬ log.Has (.readArtifact (reviewVerdictArtifactPath task.id c.seq w.reviewRound)) none

/-- What is minted for a step of the snapshot fits the book of the snapshot. -/
theorem Minting.fits (hminting : Minting log task step d) (h : Booked files task.id task.steps)
    (hordered : Ordered task.steps) (hreads : ReadsFiles files log task) (hstep : step ∈ task.steps)
    (hdone : step.status = .done) (n : ℕ) : ∃ content, NewRow task.steps (mintedRow task.id d n) content ∧
      ((mintedRow task.id d n).stepType = .review → NewReview task.steps (mintedRow task.id d n) content) ∧
      ((mintedRow task.id d n).stepType = .rework → NewRework files task.id task.steps (mintedRow task.id d n) content) := by
  have hstarted : step.status ≠ .pending := by
    rw [hdone]
    decide
  have hkinds : StepType.review ≠ .rework := by
    decide
  cases hminting with
  | first hwork hneeds hnone hpeer =>
      have hempty : childrenOf task.steps step.stepId .review = [] := List.getLast?_eq_none_iff.1 hnone
      refine ⟨step, ⟨rfl, hstep, hwork, hstarted, fun _ => hpeer, fun hkind => absurd hkind hkinds⟩, fun _ => ?_,
        fun hkind => absurd hkind hkinds⟩
      refine ⟨rfl, Nat.zero_le _, ?_, ?_, ?_, fun _ hn => absurd hn (Nat.not_lt_zero _)⟩
      · intro r hr
        rw [hempty] at hr
        cases hr
      · intro r hr
        rw [hempty] at hr
        cases hr
      · intro w hw
        obtain ⟨x, hx, -⟩ := h.source _ w hw
        rw [hempty] at hx
        cases hx
  | @again content hreview hcontent hnewest hverdict =>
      obtain ⟨hmem, hparent, hwork, hcstarted, hpeer⟩ := h.found hordered hstep (by rw [hreview]; decide) hcontent
      have hself : step ∈ childrenOf task.steps content.stepId .review := mem_childrenOf.2 ⟨hstep, hreview, hparent⟩
      refine ⟨content, ⟨rfl, hmem, hwork, hcstarted, fun _ => hpeer hreview, fun hkind => absurd hkind hkinds⟩,
        fun _ => ?_, fun hkind => absurd hkind hkinds⟩
      refine ⟨rfl, h.reviewRound step hstep hreview, ?_, ?_, ?_, h.reworked _ step hself⟩
      · exact fun r hr => (h.upTo hordered hnewest hr).1 hstarted
      · exact fun r hr => (h.upTo hordered hnewest hr).2.1
      · intro w hw
        have hle : w.reviewRound ≤ step.reviewRound := h.reworkUpTo hordered hnewest hw
        refine lt_of_le_of_ne hle fun hround => hreads.missed content hmem w hw ?_
        have hround : w.reviewRound = step.reviewRound := hround
        rw [hround]
        exact hverdict
  | @rework content v hreview hcontent hverdict hfailed hround hnone =>
      obtain ⟨hmem, hparent, hwork, hcstarted, -⟩ := h.found hordered hstep (by rw [hreview]; decide) hcontent
      have hself : step ∈ childrenOf task.steps content.stepId .review := mem_childrenOf.2 ⟨hstep, hreview, hparent⟩
      refine ⟨content, ⟨rfl, hmem, hwork, hcstarted, fun hkind => absurd hkind hkinds.symm, fun _ => rfl⟩,
        fun hkind => absurd hkind hkinds.symm, fun _ => ?_⟩
      refine ⟨rfl, hround, ⟨step, hself, hstarted, rfl⟩, fun r hr hpending => ⟨rfl, ?_⟩, hreads.found _ v hverdict, ?_⟩
      case refine_2 =>
        intro w hw hsame
        obtain ⟨hwmem, hwtype, hwparent⟩ := mem_childrenOf.1 hw
        simp only [reworkThisRound, List.any_eq_false, Bool.and_eq_true, decide_eq_true_eq, not_and] at hnone
        exact hnone w hwmem ⟨hwtype, hwparent⟩ hsame
      obtain ⟨newest, hnewest⟩ : ∃ newest, (childrenOf task.steps content.stepId .review).getLast? = some newest :=
        ⟨_, List.getLast?_eq_some_getLast (List.ne_nil_of_mem hr)⟩
      rw [(h.upTo hordered hnewest hr).2.2 hpending]
      show [((reviewChild task content.stepId .review).map fun s => s.stepId).getD content.stepId] = _
      rw [reviewChild, hnewest]
      rfl
  | @next content reviewer hrework hcontent hnone hpeer =>
      obtain ⟨hmem, hparent, hwork, hcstarted, -⟩ := h.found hordered hstep (by rw [hrework]; decide) hcontent
      have hself : step ∈ childrenOf task.steps content.stepId .rework := mem_childrenOf.2 ⟨hstep, hrework, hparent⟩
      obtain ⟨x, hx, -, hxround⟩ := h.source _ step hself
      obtain ⟨newest, hnewest⟩ : ∃ newest, (childrenOf task.steps content.stepId .review).getLast? = some newest :=
        ⟨_, List.getLast?_eq_some_getLast (List.ne_nil_of_mem hx)⟩
      have hround : newest.reviewRound ≤ step.reviewRound := by
        simp only [reviewedInRound, reviewChild, hnewest, Option.any_some, decide_eq_false_iff_not] at hnone
        omega
      have hnewestStarted : newest.status ≠ .pending := by
        intro hpending
        obtain ⟨hnmem, -⟩ := hordered.newest hnewest
        rcases Nat.lt_trichotomy newest.seq step.seq with hlt | heq | hlt
        · exact hstarted (h.waits _ step hself newest hnmem hlt hpending).1
        · have hsame := hordered.eq_of_seq (mem_childrenOf.1 hnmem).1 hstep heq
          rw [hsame] at hpending
          exact hstarted hpending
        · exact absurd (h.later _ step hself newest hnmem hlt) (by omega)
      refine ⟨content, ⟨rfl, hmem, hwork, hcstarted, fun _ => hpeer, fun hkind => absurd hkind hkinds⟩, fun _ => ?_,
        fun hkind => absurd hkind hkinds⟩
      refine ⟨rfl, h.reworkRound step hstep hrework, ?_, ?_, ?_, ?_⟩
      · exact fun r hr => (h.upTo hordered hnewest hr).1 hnewestStarted
      · intro r hr
        exact ((h.upTo hordered hnewest hr).2.1.trans hround).trans (Nat.le_succ _)
      · intro w hw
        exact Nat.lt_succ_of_le ((h.reworkUpTo hordered hnewest hw).trans hround)
      · intro m hm
        rcases Nat.lt_or_eq_of_le (Nat.le_of_lt_succ hm) with hlt | rfl
        · exact h.reworked _ x hx m (by omega)
        · exact ⟨step, hself, rfl, hstarted⟩

/-! #### In the store -/

variable {row : TeamStep} {steps' : List TeamStep}

/-- Started children that go on are as many as before. -/
theorem Carries.length_eq (h : Carries steps steps') (hordered : Ordered steps) (hordered' : Ordered steps') {c : String}
    (hall : AllStarted steps c) : (childrenOf steps' c .review).length = (childrenOf steps c .review).length := by
  have hnodup : ∀ {l : List TeamStep}, Ordered l → ((childrenOf l c .review).map fun s => s.toStepIdent).Nodup := by
    intro l hl
    have hseqs : ((childrenOf l c .review).map fun s => s.seq).Nodup :=
      List.pairwise_map.2 ((hl.sorted.sublist List.filter_sublist).imp fun hlt => Nat.ne_of_lt hlt)
    refine List.Nodup.of_map StepIdent.seq ?_
    rwa [List.map_map]
  have hperm : ((childrenOf steps' c .review).map fun s => s.toStepIdent).Perm
      ((childrenOf steps c .review).map fun s => s.toStepIdent) := by
    rw [List.perm_ext_iff_of_nodup (hnodup hordered') (hnodup hordered)]
    intro i
    simp only [List.mem_map]
    constructor
    · rintro ⟨s', hs', rfl⟩
      obtain ⟨s, hs, hident, -⟩ := h.child (by decide) hs'
      exact ⟨s, hs, hident⟩
    · rintro ⟨s, hs, rfl⟩
      obtain ⟨s', hs', hident, -⟩ := h.startedChild hs (hall s hs)
      exact ⟨s', hs', hident⟩
  simpa using hperm.length_eq

/-- What fits the snapshot fits the rows that go on from it. -/
theorem NewRow.carry (h : NewRow steps row content) (hcarry : Carries steps steps') (hordered : Ordered steps)
    (hordered' : Ordered steps') (hreview : row.stepType = .review → NewReview steps row content)
    (hrework : row.stepType = .rework → NewRework files taskId steps row content) :
    ∃ content', NewRow steps' row content' ∧ (row.stepType = .review → NewReview steps' row content') ∧
      (row.stepType = .rework → NewRework files taskId steps' row content') := by
  obtain ⟨content', hmem, hident, hstarted⟩ := hcarry.forth content h.mem h.started
  have hid : content'.stepId = content.stepId := congrArg (fun i : StepIdent => i.stepId) hident
  have hassigned : content'.assignedTo = content.assignedTo := congrArg (fun i : StepIdent => i.assignedTo) hident
  refine ⟨content', ⟨?_, hmem, ?_, hstarted, ?_, ?_⟩, fun hr => ?_, fun hw => ?_⟩
  · rw [hid]
    exact h.parent
  · rw [congrArg StepIdent.stepType hident]
    exact h.work
  · rw [hassigned]
    exact h.peer
  · rw [hassigned]
    exact h.author
  · have hnew := hreview hr
    constructor
    case stepId =>
      rw [hid, hcarry.length_eq hordered hordered' hnew.others]
      exact hnew.stepId
    case bounded =>
      exact hnew.bounded
    case others =>
      intro r' hr'
      rw [hid] at hr'
      obtain ⟨r, hr, -, hst⟩ := hcarry.child (by decide) hr'
      exact hst (hnew.others r hr)
    case ascending =>
      intro r' hr'
      rw [hid] at hr'
      obtain ⟨r, hr, hrident, -⟩ := hcarry.child (by decide) hr'
      rw [← congrArg StepIdent.reviewRound hrident]
      exact hnew.ascending r hr
    case closed =>
      intro w' hw'
      rw [hid] at hw'
      obtain ⟨w, hw, hwident, -⟩ := hcarry.child (by decide) hw'
      rw [← congrArg StepIdent.reviewRound hwident]
      exact hnew.closed w hw
    case reworked =>
      intro m hm
      obtain ⟨w, hw, hround, hst⟩ := hnew.reworked m hm
      obtain ⟨w', hw', hwident, hst'⟩ := hcarry.startedChild hw hst
      rw [hid]
      exact ⟨w', hw', by rw [congrArg StepIdent.reviewRound hwident, hround], hst'⟩
  · have hnew := hrework hw
    constructor
    case stepId =>
      rw [hid]
      exact hnew.stepId
    case bounded =>
      exact hnew.bounded
    case source =>
      obtain ⟨x, hx, hst, hround⟩ := hnew.source
      obtain ⟨x', hx', hxident, hst'⟩ := hcarry.startedChild hx hst
      rw [hid]
      exact ⟨x', hx', hst', by rw [congrArg StepIdent.reviewRound hxident, hround]⟩
    case waits =>
      intro r' hr' hpending
      rw [hid] at hr'
      obtain ⟨r, hr, hrident, hst⟩ := hcarry.child (by decide) hr'
      have hwait := hnew.waits r hr (by
        by_contra hne
        exact hst hne hpending)
      rw [← congrArg (fun i : StepIdent => i.stepId) hrident]
      exact hwait
    case verdict =>
      rw [congrArg StepIdent.seq hident]
      exact hnew.verdict
    case first =>
      intro w' hw'
      rw [hid] at hw'
      obtain ⟨w, hw, hwident, -⟩ := hcarry.child (by decide) hw'
      rw [← congrArg StepIdent.reviewRound hwident]
      exact hnew.first w hw

/-- The id of a row that fits is not the id of a minted row. -/
theorem Booked.fresh (h : Booked files taskId steps) (hkind : row.stepType = .review ∨ row.stepType = .rework)
    (hreview : row.stepType = .review → NewReview steps row content)
    (hrework : row.stepType = .rework → NewRework files taskId steps row content) {r : TeamStep} (hr : r ∈ steps)
    (htype : r.stepType = .review ∨ r.stepType = .rework) : r.stepId ≠ row.stepId := by
  obtain ⟨c, -, hparent, -⟩ := h.content r hr (by rcases htype with htype | htype <;> rw [htype] <;> decide)
  intro hid
  rcases htype with htype | htype
  · have hmem : r ∈ childrenOf steps c.stepId .review := mem_childrenOf.2 ⟨hr, htype, hparent⟩
    rw [h.reviewIds _ r hmem] at hid
    rcases hkind with hkind | hkind
    · rw [(hreview hkind).stepId] at hid
      obtain ⟨hc, -, hrank⟩ := reviewId_inj hid
      rw [hc] at hmem hrank
      -- the row itself is not before itself
      have hall := List.countP_eq_length.1 hrank r hmem
      simp at hall
    · rw [(hrework hkind).stepId] at hid
      exact reviewId_ne_reworkId _ _ _ _ _ hid
  · have hmem : r ∈ childrenOf steps c.stepId .rework := mem_childrenOf.2 ⟨hr, htype, hparent⟩
    rw [h.reworkIds _ r hmem] at hid
    rcases hkind with hkind | hkind
    · rw [(hreview hkind).stepId] at hid
      exact reviewId_ne_reworkId _ _ _ _ _ hid.symm
    · rw [(hrework hkind).stepId] at hid
      obtain ⟨hc, hround⟩ := reworkId_inj hid
      rw [hc] at hmem
      exact (hrework hkind).first r hmem hround

end Mint

end ProjectManager
