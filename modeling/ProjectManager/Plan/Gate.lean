import Mathlib.Data.List.Forall2
import ProjectManager.Lib.Precedence
import ProjectManager.Plan.Decomposition

/-!
# The gate of a plan

`_acyclic` counts how many steps Kahn's algorithm takes off its stack; `acyclic_iff` says that the count is the number
of steps exactly when no step comes before itself, also when a step names another one twice.
-/

namespace ProjectManager

open Precedence Text

/-! ### Precedence of steps -/

/-- What the steps with an id depend on. -/
def prerequisites (steps : List StepFields) (id : String) : List String :=
  (steps.filter fun s => decide (s.stepId = id)).flatMap fun s => s.deps

/-- The step with the second id depends on the first. -/
def Feeds (steps : List StepFields) (id id' : String) : Prop :=
  id ∈ prerequisites steps id'

theorem feeds_iff {steps : List StepFields} {id id' : String} :
    Feeds steps id id' ↔ ∃ s ∈ steps, s.stepId = id' ∧ id ∈ s.deps := by
  simp only [Feeds, prerequisites, List.mem_flatMap, List.mem_filter, decide_eq_true_eq, and_assoc]

/-- The columns of the steps that the graph is made of. -/
def stepFields (steps : List TeamStepPlan) : List StepFields :=
  steps.map fun s => s.toStepFields

section Kahn

variable {steps : List TeamStepPlan} {done : List String} {st : KahnState} {fuel : ℕ} {u v : String}

/-- The ids of the steps. -/
def stepIds (steps : List TeamStepPlan) : List String :=
  steps.map fun s => s.stepId

/-- The in-degree of a step counts what it depends on, with repetitions. -/
theorem indegree_eq (steps : List TeamStepPlan) (id : String) :
    ((steps.filter fun s => decide (s.stepId = id)).map fun s => s.deps.length).sum =
      (prerequisites (stepFields steps) id).length := by
  unfold prerequisites stepFields
  rw [List.filter_map, List.flatMap_map, List.length_flatMap]
  rfl

/-- A step stands among the dependents of another as often as it names it. -/
theorem count_dependents (steps : List TeamStepPlan) (u v : String) :
    (dependents steps u).count v = (prerequisites (stepFields steps) v).count u := by
  induction steps with
  | nil =>
      rfl
  | cons s steps ih =>
      have hdependents : dependents (s :: steps) u =
          ((s.deps.filter fun d => decide (d = u)).map fun _ => s.stepId) ++ dependents steps u := by
        simp [dependents]
      rw [hdependents, List.count_append, ih]
      by_cases hv : s.stepId = v
      · have hneeds : prerequisites (stepFields (s :: steps)) v = s.deps ++ prerequisites (stepFields steps) v := by
          simp [prerequisites, stepFields, hv]
        rw [hneeds, List.count_append, hv, List.map_const', List.count_replicate_self, ← List.countP_eq_length_filter]
        rfl
      · have hneeds : prerequisites (stepFields (s :: steps)) v = prerequisites (stepFields steps) v := by
          simp [prerequisites, stepFields, hv]
        rw [hneeds, List.map_const', List.count_replicate]
        simp [hv]

/-! ### Edges out of a node -/

/-- The loop over the edges: each lowers an in-degree, and what comes to zero is pushed. -/
theorem foldl_relax (l : List String) (st : KahnState) (hle : ∀ v, l.count v ≤ st.indeg v) :
    (∀ v, (l.foldl relax st).indeg v = st.indeg v - l.count v) ∧ (l.foldl relax st).visited = st.visited ∧
      ∃ pushed : List String, (l.foldl relax st).stack = pushed ++ st.stack ∧ pushed.Nodup ∧
        ∀ v, v ∈ pushed ↔ v ∈ l ∧ st.indeg v = l.count v := by
  induction l generalizing st with
  | nil =>
      exact ⟨fun v => rfl, rfl, [], rfl, .nil, by simp⟩
  | cons u l ih =>
      have hself : (u :: l).count u = l.count u + 1 := List.count_cons_self
      have hother : ∀ v, v ≠ u → (u :: l).count v = l.count v := fun v hv => List.count_cons_of_ne hv.symm
      have hu : (relax st u).indeg u = st.indeg u - 1 := if_pos rfl
      have hv : ∀ v, v ≠ u → (relax st u).indeg v = st.indeg v := fun v hv => if_neg hv
      have hfirst : l.count u + 1 ≤ st.indeg u := hself ▸ hle u
      obtain ⟨hindeg, hvisited, pushed, hstack, hnodup, hpushed⟩ := ih (relax st u) (by
        intro v
        by_cases huv : v = u
        · rw [huv, hu]
          omega
        · rw [hv v huv, ← hother v huv]
          exact hle v)
      refine ⟨?_, hvisited, ?_⟩
      · intro v
        rw [List.foldl_cons, hindeg]
        by_cases huv : v = u
        · rw [huv, hu, hself]
          omega
        · rw [hv v huv, hother v huv]
      by_cases hzero : st.indeg u - 1 = 0
      · -- the last edge into `u`
        have hnot : u ∉ l := List.count_eq_zero.1 (by omega)
        refine ⟨pushed ++ [u], ?_, ?_, ?_⟩
        · rw [List.foldl_cons, hstack]
          simp [relax, hzero]
        · refine hnodup.append (by simp) ?_
          rw [List.disjoint_singleton]
          exact fun hmem => hnot ((hpushed u).1 hmem).1
        · intro v
          rw [List.mem_append, List.mem_singleton, hpushed, List.mem_cons]
          by_cases huv : v = u
          · rw [huv, hself, List.count_eq_zero.2 hnot]
            refine iff_of_true (.inr rfl) ⟨.inl rfl, ?_⟩
            omega
          · rw [hv v huv, hother v huv]
            simp [huv]
      · refine ⟨pushed, ?_, hnodup, ?_⟩
        · rw [List.foldl_cons, hstack]
          simp [relax, hzero]
        · intro v
          rw [hpushed, List.mem_cons]
          by_cases huv : v = u
          · rw [huv, hu, hself]
            constructor
            · rintro ⟨-, hcount⟩
              exact ⟨.inl rfl, by omega⟩
            · rintro ⟨-, hcount⟩
              exact ⟨List.count_pos_iff.1 (by omega), by omega⟩
          · rw [hv v huv, hother v huv]
            simp [huv]

/-- What is left of an in-degree when one more node is taken. -/
theorem countP_not_mem (hu : u ∉ done) (l : List String) :
    l.countP (fun d => d ∉ done) = l.countP (fun d => d ∉ u :: done) + l.count u := by
  induction l with
  | nil =>
      rfl
  | cons d l ih =>
      rw [List.countP_cons, List.countP_cons, List.count_cons, ih]
      by_cases hd : d = u
      · simp [hd, hu]
        omega
      · simp [hd]
        omega

/-! ### The loop -/

/-- The loop so far: `done` are the nodes taken off the stack, the last first. -/
structure KahnInv (steps : List TeamStepPlan) (done : List String) (st : KahnState) : Prop where
  nodup : (done ++ st.stack).Nodup
  mem : ∀ v ∈ done ++ st.stack, v ∈ stepIds steps
  /-- what is left of an in-degree -/
  indeg : ∀ v, st.indeg v = (prerequisites (stepFields steps) v).countP fun d => d ∉ done
  stacked : ∀ v ∈ stepIds steps, v ∈ done ++ st.stack ↔ st.indeg v = 0
  ordered : InOrder (prerequisites (stepFields steps)) done
  visited : st.visited = done.length

/-- The state in which the loop begins. -/
def kahnStart (steps : List TeamStepPlan) : KahnState :=
  let indeg := fun id => ((steps.filter fun s => decide (s.stepId = id)).map fun s => s.deps.length).sum
  ⟨((steps.map fun s => s.stepId).filter fun id => decide (indeg id = 0)).reverse, indeg, 0⟩

theorem kahnInv_start (hunique : (stepIds steps).Nodup) : KahnInv steps [] (kahnStart steps) where
  nodup := by
    rw [List.nil_append]
    exact List.nodup_reverse.2 (hunique.filter _)
  mem := by
    intro v hv
    rw [List.nil_append, kahnStart, List.mem_reverse] at hv
    exact (List.mem_filter.1 hv).1
  indeg := by
    intro v
    simp only [kahnStart, indegree_eq, List.not_mem_nil, not_false_eq_true, decide_true, List.countP_true]
  stacked := by
    intro v hv
    rw [List.nil_append, kahnStart, List.mem_reverse, List.mem_filter, decide_eq_true_iff]
    exact and_iff_right hv
  ordered := trivial
  visited := rfl

/-- One round of the loop. -/
theorem KahnInv.pop {rest : List String} (h : KahnInv steps done st) (hstack : st.stack = u :: rest) :
    KahnInv steps (u :: done) ((dependents steps u).foldl relax { st with stack := rest, visited := st.visited + 1 }) := by
  have hmem : u ∈ done ++ st.stack := by
    simp [hstack]
  have hu : u ∉ done := by
    intro hdone
    have hdisjoint := List.disjoint_of_nodup_append h.nodup
    exact hdisjoint hdone (by simp [hstack])
  -- an in-degree falls by the edges out of `u`
  have hcount : ∀ v, st.indeg v = (prerequisites (stepFields steps) v).countP (fun d => d ∉ u :: done) +
      (dependents steps u).count v := by
    intro v
    rw [h.indeg, count_dependents, countP_not_mem hu]
  obtain ⟨hindeg, hvisited, pushed, hpush, hnodup, hpushed⟩ :=
    foldl_relax (dependents steps u) { st with stack := rest, visited := st.visited + 1 } fun v => by
      have := hcount v
      dsimp only
      omega
  dsimp only at hindeg hvisited hpush hpushed
  have hperm : ((u :: done) ++ (pushed ++ rest)).Perm (pushed ++ (done ++ u :: rest)) := by
    rw [List.perm_iff_count]
    intro v
    simp only [List.count_append, List.count_cons]
    omega
  have hold : ∀ v, v ∈ done ++ u :: rest → st.indeg v = 0 := by
    intro v hv
    rw [← hstack] at hv
    exact (h.stacked v (h.mem v hv)).1 hv
  have hids : ∀ v ∈ dependents steps u, v ∈ stepIds steps := by
    intro v hv
    obtain ⟨s, hs, hv⟩ := List.mem_flatMap.1 hv
    obtain ⟨-, -, rfl⟩ := List.mem_map.1 hv
    exact List.mem_map_of_mem hs
  have hnew : ∀ v ∈ pushed, v ∈ dependents steps u ∧ 0 < st.indeg v := by
    intro v hv
    obtain ⟨hdep, heq⟩ := (hpushed v).1 hv
    have := List.count_pos_iff.2 hdep
    exact ⟨hdep, by omega⟩
  refine ⟨?_, ?_, ?_, ?_, ⟨?_, h.ordered⟩, ?_⟩
  · rw [hpush, hperm.nodup_iff, List.nodup_append']
    refine ⟨hnodup, hstack ▸ h.nodup, ?_⟩
    intro v hv hv'
    have := (hnew v hv).2
    have := hold v hv'
    omega
  · intro v hv
    rw [hpush, hperm.mem_iff, List.mem_append] at hv
    obtain hv | hv := hv
    · exact hids v (hnew v hv).1
    · exact h.mem v (hstack ▸ hv)
  · intro v
    rw [hindeg, hcount]
    omega
  · intro v hv
    rw [hpush, hperm.mem_iff, List.mem_append, hpushed, ← hstack, h.stacked v hv, hindeg]
    have := hcount v
    constructor
    · rintro (⟨-, heq⟩ | hzero) <;> omega
    · intro hzero
      by_cases hpos : st.indeg v = 0
      · exact .inr hpos
      · refine .inl ⟨?_, by omega⟩
        apply List.count_pos_iff.1
        omega
  · -- all that `u` depends on is done
    have hzero := hold u (by simp)
    rw [h.indeg, List.countP_eq_zero] at hzero
    intro d hd
    simpa using hzero d hd
  · rw [hvisited, h.visited]
    rfl

/-- The loop ends with an empty stack when it may take as many nodes as there are steps. -/
theorem KahnInv.loop (h : KahnInv steps done st) (hfuel : fuel + done.length = steps.length) :
    ∃ done' st', KahnInv steps done' st' ∧ st'.stack = [] ∧ kahnLoop steps fuel st = done'.length := by
  induction fuel generalizing done st with
  | zero =>
      refine ⟨done, st, h, ?_, h.visited⟩
      have hlen := (h.nodup.subperm h.mem).length_le
      rw [List.length_append, stepIds, List.length_map] at hlen
      apply List.length_eq_zero_iff.1
      omega
  | succ fuel ih =>
      cases hstack : st.stack with
      | nil =>
          refine ⟨done, st, h, hstack, ?_⟩
          simp only [kahnLoop, hstack]
          exact h.visited
      | cons u rest =>
          obtain ⟨done', st', hinv, hempty, heq⟩ := ih (h.pop hstack) (by
            rw [List.length_cons]
            omega)
          refine ⟨done', st', hinv, hempty, ?_⟩
          simp only [kahnLoop, hstack]
          exact heq

/-- The count is right: all steps are counted exactly when none comes before itself. -/
theorem acyclic_iff (hunique : (stepIds steps).Nodup) (hknown : ∀ s ∈ steps, ∀ d ∈ s.deps, d ∈ stepIds steps) :
    acyclic steps = true ↔ Acyclic (Feeds (stepFields steps)) := by
  obtain ⟨done, st, hinv, hempty, hcount⟩ := (kahnInv_start hunique).loop (Nat.add_zero steps.length)
  have hall : acyclic steps = true ↔ done.length = steps.length := by
    rw [← hcount]
    exact beq_iff_eq
  have hfeeds : ∀ id id', Feeds (stepFields steps) id id' → id ∈ stepIds steps ∧ id' ∈ stepIds steps := by
    intro id id' hid
    obtain ⟨s, hs, rfl, hdep⟩ := feeds_iff.1 hid
    obtain ⟨p, hp, rfl⟩ := List.mem_map.1 hs
    exact ⟨hknown p hp id hdep, List.mem_map_of_mem hp⟩
  have hnodup : done.Nodup := List.Nodup.of_append_left hinv.nodup
  have hsub : done ⊆ stepIds steps := fun v hv => hinv.mem v (List.mem_append_left _ hv)
  rw [hall]
  constructor
  · intro hlen
    have hperm : done.Perm (stepIds steps) := by
      apply (hnodup.subperm hsub).perm_of_length_le
      rw [stepIds, List.length_map, hlen]
    exact hinv.ordered.acyclic hnodup fun a b hb => hperm.mem_iff.2 (hfeeds b a hb).2
  · intro hacyclic
    have hlen := (hnodup.subperm hsub).length_le
    rw [stepIds, List.length_map] at hlen
    by_contra hne
    -- among the steps that were not taken one has nothing left to wait for
    have hleft : ((stepIds steps).filter fun v => v ∉ done) ≠ [] := by
      intro hnil
      have hcover : stepIds steps ⊆ done := by
        intro v hv
        have := List.filter_eq_nil_iff.1 hnil v hv
        simpa using this
      have := (hunique.subperm hcover).length_le
      rw [stepIds, List.length_map] at this
      omega
    obtain ⟨v, hv, hfirst⟩ := exists_first hacyclic hleft
    obtain ⟨hv, hnot⟩ := List.mem_filter.1 hv
    have hzero : st.indeg v = 0 := by
      rw [hinv.indeg, List.countP_eq_zero]
      intro d hd hwait
      exact hfirst d (List.mem_filter.2 ⟨(hfeeds d v hd).1, hwait⟩) hd
    have hstacked := (hinv.stacked v hv).2 hzero
    rw [hempty, List.append_nil] at hstacked
    simp [hstacked] at hnot

end Kahn

/-! ### Steps -/

section Shapes

variable {rt : Runtime} {raw : RawStep} {p : TeamStepPlan} {steps : List TeamStepPlan}

/-- What the graph is made of, before validation. -/
def RawStep.fields (raw : RawStep) : StepFields :=
  ⟨strip raw.stepId, strip raw.title, strip raw.assignedTo, raw.deps⟩

/-- The bounds of the fields, the title, and the types of steps that there are. -/
structure RawStep.WellShaped (raw : RawStep) : Prop where
  stepId : 1 ≤ raw.stepId.length ∧ raw.stepId.length ≤ 40
  title : 1 ≤ raw.title.length ∧ raw.title.length ≤ 300
  assignedTo : 1 ≤ raw.assignedTo.length ∧ raw.assignedTo.length ≤ 40
  acceptance : raw.acceptance.length ≤ 2000
  title_nonblank : strip raw.title ≠ ""
  stepType : strip raw.stepType ∈ ["", "work", "review", "rework"]

/-- A step of the work itself; a blank type means one. -/
def RawStep.IsWork (raw : RawStep) : Prop :=
  strip raw.stepType ∈ ["", "work"]

theorem lengthErrors_eq_nil {name : String} {lo hi : ℕ} {v : String} :
    lengthErrors name lo hi v = [] ↔ lo ≤ v.length ∧ v.length ≤ hi := by
  unfold lengthErrors
  split
  · rename_i hlo
    simp only [List.cons_ne_nil, false_iff]
    omega
  · split
    · rename_i hhi
      simp only [List.cons_ne_nil, false_iff]
      omega
    · simp only [true_iff]
      omega

theorem validStepType_ok {v : String} {t : StepType} :
    validStepType rt v = .ok t ↔ StepType.ofText (if strip v = "" then "work" else strip v) = some t := by
  unfold validStepType
  dsimp only
  split
  · rename_i t' ht
    simp [ht]
  · rename_i ht
    simp [ht]

theorem ofText_eq_some {v : String} {t : StepType} : StepType.ofText v = some t ↔ v = t.text := by
  constructor
  · intro h
    unfold StepType.ofText at h
    split at h <;> cases h <;> rfl
  · rintro rfl
    cases t <;> rfl

/-- The type that a raw step is read as, if it is one. -/
theorem exists_ofText {v : String} : (∃ t, StepType.ofText (if v = "" then "work" else v) = some t) ↔
    v ∈ ["", "work", "review", "rework"] := by
  simp only [ofText_eq_some, List.mem_cons, List.not_mem_nil, or_false]
  by_cases hv : v = ""
  · rw [if_pos hv]
    exact iff_of_true ⟨.work, rfl⟩ (.inl hv)
  · rw [if_neg hv]
    constructor
    · rintro ⟨_ | _ | _, rfl⟩ <;> simp [StepType.text]
    · rintro (rfl | rfl | rfl | rfl)
      · exact absurd rfl hv
      · exact ⟨.work, rfl⟩
      · exact ⟨.review, rfl⟩
      · exact ⟨.rework, rfl⟩

/-- What a validated step takes from its raw one. -/
structure TeamStepPlan.From (p : TeamStepPlan) (raw : RawStep) : Prop where
  fields : p.toStepFields = raw.fields
  stepType : StepType.ofText (if strip raw.stepType = "" then "work" else strip raw.stepType) = some p.stepType

/-- What is accepted is well shaped. -/
theorem TeamStepPlan.validate_sound (h : TeamStepPlan.validate rt raw = .ok p) : raw.WellShaped ∧ p.From raw := by
  have hfields := TeamStepPlan.validate_fields h
  unfold TeamStepPlan.validate at h
  dsimp only at h
  split at h
  · rename_i stepType herrors htype
    rw [validStepType_ok] at htype
    simp only [List.append_eq_nil_iff, lengthErrors_eq_nil] at herrors
    obtain ⟨⟨⟨hid, htitle⟩, hassigned⟩, hacceptance⟩ := herrors
    split at h
    · cases h
    · rename_i hblank
      obtain rfl := Except.ok.inj h
      exact ⟨⟨hid, htitle, hassigned, hacceptance.2, hblank, exists_ofText.1 ⟨_, htype⟩⟩, hfields, htype⟩
  · cases h
  · cases h

/-- What is well shaped is accepted. -/
theorem TeamStepPlan.validate_complete (rt : Runtime) (h : raw.WellShaped) : ∃ p, TeamStepPlan.validate rt raw = .ok p := by
  obtain ⟨t, ht⟩ := exists_ofText.2 h.stepType
  have herrors : lengthErrors "step_id" 1 40 raw.stepId ++ lengthErrors "title" 1 300 raw.title ++
      lengthErrors "assigned_to" 1 40 raw.assignedTo ++ lengthErrors "acceptance" 0 2000 raw.acceptance = [] := by
    simp only [List.append_eq_nil_iff, lengthErrors_eq_nil]
    exact ⟨⟨⟨h.stepId, h.title⟩, h.assignedTo⟩, Nat.zero_le _, h.acceptance⟩
  unfold TeamStepPlan.validate
  simp only [herrors, validStepType_ok.2 ht, h.title_nonblank, dite_false]
  exact ⟨_, rfl⟩

theorem TeamStepPlan.From.work_iff (h : p.From raw) : p.stepType = .work ↔ raw.IsWork := by
  have htext := ofText_eq_some.1 h.stepType
  unfold RawStep.IsWork
  by_cases hv : strip raw.stepType = ""
  · rw [if_pos hv] at htext
    refine iff_of_true ?_ (by simp [hv])
    cases hp : p.stepType <;> simp [hp, StepType.text] at htext ⊢
  · rw [if_neg hv] at htext
    rw [htext]
    cases p.stepType <;> decide

end Shapes

section Results

variable {ε α β : Type}

theorem bind_ok_iff {x : Except ε α} {f : α → Except ε β} {b : β} :
    (x >>= f) = .ok b ↔ ∃ a, x = .ok a ∧ f a = .ok b := by
  cases x <;> simp [bind, Except.bind]

/-- A list of results is one result for each element. -/
theorem mapM_ok_iff {f : α → Except ε β} {xs : List α} {ys : List β} :
    xs.mapM f = .ok ys ↔ List.Forall₂ (fun x y => f x = .ok y) xs ys := by
  induction xs generalizing ys with
  | nil =>
      rw [List.forall₂_nil_left_iff, List.mapM_nil]
      exact ⟨fun h => (Except.ok.inj h).symm, fun h => congrArg Except.ok h.symm⟩
  | cons x xs ih =>
      rw [List.mapM_cons, List.forall₂_cons_left_iff]
      simp only [bind_ok_iff, ih]
      constructor
      · rintro ⟨y, hy, ys', hys', heq⟩
        exact ⟨y, ys', hy, hys', (Except.ok.inj heq).symm⟩
      · rintro ⟨y, ys', hy, hys', rfl⟩
        exact ⟨y, hy, ys', hys', rfl⟩

theorem forall₂_iff {R : α → β → Prop} {p : α → Prop} {q : β → Prop} {xs : List α} {ys : List β} (h : List.Forall₂ R xs ys)
    (hiff : ∀ x y, R x y → (p x ↔ q y)) : (∀ x ∈ xs, p x) ↔ ∀ y ∈ ys, q y := by
  induction h with
  | nil =>
      simp
  | cons hR _ ih =>
      rw [List.forall_mem_cons, List.forall_mem_cons, hiff _ _ hR, ih]

theorem forall₂_map_eq {γ : Type} {R : α → β → Prop} {f : α → γ} {g : β → γ} {xs : List α} {ys : List β}
    (h : List.Forall₂ R xs ys) (heq : ∀ x y, R x y → g y = f x) : ys.map g = xs.map f := by
  induction h with
  | nil =>
      rfl
  | cons hR _ ih =>
      rw [List.map_cons, List.map_cons, heq _ _ hR, ih]

end Results

/-! ### Plans -/

section Plans

variable {rt : Runtime} {steps : List TeamStepPlan} {approval : Bool} {picId : String} {task : DecomposedTask}

/-- `DecomposedTask.model_validate`. -/
def DecomposedTask.modelValidate (rt : Runtime) (raw : RawTask) : Except (List String) DecomposedTask := do
  let steps ← raw.steps.mapM (TeamStepPlan.validate rt)
  DecomposedTask.validate rt steps raw.requiresApproval raw.picId

theorem firstError_eq_none {check : TeamStepPlan → Option String} :
    firstError check steps = none ↔ ∀ s ∈ steps, check s = none :=
  List.findSome?_eq_none_iff

theorem firstRepeated_eq_none {l seen : List String} (hnodup : l.Nodup) (hnew : ∀ x ∈ l, x ∉ seen) :
    firstRepeated seen l = none := by
  induction l generalizing seen with
  | nil =>
      rfl
  | cons x rest ih =>
      obtain ⟨hx, hrest⟩ := List.nodup_cons.1 hnodup
      simp only [firstRepeated]
      rw [if_neg (hnew x List.mem_cons_self)]
      apply ih hrest
      intro y hy hseen
      obtain rfl | hseen := List.mem_cons.1 hseen
      · exact hx hy
      · exact hnew y (List.mem_cons_of_mem _ hy) hseen

/-- The checks of a `DecomposedTask` on its steps. -/
structure Consistent (steps : List TeamStepPlan) : Prop where
  nonempty : steps ≠ []
  bounded : steps.length ≤ maxSteps
  unique : (stepIds steps).Nodup
  known : ∀ s ∈ steps, ∀ d ∈ s.deps, d ∈ stepIds steps
  irreflexive : ∀ s ∈ steps, s.stepId ∉ s.deps
  work : ∀ s ∈ steps, s.stepType = .work

theorem DecomposedTask.consistent (task : DecomposedTask) : Consistent task.steps :=
  ⟨task.nonempty, task.bounded, task.unique, task.known, task.irreflexive, task.work⟩

/-- The plan that is built from consistent steps. -/
theorem DecomposedTask.validate_complete (rt : Runtime) (h : Consistent steps) (approval : Bool) (picId : String) :
    ∃ task, DecomposedTask.validate rt steps approval picId = .ok task ∧ task.steps = steps ∧
      task.requiresApproval = approval ∧ task.picId = strip picId := by
  have hdeps : firstError (depsError rt (steps.map fun s => s.stepId)) steps = none := by
    rw [firstError_eq_none]
    intro s hs
    have hknown : (s.deps.filter fun d => d ∉ steps.map fun s => s.stepId) = [] := by
      rw [List.filter_eq_nil_iff]
      intro d hd
      rw [decide_eq_true_iff, not_not]
      exact h.known s hs d hd
    unfold depsError
    simp only [hknown, h.irreflexive s hs, ne_eq, not_true_eq_false, if_false]
  have hrepeated : firstRepeated [] (steps.map fun s => s.stepId) = none :=
    firstRepeated_eq_none h.unique fun _ _ => List.not_mem_nil
  have htype : firstError (stepTypeError rt) steps = none := by
    rw [firstError_eq_none]
    intro s hs
    unfold stepTypeError
    rw [if_neg (not_not.2 (h.work s hs))]
  unfold DecomposedTask.validate
  rw [dif_neg h.nonempty, dif_neg (Nat.not_lt.2 h.bounded)]
  split
  · rename_i id hid
    rw [hrepeated] at hid
    cases hid
  split
  · rename_i msg hmsg
    rw [hdeps] at hmsg
    cases hmsg
  split
  · rename_i msg hmsg
    rw [htype] at hmsg
    cases hmsg
  · exact ⟨_, rfl, rfl, rfl, rfl⟩

theorem DecomposedTask.validate_fields (h : DecomposedTask.validate rt steps approval picId = .ok task) :
    task.requiresApproval = approval ∧ task.picId = strip picId := by
  have hsteps := DecomposedTask.validate_steps h
  obtain ⟨task', htask', -, hfields⟩ := DecomposedTask.validate_complete rt (hsteps ▸ task.consistent) approval picId
  obtain rfl : task' = task := Except.ok.inj (htask'.symm.trans h)
  exact hfields

end Plans

/-! ### The last step -/

section LastStep

variable {plan : List StepFields} {steps : List TeamStepPlan} {pic : String}

/-- Nothing of the plan depends on the step. -/
def Terminal (plan : List StepFields) (s : StepFields) : Prop :=
  ∀ t ∈ plan, s.stepId ∉ t.deps

/-- The step is the only one that nothing depends on, and it belongs to the person in charge. -/
structure LastStep (plan : List StepFields) (pic : String) (last : StepFields) : Prop where
  mem : last ∈ plan
  inCharge : last.assignedTo = pic
  terminal_iff : ∀ s ∈ plan, Terminal plan s ↔ s = last

theorem terminal_stepFields {p : TeamStepPlan} :
    Terminal (stepFields steps) p.toStepFields ↔ p.stepId ∉ steps.flatMap fun s => s.deps := by
  simp only [Terminal, stepFields, List.forall_mem_map, List.mem_flatMap, not_exists, not_and]

theorem validatePicTerminal_ok (hunique : (stepIds steps).Nodup) :
    validatePicTerminal steps pic = .ok () ↔ ∃ last, LastStep (stepFields steps) pic last := by
  have hinj : ∀ p ∈ steps, ∀ q ∈ steps, p.stepId = q.stepId → p = q := fun p hp q hq heq =>
    List.inj_on_of_nodup_map hunique hp hq heq
  have hmem : ∀ p, p ∈ steps.filter (fun s => s.stepId ∉ steps.flatMap fun s => s.deps) ↔
      p ∈ steps ∧ Terminal (stepFields steps) p.toStepFields := by
    intro p
    rw [List.mem_filter, decide_eq_true_iff, terminal_stepFields]
  constructor
  · intro h
    unfold validatePicTerminal at h
    dsimp only at h
    split at h
    · rename_i last hfilter
      split at h
      · cases h
      rename_i hassigned
      rw [hfilter] at hmem
      obtain ⟨hlast, -⟩ := (hmem last).1 List.mem_cons_self
      refine ⟨last.toStepFields, List.mem_map_of_mem hlast, not_not.1 hassigned, ?_⟩
      intro s hs
      obtain ⟨p, hp, rfl⟩ := List.mem_map.1 hs
      constructor
      · intro hterminal
        rw [List.mem_singleton.1 ((hmem p).2 ⟨hp, hterminal⟩)]
      · intro heq
        rw [hinj p hp last hlast (congrArg StepFields.stepId heq)]
        exact ((hmem last).1 List.mem_cons_self).2
    · cases h
  · rintro ⟨last, hlast⟩
    obtain ⟨p, hp, rfl⟩ := List.mem_map.1 hlast.mem
    have hfilter : steps.filter (fun s => s.stepId ∉ steps.flatMap fun s => s.deps) = [p] := by
      rw [← List.perm_singleton, List.perm_ext_iff_of_nodup ((List.Nodup.of_map _ hunique).filter _) (List.nodup_singleton p)]
      intro q
      rw [hmem, List.mem_singleton]
      constructor
      · rintro ⟨hq, hterminal⟩
        have heq := (hlast.terminal_iff _ (List.mem_map_of_mem hq)).1 hterminal
        exact hinj q hq p hp (congrArg StepFields.stepId heq)
      · rintro rfl
        exact ⟨hp, (hlast.terminal_iff _ hlast.mem).2 rfl⟩
    unfold validatePicTerminal
    simp only [hfilter]
    rw [if_neg (not_not.2 hlast.inCharge)]

/-- Without a cycle every step leads to the only last one. -/
theorem LastStep.reached {last : StepFields} (h : LastStep plan pic last) (hacyclic : Acyclic (Feeds plan)) {s : StepFields}
    (hs : s ∈ plan) : Relation.ReflTransGen (Feeds plan) s.stepId last.stepId := by
  have hmem : ∀ a b, Feeds plan a b → b ∈ plan.map fun t => t.stepId := by
    intro a b hab
    obtain ⟨t, ht, rfl, -⟩ := feeds_iff.1 hab
    exact List.mem_map_of_mem ht
  obtain ⟨b, hb, hreach, hend⟩ := exists_end hacyclic hmem (List.mem_map_of_mem (f := fun t => t.stepId) hs)
  obtain ⟨t, ht, rfl⟩ := List.mem_map.1 hb
  have hterminal : Terminal plan t := fun t' ht' hdep => hend t'.stepId (feeds_iff.2 ⟨t', ht', rfl, hdep⟩)
  rw [← (h.terminal_iff t ht).1 hterminal]
  exact hreach

end LastStep

/-! ### The gate -/

section Gate

variable {rt : Runtime} {raw : RawTask} {task task' : DecomposedTask} {staff : List String} {picId : Option String}

theorem unauthorized_eq_nil {steps : List TeamStepPlan} :
    unauthorized steps staff = [] ↔ ∀ s ∈ steps, s.assignedTo ∈ staff := by
  have hmem : ∀ a, a ∈ unauthorized steps staff ↔ a ∈ steps.map (fun s => s.assignedTo) ∧ a ∉ staff := by
    intro a
    simp only [unauthorized, List.mem_insertionSort, List.mem_dedup, List.mem_filter, decide_eq_true_eq]
  rw [List.eq_nil_iff_forall_not_mem]
  simp only [hmem, List.mem_map, not_and, not_not, forall_exists_index, and_imp, forall_apply_eq_imp_iff₂]

/-- The gate lets a plan through exactly when it has no cycle, its assignees are staff, and the person in charge is,
and has the last step. -/
theorem validateDecomposition_ok : validateDecomposition rt task staff picId = .ok task' ↔
    Acyclic (Feeds (stepFields task.steps)) ∧ (∀ s ∈ task.steps, s.assignedTo ∈ staff) ∧
    (effectivePic task picId ≠ "" → effectivePic task picId ∈ staff ∧
      ∃ last, LastStep (stepFields task.steps) (effectivePic task picId) last) ∧
    task' = { task with picId := effectivePic task picId } := by
  rw [← acyclic_iff task.unique task.known, ← unauthorized_eq_nil, ← validatePicTerminal_ok task.unique]
  have hbounds : 1 ≤ task.steps.length ∧ task.steps.length ≤ maxSteps :=
    ⟨List.length_pos_iff.2 task.nonempty, task.bounded⟩
  unfold validateDecomposition
  rw [if_neg (not_not.2 hbounds)]
  by_cases hacyclic : acyclic task.steps = true
  swap
  · simp [hacyclic]
  by_cases hstaff : unauthorized task.steps staff = []
  swap
  · simp [hacyclic, hstaff]
  by_cases hblank : effectivePic task picId = ""
  · simp only [hacyclic, hstaff, hblank]
    simp [eq_comm]
  by_cases hpic : effectivePic task picId ∈ staff
  swap
  · simp [hacyclic, hstaff, hblank, hpic]
  cases hterminal : validatePicTerminal task.steps (effectivePic task picId) with
  | error msg =>
      simp [hacyclic, hstaff, hblank, hpic]
  | ok u =>
      simp [hacyclic, hstaff, hblank, hpic, eq_comm]

/-- The steps of a proposal, stripped. -/
def RawTask.plan (raw : RawTask) : List StepFields :=
  raw.steps.map RawStep.fields

/-- The person in charge: the one the CEO named, else the proposal's own. -/
def RawTask.pic (raw : RawTask) (picId : Option String) : String :=
  strip (picId.getD raw.picId)

/-- The proposal becomes this plan: the constructor accepts it and the gate lets it through. -/
def Accepts (rt : Runtime) (raw : RawTask) (staff : List String) (picId : Option String) (task : DecomposedTask) : Prop :=
  ∃ proposed, DecomposedTask.modelValidate rt raw = .ok proposed ∧
    validateDecomposition rt proposed staff picId = .ok task

/-- What a proposal must be. -/
structure Acceptable (raw : RawTask) (staff : List String) (picId : Option String) : Prop where
  count : 1 ≤ raw.steps.length ∧ raw.steps.length ≤ 7
  shaped : ∀ s ∈ raw.steps, s.WellShaped
  distinct : (raw.plan.map fun s => s.stepId).Nodup
  known : ∀ s ∈ raw.plan, ∀ d ∈ s.deps, d ≠ s.stepId ∧ ∃ t ∈ raw.plan, t.stepId = d
  acyclic : Acyclic (Feeds raw.plan)
  work : ∀ s ∈ raw.steps, s.IsWork
  staffed : ∀ s ∈ raw.plan, s.assignedTo ∈ staff
  inCharge : raw.pic picId ≠ "" → raw.pic picId ∈ staff ∧ ∃ last, LastStep raw.plan (raw.pic picId) last

/-- What the constructor makes of a proposal. -/
theorem modelValidate_ok (picId : Option String) (h : DecomposedTask.modelValidate rt raw = .ok task) :
    List.Forall₂ (fun r p => TeamStepPlan.validate rt r = .ok p) raw.steps task.steps ∧
      stepFields task.steps = raw.plan ∧ effectivePic task picId = raw.pic picId := by
  obtain ⟨steps, hsteps, htask⟩ := bind_ok_iff.1 h
  rw [mapM_ok_iff] at hsteps
  have hsame := DecomposedTask.validate_steps htask
  refine ⟨hsame ▸ hsteps, ?_, ?_⟩
  · rw [hsame]
    exact forall₂_map_eq hsteps fun r p hp => TeamStepPlan.validate_fields hp
  · cases picId with
    | none =>
        exact (DecomposedTask.validate_fields htask).2
    | some id =>
        rfl

theorem exists_steps (rt : Runtime) {raws : List RawStep} (h : ∀ s ∈ raws, s.WellShaped) :
    ∃ steps, List.Forall₂ (fun r p => TeamStepPlan.validate rt r = .ok p) raws steps := by
  induction raws with
  | nil =>
      exact ⟨[], .nil⟩
  | cons r rs ih =>
      obtain ⟨p, hp⟩ := TeamStepPlan.validate_complete rt (h r List.mem_cons_self)
      obtain ⟨ps, hps⟩ := ih fun s hs => h s (List.mem_cons_of_mem _ hs)
      exact ⟨p :: ps, .cons hp hps⟩

/-- The checks of the constructor, read off the proposal. -/
theorem consistent_iff {steps : List TeamStepPlan}
    (hsteps : List.Forall₂ (fun r p => TeamStepPlan.validate rt r = .ok p) raw.steps steps) :
    Consistent steps ↔ (1 ≤ raw.steps.length ∧ raw.steps.length ≤ 7) ∧ (raw.plan.map fun s => s.stepId).Nodup ∧
      (∀ s ∈ raw.plan, ∀ d ∈ s.deps, d ≠ s.stepId ∧ ∃ t ∈ raw.plan, t.stepId = d) ∧ ∀ s ∈ raw.steps, s.IsWork := by
  have hplan : stepFields steps = raw.plan := forall₂_map_eq hsteps fun r p hp => TeamStepPlan.validate_fields hp
  have hwork : (∀ s ∈ raw.steps, s.IsWork) ↔ ∀ p ∈ steps, p.stepType = .work :=
    forall₂_iff hsteps fun r p hp => (TeamStepPlan.validate_sound hp).2.work_iff.symm
  have hids : raw.plan.map (fun s => s.stepId) = stepIds steps := by
    rw [← hplan, stepFields, List.map_map]
    rfl
  have hknown : ∀ d, (∃ t ∈ raw.plan, t.stepId = d) ↔ d ∈ stepIds steps := by
    intro d
    rw [← hids, List.mem_map]
  simp only [hknown]
  rw [hids, hwork, ← hplan, hsteps.length_eq]
  simp only [stepFields, List.forall_mem_map]
  constructor
  · intro h
    refine ⟨⟨List.length_pos_iff.2 h.nonempty, h.bounded⟩, h.unique, ?_, h.work⟩
    intro s hs d hd
    refine ⟨?_, h.known s hs d hd⟩
    rintro rfl
    exact h.irreflexive s hs hd
  · rintro ⟨⟨hpos, hmax⟩, hunique, hknown, hwork⟩
    exact ⟨List.length_pos_iff.1 hpos, hmax, hunique, fun s hs d hd => (hknown s hs d hd).2,
      fun s hs hself => (hknown s hs _ hself).1 rfl, hwork⟩

theorem forall_assigned {steps : List TeamStepPlan} :
    (∀ s ∈ stepFields steps, s.assignedTo ∈ staff) ↔ ∀ p ∈ steps, p.assignedTo ∈ staff := by
  simp only [stepFields, List.forall_mem_map]

theorem Accepts.acceptable (h : Accepts rt raw staff picId task) : Acceptable raw staff picId := by
  obtain ⟨proposed, hproposed, hgate⟩ := h
  obtain ⟨hsteps, hplan, hpic⟩ := modelValidate_ok picId hproposed
  obtain ⟨hacyclic, hstaff, hcharge, -⟩ := validateDecomposition_ok.1 hgate
  rw [hplan] at hacyclic hcharge
  rw [hpic] at hcharge
  rw [← forall_assigned, hplan] at hstaff
  obtain ⟨hcount, hdistinct, hknown, hwork⟩ := (consistent_iff hsteps).1 proposed.consistent
  have hshaped : ∀ s ∈ raw.steps, s.WellShaped :=
    (forall₂_iff hsteps fun r p hp => iff_of_true (TeamStepPlan.validate_sound hp).1 trivial).2 fun _ _ => trivial
  exact ⟨hcount, hshaped, hdistinct, hknown, hacyclic, hwork, hstaff, hcharge⟩

theorem Acceptable.accepts (rt : Runtime) (h : Acceptable raw staff picId) : ∃ task, Accepts rt raw staff picId task := by
  obtain ⟨steps, hsteps⟩ := exists_steps rt h.shaped
  have hcons := (consistent_iff hsteps).2 ⟨h.count, h.distinct, h.known, h.work⟩
  obtain ⟨task, htask, -⟩ := DecomposedTask.validate_complete rt hcons raw.requiresApproval raw.picId
  have hmodel : DecomposedTask.modelValidate rt raw = .ok task := bind_ok_iff.2 ⟨steps, mapM_ok_iff.2 hsteps, htask⟩
  obtain ⟨-, hplan, hpic⟩ := modelValidate_ok picId hmodel
  refine ⟨_, task, hmodel, validateDecomposition_ok.2 ⟨?_, ?_, ?_, rfl⟩⟩
  · rw [hplan]
    exact h.acyclic
  · rw [← forall_assigned, hplan]
    exact h.staffed
  · rw [hplan, hpic]
    exact h.inCharge

/-- An accepted plan has the steps of its proposal, and the person in charge. -/
theorem Accepts.plan (h : Accepts rt raw staff picId task) :
    stepFields task.steps = raw.plan ∧ task.picId = raw.pic picId := by
  obtain ⟨proposed, hproposed, hgate⟩ := h
  obtain ⟨-, hplan, hpic⟩ := modelValidate_ok picId hproposed
  obtain ⟨-, -, -, rfl⟩ := validateDecomposition_ok.1 hgate
  exact ⟨hplan, hpic⟩

end Gate

end ProjectManager
