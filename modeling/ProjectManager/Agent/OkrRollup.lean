import ProjectManager.Agent.OkrAnalyzer

/-!
# What the OKR rollup promises

The documented rule of the rollup: the progress of an objective lies between those of its key results, and equal
weights count as soon as one weight is blank (`FollowsRule`).  The loop over the rows gathers the key results of each
objective (`mem_objectives`), and the progress of a key result is a percentage (`krProgress_percent`).

Two inputs break the rule.  Weights of both signs can push the weighted mean out of range, and a blank weight is not
seen when its key result has no progress (`rollup_breaks_rule`).  `Balanced` says exactly when neither shows
(`rollup_follows_rule_iff`); weights of one sign and no blank are enough (`balanced_of_one_sign`).
-/

namespace ProjectManager

/-! ### The key results of an objective -/

section Grouping

variable {py : PagePython} {epicProgress : String → Option EpicProgress} {rows : List OkrRow} {name : String}

/-- The key result of a row, unless the row is a problem. -/
def OkrRow.keyResult? (py : PagePython) (epicProgress : String → Option EpicProgress) (row : OkrRow) :
    Option KeyResult :=
  match parseWeight py row.weightCell with
  | none => none
  | some weight =>
      let epicKeys := parseEpicKeys py row.epicCell
      if epicKeys.isEmpty then none else some (rowKeyResult epicProgress row weight epicKeys)

/-- The key results of the rows of an objective. -/
def keyResultsOf (py : PagePython) (epicProgress : String → Option EpicProgress) (rows : List OkrRow)
    (name : String) : List KeyResult :=
  (rows.filter fun row => decide (row.objective = name)).filterMap (OkrRow.keyResult? py epicProgress)

/-- The key result of a row under the name of its objective. -/
def namedKeyResult (py : PagePython) (epicProgress : String → Option EpicProgress) (row : OkrRow) :
    Option (String × KeyResult) :=
  (row.keyResult? py epicProgress).map fun kr => (row.objective, kr)

theorem grouped_add (acc : OkrGroups) (row : OkrRow) :
    (acc.add py epicProgress row).grouped =
      ((namedKeyResult py epicProgress row).toList.foldl addKeyResult acc.grouped) := by
  unfold OkrGroups.add namedKeyResult OkrRow.keyResult?
  cases parseWeight py row.weightCell with
  | none => rfl
  | some weight =>
      dsimp only
      split <;> rfl

/-- The loop groups the key results by the names of their objectives. -/
theorem grouped_eq (rows : List OkrRow) (acc : OkrGroups) :
    (rows.foldl (OkrGroups.add py epicProgress) acc).grouped =
      (rows.filterMap (namedKeyResult py epicProgress)).foldl addKeyResult acc.grouped := by
  induction rows generalizing acc with
  | nil => rfl
  | cons row rows ih =>
      rw [List.foldl_cons, ih, grouped_add]
      cases h : namedKeyResult py epicProgress row with
      | none => rw [List.filterMap_cons_none h]; rfl
      | some x => rw [List.filterMap_cons_some h]; rfl

theorem named_filter (rows : List OkrRow) (name : String) :
    ((rows.filterMap (namedKeyResult py epicProgress)).filter fun x => decide (x.1 = name)).map Prod.snd =
      keyResultsOf py epicProgress rows name := by
  induction rows with
  | nil => rfl
  | cons row rows ih =>
      unfold keyResultsOf at ih ⊢
      cases h : row.keyResult? py epicProgress with
      | none =>
          rw [List.filterMap_cons_none (by simp [namedKeyResult, h]), ih, List.filter_cons]
          split
          · rw [List.filterMap_cons_none h]
          · rfl
      | some kr =>
          have hnamed : namedKeyResult py epicProgress row = some (row.objective, kr) := by
            simp [namedKeyResult, h]
          rw [List.filterMap_cons_some hnamed, List.filter_cons, List.filter_cons]
          split
          · rw [List.map_cons, ih, List.filterMap_cons_some h]
          · exact ih

/-- The groups of a list of named key results. -/
theorem gathered_keyResults (xs : List (String × KeyResult)) :
    gathered (fun _ => []) (fun krs (x : String × KeyResult) => krs ++ [x.2]) xs =
      if xs.map Prod.snd = [] then none else some (xs.map Prod.snd) := by
  induction xs using List.reverseRecOn with
  | nil => rfl
  | append_singleton xs x ih =>
      have hne : (xs ++ [x]).map Prod.snd ≠ [] := by
        rw [List.map_append]
        exact List.append_ne_nil_of_right_ne_nil _ (List.cons_ne_nil _ _)
      rw [gathered_append, ih, if_neg hne, List.map_append]
      by_cases hxs : xs.map Prod.snd = []
      · rw [if_pos hxs, hxs]
        rfl
      · rw [if_neg hxs]
        rfl

/-- The group of a name holds the key results of its rows. -/
theorem get?_grouped (rows : List OkrRow) (name : String) :
    (rows.foldl (OkrGroups.add py epicProgress) .init).grouped.get? name =
      if keyResultsOf py epicProgress rows name = [] then none
      else some (keyResultsOf py epicProgress rows name) := by
  rw [grouped_eq, ← named_filter]
  exact (get?_groupRows _ name).trans (gathered_keyResults _)

/-- The objectives are the names with a key result, each with all of its key results. -/
theorem mem_objectives {threshold : ℚ} {obj : Objective} :
    obj ∈ (buildObjectives py epicProgress rows threshold).objectives ↔
      keyResultsOf py epicProgress rows obj.name ≠ [] ∧
        obj = toObjective (obj.name, keyResultsOf py epicProgress rows obj.name) := by
  have hmem : ∀ name krs, (name, krs) ∈ (rows.foldl (OkrGroups.add py epicProgress) .init).grouped.entries ↔
      keyResultsOf py epicProgress rows name ≠ [] ∧ krs = keyResultsOf py epicProgress rows name := by
    intro name krs
    rw [OrderedMap.mem_entries, get?_grouped]
    split
    case isTrue h => simp [h]
    case isFalse h => simp [h, eq_comm]
  constructor
  · intro hobj
    obtain ⟨x, hx, rfl⟩ := List.mem_map.1 hobj
    obtain ⟨hne, hkrs⟩ := (hmem x.1 x.2).1 hx
    exact ⟨hne, congrArg (fun krs => toObjective (x.1, krs)) hkrs⟩
  · rintro ⟨hne, hobj⟩
    rw [hobj]
    exact List.mem_map_of_mem ((hmem _ _).2 ⟨hne, rfl⟩)

end Grouping

/-! ### The progress of a key result -/

/-- An entry of the epic progress: counts with `0 <= done <= total`, and a percentage. -/
structure EpicProgress.Valid (ep : EpicProgress) : Prop where
  total : ∀ n, ep.totalCount = some n → 0 ≤ n
  done : ∀ n m, ep.totalCount = some n → ep.doneCount = some m → 0 ≤ m ∧ m ≤ n
  percent : ∀ p, ep.progressPct = some p → 0 ≤ p ∧ p ≤ 100

theorem EpicProgress.Valid.counts {ep : EpicProgress} (h : ep.Valid) (hcounted : ep.counted = true) :
    0 ≤ ep.doneCount.getD 0 ∧ ep.doneCount.getD 0 ≤ ep.totalCount.getD 0 ∧ 0 < ep.totalCount.getD 0 := by
  unfold EpicProgress.counted at hcounted
  cases htotal : ep.totalCount with
  | none =>
      rw [htotal] at hcounted
      cases hcounted
  | some n =>
      rw [htotal, Option.any_some, decide_eq_true_eq] at hcounted
      have hn := h.total n htotal
      rw [Option.getD_some]
      cases hdone : ep.doneCount with
      | none =>
          rw [Option.getD_none]
          omega
      | some m =>
          have hm := h.done n m htotal hdone
          rw [Option.getD_some]
          omega

/-- A mean of percentages is a percentage. -/
theorem mean_percent {ι : Type} {l : List ι} {p : ι → ℚ} (hne : l ≠ []) (hp : ∀ x ∈ l, 0 ≤ p x ∧ p x ≤ 100) :
    0 ≤ Mean.mean l p ∧ Mean.mean l p ≤ 100 := by
  obtain ⟨x, hx, hle⟩ := Mean.exists_le_mean (p := p) hne
  obtain ⟨y, hy, hge⟩ := Mean.exists_mean_le (p := p) hne
  exact ⟨(hp x hx).1.trans hle, hge.trans (hp y hy).2⟩

/-- The counts of several epics add up to counts. -/
theorem sums_valid {counted : List EpicProgress} (h : ∀ ep ∈ counted, ep.Valid ∧ ep.counted = true) :
    0 ≤ (counted.map fun ep => ep.doneCount.getD 0).sum ∧
      (counted.map fun ep => ep.doneCount.getD 0).sum ≤ (counted.map fun ep => ep.totalCount.getD 0).sum := by
  induction counted with
  | nil => exact ⟨le_rfl, le_rfl⟩
  | cons ep counted ih =>
      rw [List.forall_mem_cons] at h
      have hep := h.1.1.counts h.1.2
      have hrest := ih h.2
      rw [List.map_cons, List.map_cons, List.sum_cons, List.sum_cons]
      omega

/-- What `_kr_progress` computes from valid entries is a percentage. -/
theorem krAggregate_percent {found : List EpicProgress} (hvalid : ∀ ep ∈ found, ep.Valid) {p : ℚ}
    (h : krAggregate found = some p) : 0 ≤ p ∧ p ≤ 100 := by
  unfold krAggregate at h
  dsimp only at h
  split at h
  case isTrue =>
    have hsums := @sums_valid (found.filter EpicProgress.counted) fun ep hep =>
      ⟨hvalid ep (List.mem_of_mem_filter hep), (List.mem_filter.1 hep).2⟩
    generalize ((found.filter EpicProgress.counted).map fun ep => ep.totalCount.getD 0).sum = total at h hsums
    generalize ((found.filter EpicProgress.counted).map fun ep => ep.doneCount.getD 0).sum = done at h hsums
    split at h
    case isTrue =>
      cases h
    case isFalse htotal =>
      obtain rfl := Option.some.inj h
      have hpos : (0 : ℚ) < total := by
        have : 0 < total := by omega
        exact_mod_cast this
      have hlo : (0 : ℚ) ≤ done := by exact_mod_cast hsums.1
      have hhi : (done : ℚ) ≤ total := by exact_mod_cast hsums.2
      constructor
      · positivity
      · rw [div_le_iff₀ hpos]
        linarith
  case isFalse =>
    split at h
    case isTrue =>
      cases h
    case isFalse hne =>
      obtain rfl := Option.some.inj h
      apply mean_percent fun hnil => hne (List.isEmpty_iff.2 hnil)
      intro p hp
      obtain ⟨ep, hep, hpct⟩ := List.mem_filterMap.1 hp
      exact (hvalid ep hep).percent p hpct

/-- The progress of a key result is a percentage. -/
theorem krProgress_percent {epicProgress : String → Option EpicProgress}
    (hvalid : ∀ key ep, epicProgress key = some ep → ep.Valid) {epicKeys : List String} {p : ℚ}
    (h : krProgress epicProgress epicKeys = some p) : 0 ≤ p ∧ p ≤ 100 := by
  unfold krProgress at h
  dsimp only at h
  split at h
  case isTrue =>
    cases h
  case isFalse =>
    apply krAggregate_percent _ h
    intro ep hep
    obtain ⟨key, -, hfound⟩ := List.mem_filterMap.1 hep
    exact hvalid key ep (Option.filter_eq_some_iff.1 hfound).1

theorem keyResultsOf_percent {py : PagePython} {epicProgress : String → Option EpicProgress}
    (hvalid : ∀ key ep, epicProgress key = some ep → ep.Valid) {rows : List OkrRow} {name : String} {kr : KeyResult}
    (hkr : kr ∈ keyResultsOf py epicProgress rows name) {p : ℚ} (hp : kr.progressPct = some p) : 0 ≤ p ∧ p ≤ 100 := by
  obtain ⟨row, -, hrow⟩ := List.mem_filterMap.1 hkr
  unfold OkrRow.keyResult? at hrow
  split at hrow
  · cases hrow
  · dsimp only at hrow
    split at hrow
    · cases hrow
    · obtain rfl := Option.some.inj hrow
      exact krProgress_percent hvalid hp

/-! ### The progress of an objective -/

/-- The documented rule for one objective. -/
structure FollowsRule (obj : Objective) : Prop where
  absent : obj.progressPct = none ↔ ∀ kr ∈ obj.keyResults, kr.progressPct = none
  least : ∀ q, obj.progressPct = some q → ∃ kr ∈ obj.keyResults, ∃ p, kr.progressPct = some p ∧ p ≤ q
  greatest : ∀ q, obj.progressPct = some q → ∃ kr ∈ obj.keyResults, ∃ p, kr.progressPct = some p ∧ q ≤ p
  percent : ∀ q, obj.progressPct = some q → 0 ≤ q ∧ q ≤ 100
  blank : (∃ kr ∈ obj.keyResults, kr.weight = none) →
    ∀ q, obj.progressPct = some q → q = Mean.mean (contributing obj.keyResults) Prod.snd

/-- The documented rule for the rollup. -/
structure RollupRule (threshold : ℚ) (rollup : OkrRollup) : Prop where
  follows : ∀ obj ∈ rollup.objectives, FollowsRule obj
  atRisk : ∀ name, name ∈ rollup.atRisk ↔
    ∃ obj ∈ rollup.objectives, obj.name = name ∧ ∃ q, obj.progressPct = some q ∧ q / 100 < threshold

/-- Where the weights decide: a blank weight of a key result without progress asks that the weights do not go along
with the progresses; otherwise the weights that oppose the total must not outweigh the others, seen from some progress
above and from some progress below. -/
def Balanced (krs : List KeyResult) : Prop :=
  let cs := contributing krs
  (∀ c ∈ cs, c.1 ≠ none) → Mean.totalWeight cs krWeight ≠ 0 →
    ((∃ kr ∈ krs, kr.weight = none) → Mean.moment cs krWeight Prod.snd (Mean.mean cs Prod.snd) = 0) ∧
    ((∀ kr ∈ krs, kr.weight ≠ none) →
      (∃ c ∈ cs, Mean.opposedPull cs krWeight Prod.snd c.2 ≤ Mean.agreedPull cs krWeight Prod.snd c.2) ∧
      ∃ c ∈ cs, Mean.agreedPull cs krWeight Prod.snd c.2 ≤ Mean.opposedPull cs krWeight Prod.snd c.2)

section Objective

variable {krs : List KeyResult} {name : String} {q : ℚ}

theorem mem_contributing {c : Option ℚ × ℚ} :
    c ∈ contributing krs ↔ ∃ kr ∈ krs, kr.weight = c.1 ∧ kr.progressPct = some c.2 := by
  unfold contributing
  rw [List.mem_filterMap]
  constructor
  · rintro ⟨kr, hkr, h⟩
    obtain ⟨p, hp, rfl⟩ := Option.map_eq_some_iff.1 h
    exact ⟨kr, hkr, rfl, hp⟩
  · rintro ⟨kr, hkr, hw, hp⟩
    exact ⟨kr, hkr, by rw [hp, hw]; rfl⟩

theorem contributing_eq_nil : contributing krs = [] ↔ ∀ kr ∈ krs, kr.progressPct = none := by
  rw [contributing, List.filterMap_eq_nil_iff]
  simp

/-- The three ways to compute the progress of an objective. -/
theorem objectiveProgress_cases (krs : List KeyResult) :
    (contributing krs = [] ∧ objectiveProgress krs = none) ∨
    (contributing krs ≠ [] ∧
        ((∃ c ∈ contributing krs, c.1 = none) ∨ Mean.totalWeight (contributing krs) krWeight = 0) ∧
        objectiveProgress krs = some (Mean.mean (contributing krs) Prod.snd)) ∨
    (contributing krs ≠ [] ∧ (∀ c ∈ contributing krs, c.1 ≠ none) ∧
        Mean.totalWeight (contributing krs) krWeight ≠ 0 ∧
        objectiveProgress krs = some (Mean.weighted (contributing krs) krWeight Prod.snd)) := by
  have hany : ((contributing krs).any fun kr => kr.1.isNone) = true ↔ ∃ c ∈ contributing krs, c.1 = none := by
    simp
  unfold objectiveProgress
  by_cases hnil : contributing krs = []
  · exact .inl ⟨hnil, by simp [hnil]⟩
  · refine .inr ?_
    simp only [List.isEmpty_eq_false_iff.2 hnil, Bool.false_eq_true, if_false, hany]
    by_cases hblank : ∃ c ∈ contributing krs, c.1 = none
    · exact .inl ⟨hnil, .inl hblank, if_pos hblank⟩
    · rw [if_neg hblank]
      by_cases hzero : Mean.totalWeight (contributing krs) krWeight = 0
      · exact .inl ⟨hnil, .inr hzero, if_pos hzero⟩
      · exact .inr ⟨hnil, fun c hc hnone => hblank ⟨c, hc, hnone⟩, hzero, if_neg hzero⟩

theorem objectiveProgress_eq_none : objectiveProgress krs = none ↔ ∀ kr ∈ krs, kr.progressPct = none := by
  rw [← contributing_eq_nil]
  obtain ⟨hnil, h⟩ | ⟨hne, -, h⟩ | ⟨hne, -, -, h⟩ := objectiveProgress_cases krs
  · simp [hnil, h]
  · simp [hne, h]
  · simp [hne, h]

/-- The rule, once the progress is known. -/
theorem followsRule_iff_some (hpercent : ∀ kr ∈ krs, ∀ p, kr.progressPct = some p → 0 ≤ p ∧ p ≤ 100)
    (hq : objectiveProgress krs = some q) :
    FollowsRule (toObjective (name, krs)) ↔
      (∃ c ∈ contributing krs, c.2 ≤ q) ∧ (∃ c ∈ contributing krs, q ≤ c.2) ∧
        ((∃ kr ∈ krs, kr.weight = none) → q = Mean.mean (contributing krs) Prod.snd) := by
  constructor
  · intro h
    obtain ⟨lo, hlo, p, hp, hle⟩ := h.least q hq
    obtain ⟨hi, hhi, p', hp', hge⟩ := h.greatest q hq
    exact ⟨⟨(lo.weight, p), mem_contributing.2 ⟨lo, hlo, rfl, hp⟩, hle⟩,
      ⟨(hi.weight, p'), mem_contributing.2 ⟨hi, hhi, rfl, hp'⟩, hge⟩, fun hblank => h.blank hblank q hq⟩
  · rintro ⟨⟨c, hc, hle⟩, ⟨d, hd, hge⟩, hmean⟩
    obtain ⟨lo, hlo, -, hp⟩ := mem_contributing.1 hc
    obtain ⟨hi, hhi, -, hp'⟩ := mem_contributing.1 hd
    have honly : ∀ r, objectiveProgress krs = some r → r = q := fun r hr => Option.some.inj (hr.symm.trans hq)
    constructor
    · exact objectiveProgress_eq_none
    · intro r hr
      rw [honly r hr]
      exact ⟨lo, hlo, c.2, hp, hle⟩
    · intro r hr
      rw [honly r hr]
      exact ⟨hi, hhi, d.2, hp', hge⟩
    · intro r hr
      rw [honly r hr]
      exact ⟨(hpercent lo hlo _ hp).1.trans hle, hge.trans (hpercent hi hhi _ hp').2⟩
    · intro hblank r hr
      rw [honly r hr]
      exact hmean hblank

/-- An objective follows the rule exactly when its weights are balanced. -/
theorem followsRule_iff (hpercent : ∀ kr ∈ krs, ∀ p, kr.progressPct = some p → 0 ≤ p ∧ p ≤ 100) :
    FollowsRule (toObjective (name, krs)) ↔ Balanced krs := by
  obtain ⟨hnil, h⟩ | ⟨hne, hplain, h⟩ | ⟨hne, hweights, hW, h⟩ := objectiveProgress_cases krs
  · -- nothing contributes
    have hrule : FollowsRule (toObjective (name, krs)) := by
      constructor
      · exact objectiveProgress_eq_none
      all_goals
        intros
        simp_all [toObjective]
    refine iff_of_true hrule ?_
    intro _ hW
    rw [hnil] at hW
    exact absurd rfl hW
  · -- the plain mean
    rw [followsRule_iff_some hpercent h]
    refine iff_of_true ⟨Mean.exists_le_mean hne, Mean.exists_mean_le hne, fun _ => rfl⟩ ?_
    intro hweights hW
    obtain ⟨c, hc, hnone⟩ | hzero := hplain
    · exact absurd hnone (hweights c hc)
    · exact absurd hzero hW
  · -- the weighted mean
    rw [followsRule_iff_some hpercent h]
    have hmean := Mean.weighted_eq_mean_iff (p := Prod.snd) hW
    constructor
    · rintro ⟨⟨c, hc, hle⟩, ⟨d, hd, hge⟩, hblank⟩ - -
      exact ⟨fun hkr => hmean.1 (hblank hkr), fun _ =>
        ⟨⟨c, hc, (Mean.le_weighted_iff hW).1 hle⟩, ⟨d, hd, (Mean.weighted_le_iff hW).1 hge⟩⟩⟩
    · intro hbalanced
      obtain ⟨hblank, hrange⟩ := hbalanced hweights hW
      by_cases hkr : ∃ kr ∈ krs, kr.weight = none
      · have hsame := hmean.2 (hblank hkr)
        rw [hsame]
        exact ⟨Mean.exists_le_mean hne, Mean.exists_mean_le hne, fun _ => rfl⟩
      · obtain ⟨⟨c, hc, hle⟩, d, hd, hge⟩ := hrange fun kr hmem hnone => hkr ⟨kr, hmem, hnone⟩
        exact ⟨⟨c, hc, (Mean.le_weighted_iff hW).2 hle⟩, ⟨d, hd, (Mean.weighted_le_iff hW).2 hge⟩,
          fun h => absurd h hkr⟩

/-- Weights of one sign, none of them blank, are balanced. -/
theorem balanced_of_one_sign (hblank : ∀ kr ∈ krs, kr.weight ≠ none)
    (hsign : (∀ kr ∈ krs, 0 ≤ kr.weight.getD 0) ∨ ∀ kr ∈ krs, kr.weight.getD 0 ≤ 0) : Balanced krs := by
  intro hweights hW
  have hne : contributing krs ≠ [] := by
    intro hnil
    rw [hnil] at hW
    exact hW rfl
  have hagree : ∀ c ∈ contributing krs,
      ¬ Mean.Opposed (Mean.totalWeight (contributing krs) krWeight) krWeight c := by
    apply Mean.not_opposed
    apply hsign.imp <;> intro h c hc
    all_goals
      obtain ⟨kr, hkr, hw, -⟩ := mem_contributing.1 hc
      have := h kr hkr
      rwa [hw] at this
  exact ⟨fun ⟨kr, hkr, hnone⟩ => absurd hnone (hblank kr hkr), fun _ =>
    ⟨Mean.exists_le_weighted_of_agree hne hagree, Mean.exists_weighted_le_of_agree hne hagree⟩⟩

end Objective

/-! ### The rollup -/

/-- The rollup follows its rule exactly when the weights of every objective are balanced. -/
theorem rollup_follows_rule_iff (py : PagePython) (epicProgress : String → Option EpicProgress)
    (hvalid : ∀ key ep, epicProgress key = some ep → ep.Valid) (rows : List OkrRow) (threshold : ℚ) :
    RollupRule threshold (buildObjectives py epicProgress rows threshold) ↔
      ∀ name, Balanced (keyResultsOf py epicProgress rows name) := by
  have hrule : ∀ name, FollowsRule (toObjective (name, keyResultsOf py epicProgress rows name)) ↔
      Balanced (keyResultsOf py epicProgress rows name) := fun name =>
    followsRule_iff fun kr hkr p hp => keyResultsOf_percent hvalid hkr hp
  constructor
  · intro h name
    by_cases hne : keyResultsOf py epicProgress rows name = []
    · rw [hne]
      exact fun _ hW => absurd rfl hW
    · exact (hrule name).1 (h.follows _ (mem_objectives.2 ⟨hne, rfl⟩))
  · intro h
    constructor
    · intro obj hobj
      obtain ⟨-, hobj⟩ := mem_objectives.1 hobj
      rw [hobj]
      exact (hrule _).2 (h _)
    · intro name
      have hbehind : ∀ obj : Objective, obj.behind threshold = true ↔
          ∃ q, obj.progressPct = some q ∧ q / 100 < threshold := by
        intro obj
        simp [Objective.behind, Option.any_eq_true]
      constructor
      · intro hname
        obtain ⟨obj, hobj, hobjName⟩ := List.mem_map.1 hname
        obtain ⟨hmem, hlow⟩ := List.mem_filter.1 hobj
        exact ⟨obj, hmem, hobjName, (hbehind obj).1 hlow⟩
      · rintro ⟨obj, hmem, rfl, hlow⟩
        exact List.mem_map_of_mem (List.mem_filter.2 ⟨hmem, (hbehind obj).2 hlow⟩)

/-! ### Two tables that break the rule -/

/-- Library functions that agree with the real ones on the cells of the sample tables. -/
def samplePagePython : PagePython where
  tokens := fun _ => []
  lower := id
  upper := id
  isDecimal := Char.isDigit
  parseFloat := fun s =>
    if s = "2" then some 2 else if s = "1" then some 1 else if s = "-1" then some (-1) else none
  repr := fun s => "'" ++ s ++ "'"

/-- One epic is done, another one has not begun. -/
def sampleEpics (key : String) : Option EpicProgress :=
  if key = "A-1" then
    some ⟨some 100, some 4, some 4, true⟩
  else if key = "B-1" then
    some ⟨some 0, some 0, some 5, true⟩
  else
    none

theorem sampleEpics_valid (key : String) (ep : EpicProgress) (h : sampleEpics key = some ep) : ep.Valid := by
  unfold sampleEpics at h
  split at h
  · obtain rfl := Option.some.inj h
    constructor <;> simp
  · split at h
    · obtain rfl := Option.some.inj h
      constructor <;> simp
    · cases h

/-- A table with one key result. -/
def sampleRows : List OkrRow :=
  [⟨"Grow", "Ship", "A-1", "2"⟩]

theorem rollup_follows_rule_sample :
    RollupRule (1 / 2) (buildObjectives samplePagePython sampleEpics sampleRows (1 / 2)) := by
  apply (rollup_follows_rule_iff samplePagePython sampleEpics sampleEpics_valid sampleRows (1 / 2)).2
  intro name
  have hrows : ∀ kr ∈ sampleRows.filterMap (OkrRow.keyResult? samplePagePython sampleEpics),
      kr.weight ≠ none ∧ 0 ≤ kr.weight.getD 0 := by
    decide +kernel
  have hsub : ∀ kr ∈ keyResultsOf samplePagePython sampleEpics sampleRows name,
      kr ∈ sampleRows.filterMap (OkrRow.keyResult? samplePagePython sampleEpics) := by
    intro kr hkr
    obtain ⟨row, hrow, h⟩ := List.mem_filterMap.1 hkr
    exact List.mem_filterMap.2 ⟨row, List.mem_of_mem_filter hrow, h⟩
  exact balanced_of_one_sign (fun kr hkr => (hrows kr (hsub kr hkr)).1)
    (.inl fun kr hkr => (hrows kr (hsub kr hkr)).2)

/-- The weights `2` and `-1` make 200 out of 100 and 0. -/
def opposedRows : List OkrRow :=
  [⟨"Grow", "Ship", "A-1", "2"⟩, ⟨"Grow", "Sell", "B-1", "-1"⟩]

/-- The third key result has a blank weight and no progress. -/
def blankRows : List OkrRow :=
  [⟨"Grow", "Ship", "A-1", "2"⟩, ⟨"Grow", "Sell", "B-1", "1"⟩, ⟨"Grow", "Hire", "C-1", ""⟩]

/-- Opposed weights leave the range, and a blank weight without a progress does not make the weights equal. -/
theorem rollup_breaks_rule :
    ¬ RollupRule (1 / 2) (buildObjectives samplePagePython sampleEpics opposedRows (1 / 2)) ∧
      ¬ RollupRule (1 / 2) (buildObjectives samplePagePython sampleEpics blankRows (1 / 2)) := by
  constructor
  · intro h
    have hout : ∃ obj ∈ (buildObjectives samplePagePython sampleEpics opposedRows (1 / 2)).objectives,
        obj.progressPct = some 200 := by
      decide +kernel
    obtain ⟨obj, hobj, hq⟩ := hout
    have := ((h.follows obj hobj).percent 200 hq).2
    norm_num at this
  · intro h
    have hmiss : ∃ obj ∈ (buildObjectives samplePagePython sampleEpics blankRows (1 / 2)).objectives,
        obj.progressPct = some (200 / 3) ∧ (∃ kr ∈ obj.keyResults, kr.weight = none) ∧
          Mean.mean (contributing obj.keyResults) Prod.snd = 50 := by
      decide +kernel
    obtain ⟨obj, hobj, hq, hblank, hmean⟩ := hmiss
    have := (h.follows obj hobj).blank hblank _ hq
    rw [hmean] at this
    norm_num at this

end ProjectManager
