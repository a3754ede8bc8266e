import ProjectManager.Lib.Grouping
import ProjectManager.Lib.WeightedMean
import ProjectManager.Tools.ConfluenceRead

/-!
# The OKR rollup

`build_objectives` turns the rows of the OKR table and the progress of the epics into objectives.
-/

namespace ProjectManager

/-- The progress of an epic, counted from its child issues. -/
structure EpicProgress where
  progressPct : Option ℚ
  doneCount : Option ℤ
  totalCount : Option ℤ
  found : Bool
deriving DecidableEq, Repr

/-- A key result of an objective; no weight stands for a blank cell. -/
structure KeyResult where
  description : String
  epicKeys : List String
  weight : Option ℚ
  progressPct : Option ℚ
deriving DecidableEq, Repr

/-- An objective with its key results. -/
structure Objective where
  name : String
  keyResults : List KeyResult
  progressPct : Option ℚ
deriving DecidableEq, Repr

/-- What the rollup returns. -/
structure OkrRollup where
  objectives : List Objective
  problems : List OkrProblem
  atRisk : List String
deriving DecidableEq, Repr

section Rollup

variable (py : PagePython) (epicProgress : String → Option EpicProgress)

/-! ### One key result -/

/-- The entry of an epic that has been found. -/
def foundEpic (key : String) : Option EpicProgress :=
  (epicProgress key).filter EpicProgress.found

/-- The problem of an epic that has not. -/
def missingEpic (rowLabel key : String) : OkrProblem where
  row := rowLabel
  reason := "epic " ++ key ++ " không tồn tại / không có child"

/-- The problems that `_kr_progress` records. -/
def krProblems (rowLabel : String) (epicKeys : List String) : List OkrProblem :=
  (epicKeys.filter fun key => (foundEpic epicProgress key).isNone).map (missingEpic rowLabel)

/-- `total_count` when it counts as true. -/
def EpicProgress.counted (ep : EpicProgress) : Bool :=
  ep.totalCount.any fun n => decide (n ≠ 0)

/-- What `_kr_progress` computes from the epics that are found. -/
def krAggregate (found : List EpicProgress) : Option ℚ :=
  let counted := found.filter EpicProgress.counted
  if counted.length = found.length then
    let total := (counted.map fun ep => ep.totalCount.getD 0).sum
    let done := (counted.map fun ep => ep.doneCount.getD 0).sum
    if total = 0 then none else some (100 * done / total)
  else
    let pcts := found.filterMap EpicProgress.progressPct
    if pcts.isEmpty then none else some (Mean.mean pcts id)

/-- `_kr_progress` -/
def krProgress (epicKeys : List String) : Option ℚ :=
  let found := epicKeys.filterMap (foundEpic epicProgress)
  if found.isEmpty then none else krAggregate found

/-! ### One objective -/

/-- The weight and the progress of the key results that have a progress. -/
def contributing (krs : List KeyResult) : List (Option ℚ × ℚ) :=
  krs.filterMap fun kr => kr.progressPct.map fun p => (kr.weight, p)

/-- The weight of a contributing key result that is not blank. -/
def krWeight (kr : Option ℚ × ℚ) : ℚ :=
  kr.1.getD 0

/-- `_objective_progress` -/
def objectiveProgress (krs : List KeyResult) : Option ℚ :=
  let krs := contributing krs
  if krs.isEmpty then
    none
  else if krs.any fun kr => kr.1.isNone then
    some (Mean.mean krs Prod.snd)
  else if Mean.totalWeight krs krWeight = 0 then
    some (Mean.mean krs Prod.snd)
  else
    some (Mean.weighted krs krWeight Prod.snd)

/-! ### The rollup -/

/-- The label of a row in its problems. -/
def OkrRow.label (row : OkrRow) : String :=
  row.objective ++ " | " ++ row.keyResult

/-- What the loop over the rows has collected. -/
structure OkrGroups where
  problems : List OkrProblem
  grouped : OrderedMap String (List KeyResult)

/-- The loop before its first row. -/
def OkrGroups.init : OkrGroups where
  problems := []
  grouped := .empty

/-- The key result of a row whose weight and epic keys can be read. -/
def rowKeyResult (row : OkrRow) (weight : Option ℚ) (epicKeys : List String) : KeyResult where
  description := row.keyResult
  epicKeys := epicKeys
  weight := weight
  progressPct := krProgress epicProgress epicKeys

/-- Appends a key result to the list of its objective. -/
def addKeyResult : OrderedMap String (List KeyResult) → String × KeyResult → OrderedMap String (List KeyResult) :=
  groupRow Prod.fst (fun _ => []) fun krs x => krs ++ [x.2]

/-- One round of the loop over the rows. -/
def OkrGroups.add (acc : OkrGroups) (row : OkrRow) : OkrGroups :=
  match parseWeight py row.weightCell with
  | none =>
      { acc with problems := acc.problems ++ [⟨row.label, "weight không hợp lệ: " ++ py.repr row.weightCell⟩] }
  | some weight =>
      let epicKeys := parseEpicKeys py row.epicCell
      if epicKeys.isEmpty then
        { acc with problems := acc.problems ++ [⟨row.label, "thiếu Epic Key"⟩] }
      else
        { problems := acc.problems ++ krProblems epicProgress row.label epicKeys
          grouped := addKeyResult acc.grouped (row.objective, rowKeyResult epicProgress row weight epicKeys) }

/-- The objective of a group. -/
def toObjective (x : String × List KeyResult) : Objective where
  name := x.1
  keyResults := x.2
  progressPct := objectiveProgress x.2

/-- `obj_progress is not None and obj_progress / 100.0 < behind_threshold` -/
def Objective.behind (threshold : ℚ) (obj : Objective) : Bool :=
  obj.progressPct.any fun q => decide (q / 100 < threshold)

/-- `build_objectives` -/
def buildObjectives (rawRows : List OkrRow) (behindThreshold : ℚ) : OkrRollup :=
  let acc := rawRows.foldl (OkrGroups.add py epicProgress) .init
  let objectives := acc.grouped.entries.map toObjective
  { objectives := objectives
    problems := acc.problems
    atRisk := (objectives.filter (Objective.behind behindThreshold)).map Objective.name }

end Rollup

end ProjectManager
