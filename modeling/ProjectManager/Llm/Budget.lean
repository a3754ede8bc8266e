import ProjectManager.Actions.Mediation
import ProjectManager.Lib.Chronicle
import ProjectManager.Lib.Rounding

/-!
# The monthly budget

`BudgetTracker`: a file for each month holds the month's total, which `record_cost` reads, adds to and writes
back, and which `check_allowed` holds against the cap.  The read and the write are two steps, and any number of
processes may be between them.  `budget_keeps_spend` says that no cost is lost as long as each write finds the
total that its call has read; `budget_loses_spend` is a run in which two calls read the same total.
-/

namespace ProjectManager

open Process Rounding

/-! ### The tracker -/

/-- What a budget file holds. -/
inductive BudgetFile where
  | missing
  | corrupt (exc : String)
  | total (usd : ℚ)
deriving DecidableEq

/-- The files under the budget directory and the month of the clock. -/
structure BudgetWorld where
  dir : String
  files : String → BudgetFile
  month : String

/-- `_path_for`. -/
def BudgetWorld.path (w : BudgetWorld) (month : String) : String :=
  w.dir ++ "/budget-" ++ month ++ ".json"

/-- `_read`. -/
def BudgetWorld.read (w : BudgetWorld) (month : String) : Except String ℚ :=
  match w.files month with
  | .missing => .ok 0
  | .corrupt exc => .error ("Cannot read budget file " ++ w.path month ++ ": " ++ exc)
  | .total usd => .ok usd

/-- `_write`. -/
def BudgetWorld.write (w : BudgetWorld) (month : String) (total : ℚ) : BudgetWorld :=
  { w with files := fun m => if m = month then .total (roundTo 6 total) else w.files m }

/-- The accesses of `record_cost`. -/
inductive BudgetCall where
  | currentMonth
  | read (month : String)
  | write (month : String) (total : ℚ)

/-- What an access answers. -/
@[reducible] def BudgetCall.Resp : BudgetCall → Type
  | currentMonth => String
  | read _ => Except String ℚ
  | write .. => Unit

/-- Runs an access. -/
def BudgetCall.handle : (c : BudgetCall) → BudgetWorld → c.Resp × BudgetWorld
  | currentMonth, w => (w.month, w)
  | read month, w => (w.read month, w)
  | write month total, w => ((), w.write month total)

/-- Programs of the tracker. -/
abbrev BudgetProg :=
  Prog BudgetCall BudgetCall.Resp

/-- Makes one access. -/
def budgetAsk (c : BudgetCall) : BudgetProg c.Resp :=
  .ask c

/-- `record_cost`. -/
def recordCost (py : Python) : Option ℚ → BudgetProg Unit
  | none => return ()
  | some usd =>
      if usd < 0 then
        Prog.raise ("Cost cannot be negative: " ++ py.str (.float usd))
      else do
        let month ← budgetAsk .currentMonth
        let spent ← budgetAsk (.read month)
        match spent with
        | .error exc => Prog.raise exc
        | .ok spent => budgetAsk (.write month (spent + usd))

/-- `check_allowed`, when the month's file holds `spent`: whether a call may be made, and the ratio spent.
`fixed` writes a number with so many decimals. -/
def checkAllowed (fixed : ℕ → ℚ → String) (cap spent : ℚ) : Except String (Bool × ℚ) :=
  let ratio := if 0 < cap then spent / cap else 0
  if 1 ≤ ratio then
    .error ("Monthly OpenRouter budget $" ++ fixed 2 cap ++ " reached (spent $" ++ fixed 4 spent ++
      "). New LLM calls blocked until next month.")
  else
    .ok (true, ratio)

/-- `check_allowed` refuses. -/
def Refuses (fixed : ℕ → ℚ → String) (cap spent : ℚ) : Prop :=
  ∃ exc, checkAllowed fixed cap spent = .error exc

theorem refuses_of_le {fixed : ℕ → ℚ → String} {cap spent : ℚ} (hcap : 0 < cap) (h : cap ≤ spent) :
    Refuses fixed cap spent := by
  have hratio : 1 ≤ spent / cap := (one_le_div hcap).2 h
  exact ⟨_, by simp only [checkAllowed, if_pos hcap, if_pos hratio]; rfl⟩

/-! ### Runs -/

/-- The calls and answers of a `record_cost` so far. -/
abbrev BudgetLog :=
  Log BudgetCall BudgetCall.Resp

/-- A pool of `record_cost` calls. -/
abbrev BudgetPool :=
  Pool BudgetWorld (Option ℚ) BudgetCall BudgetCall.Resp

/-- An access that some `record_cost` has made. -/
abbrev BudgetEvent :=
  Event BudgetWorld (Option ℚ) BudgetCall BudgetCall.Resp

/-- Any number of `record_cost` calls over one data directory; the month changes as it likes. -/
def budgetSystem (py : Python) (allows : BudgetPool → Option ℚ → BudgetCall → Prop) :
    System BudgetWorld (Option ℚ) BudgetCall BudgetCall.Resp where
  handle := BudgetCall.handle
  forks := fun _ => none
  starts := fun _ usd prog => prog = recordCost py usd
  ext := fun w w' => ∃ month, w' = { w with month := month }
  allows := allows

/-- A write finds the total that its call has read. -/
def FindsRead (pool : BudgetPool) (usd : Option ℚ) : BudgetCall → Prop
  | .write month total => ∀ q ∈ pool.procs, q.party = usd → q.next = some (.write month total) →
      ∀ spent, ⟨.read month, .ok spent⟩ ∈ q.log → pool.world.read month = .ok spent
  | _ => True

/-- The costs that were recorded in a month. -/
def recordedCosts (month : String) (events : List BudgetEvent) : List ℚ :=
  events.filterMap fun ev =>
    match ev.entry.1 with
    | .write m _ => if m = month then ev.party else none
    | _ => none

/-- What the month's file owes to the recorded costs: their sum up to the rounding of each write, so that with
costs of whole millionths `check_allowed` refuses from the cap on. -/
structure SpendKept (month : String) (initial : ℚ) (events : List BudgetEvent) (total : ℚ) : Prop where
  close : |total - (initial + (recordedCosts month events).sum)| ≤ (recordedCosts month events).length * (1 / 2 / 10 ^ 6)
  refuses : Units 6 initial → (∀ usd ∈ recordedCosts month events, Units 6 usd) → ∀ fixed cap, 0 < cap →
    cap ≤ initial + (recordedCosts month events).sum → Refuses fixed cap total

/-! ### One call -/

/-- What a `record_cost` keeps to: it writes the total that it has read plus its cost. -/
def RecordKeeps (usd : Option ℚ) (log : BudgetLog) : BudgetCall → Prop
  | .write month total => ∃ cost spent, usd = some cost ∧ ⟨.read month, .ok spent⟩ ∈ log ∧ total = spent + cost
  | _ => True

theorem recordCost_follows (py : Python) (usd : Option ℚ) : (recordCost py usd).Follows (fun _ _ => True)
    (RecordKeeps usd) (fun _ _ => True) (fun _ _ => True) [] := by
  cases usd with
  | none =>
      exact trivial
  | some usd =>
      unfold recordCost
      dsimp only
      split
      · exact trivial
      · refine ⟨trivial, fun month _ => ⟨trivial, fun spent _ => ?_⟩⟩
        cases spent with
        | error exc =>
            exact trivial
        | ok spent =>
            exact ⟨⟨usd, spent, rfl, by simp, rfl⟩, fun _ _ => trivial⟩

section Runs

variable {py : Python} {allows : BudgetPool → Option ℚ → BudgetCall → Prop} {w₀ w : BudgetWorld} {month : String}
  {initial : ℚ} {events : List BudgetEvent} {pool : BudgetPool}

theorem read_write_same {total : ℚ} : (w.write month total).read month = .ok (roundTo 6 total) := by
  simp [BudgetWorld.read, BudgetWorld.write]

theorem read_write_other {other : String} {total : ℚ} (h : month ≠ other) :
    (w.write other total).read month = w.read month := by
  simp [BudgetWorld.read, BudgetWorld.write, BudgetWorld.path, h]

theorem recordedCosts_append (ev : BudgetEvent) : recordedCosts month (events ++ [ev]) =
    recordedCosts month events ++ (match ev.entry.1 with
      | .write m _ => if m = month then ev.party else none
      | _ => none).toList := by
  unfold recordedCosts
  rw [List.filterMap_append]
  congr 1

/-! ### The invariant -/

/-- What a run of writes that find what was read keeps, with the exact total for whole millionths. -/
structure SpendInv (month : String) (initial : ℚ) (events : List BudgetEvent) (total : ℚ) : Prop where
  close : |total - (initial + (recordedCosts month events).sum)| ≤ (recordedCosts month events).length * (1 / 2 / 10 ^ 6)
  exact : Units 6 initial → (∀ usd ∈ recordedCosts month events, Units 6 usd) →
    Units 6 total ∧ total = initial + (recordedCosts month events).sum

/-- One more write. -/
theorem SpendInv.write {total usd : ℚ} (h : SpendInv month initial events total) {ev : BudgetEvent}
    (hrecorded : recordedCosts month (events ++ [ev]) = recordedCosts month events ++ [usd]) :
    SpendInv month initial (events ++ [ev]) (roundTo 6 (total + usd)) := by
  constructor
  · rw [hrecorded, List.sum_append, List.sum_singleton, List.length_append, List.length_singleton]
    have hround := abs_roundTo_sub_le 6 (total + usd)
    have hsplit : roundTo 6 (total + usd) - (initial + ((recordedCosts month events).sum + usd)) =
        (roundTo 6 (total + usd) - (total + usd)) + (total - (initial + (recordedCosts month events).sum)) := by
      ring
    calc |roundTo 6 (total + usd) - (initial + ((recordedCosts month events).sum + usd))|
        ≤ |roundTo 6 (total + usd) - (total + usd)| + |total - (initial + (recordedCosts month events).sum)| := by
          rw [hsplit]
          exact abs_add_le _ _
      _ ≤ 1 / 2 / 10 ^ 6 + (recordedCosts month events).length * (1 / 2 / 10 ^ 6) := add_le_add hround h.close
      _ = ((recordedCosts month events).length + 1 : ℕ) * (1 / 2 / 10 ^ 6) := by
          push_cast
          ring
  · intro hinitial hcosts
    rw [hrecorded] at hcosts ⊢
    obtain ⟨htotal, hsum⟩ := h.exact hinitial fun c hc => hcosts c (by simp [hc])
    have hunits : Units 6 (total + usd) := htotal.add (hcosts usd (by simp))
    rw [roundTo_of_units hunits]
    refine ⟨hunits, ?_⟩
    rw [hsum, List.sum_append, List.sum_singleton]
    ring

/-- In every run whose writes find what was read, the file follows the recorded costs. -/
theorem spendInv_of_chronicle (h₀ : w₀.read month = .ok initial)
    (h : (budgetSystem py FindsRead).Chronicle (fun pool => pool = ⟨w₀, []⟩) events pool) :
    ∃ total, pool.world.read month = .ok total ∧ SpendInv month initial events total := by
  induction h with
  | init h =>
      subst h
      exact ⟨initial, h₀, by simp [recordedCosts], fun hunits _ => ⟨hunits, by simp [recordedCosts]⟩⟩
  | @run events w front back usd e prog log hprev hallows ih =>
      obtain ⟨total, hread, hinv⟩ := ih
      have hmem : (⟨usd, .call e prog, log⟩ : Proc (Option ℚ) BudgetCall BudgetCall.Resp) ∈
          front ++ ⟨usd, .call e prog, log⟩ :: back := by simp
      have hfollows := hprev.reach.follows (A := fun _ _ _ => True) (P := RecordKeeps) (Q := fun _ _ _ => True)
        (X := fun _ _ _ => True) (by rintro pool rfl; rfl) (by rintro _ p prog rfl; exact recordCost_follows py p)
        (by rintro _ _ _ hfork; cases hfork) (fun _ _ _ _ _ _ _ => trivial) _ hmem
      have hkeeps : RecordKeeps usd log e := hfollows.1
      -- an access that writes nothing into the file of the month
      have hother : (∀ m total, e = .write m total → month ≠ m) →
          ((BudgetCall.handle e w).2.read month = w.read month ∧
            recordedCosts month (events ++ [⟨w, usd, log, e, (BudgetCall.handle e w).1⟩]) = recordedCosts month events) := by
        intro hne
        cases e with
        | write m written =>
            have hm := hne m written rfl
            refine ⟨read_write_other hm, ?_⟩
            rw [recordedCosts_append]
            simp [Ne.symm hm]
        | _ =>
            exact ⟨rfl, by rw [recordedCosts_append]; simp⟩
      have hkept : (∀ m total, e = .write m total → month ≠ m) → ∃ total,
          (BudgetCall.handle e w).2.read month = .ok total ∧
            SpendInv month initial (events ++ [⟨w, usd, log, e, (BudgetCall.handle e w).1⟩]) total := by
        intro hne
        obtain ⟨hsame, hrecorded⟩ := hother hne
        refine ⟨total, hsame.trans hread, ?_, ?_⟩
        · rw [hrecorded]
          exact hinv.close
        · rw [hrecorded]
          exact hinv.exact
      cases e with
      | write m written =>
          by_cases hm : month = m
          · subst hm
            obtain ⟨cost, spent, hparty, hlog, hwritten⟩ := hkeeps
            have hfound : w.read month = .ok spent := hallows _ hmem rfl rfl spent hlog
            obtain rfl : total = spent := Except.ok.inj (hread.symm.trans hfound)
            refine ⟨roundTo 6 (total + cost), hwritten ▸ read_write_same, hinv.write ?_⟩
            rw [recordedCosts_append]
            simp [hparty]
          · exact hkept fun m' _ heq => (BudgetCall.write.inj heq).1 ▸ hm
      | _ =>
          exact hkept (by simp)
  | start _ _ ih =>
      exact ih
  | leave _ ih =>
      exact ih
  | ext _ hext ih =>
      obtain ⟨_, rfl⟩ := hext
      exact ih

end Runs

/-- In every run in which each write finds the total that its call has read, the month's file keeps the recorded
costs. -/
theorem budget_keeps_spend {py : Python} {w₀ : BudgetWorld} {month : String} {initial : ℚ} {events : List BudgetEvent}
    {pool : BudgetPool} (h₀ : w₀.read month = .ok initial)
    (h : (budgetSystem py FindsRead).Chronicle (fun pool => pool = ⟨w₀, []⟩) events pool) :
    ∃ total, pool.world.read month = .ok total ∧ SpendKept month initial events total := by
  obtain ⟨total, hread, hinv⟩ := spendInv_of_chronicle h₀ h
  refine ⟨total, hread, hinv.close, fun hinitial hcosts fixed cap hcap hreached => ?_⟩
  obtain ⟨-, htotal⟩ := hinv.exact hinitial hcosts
  exact refuses_of_le hcap (hreached.trans htotal.ge)

/-! ### Two calls at once -/

/-- A data directory without budget files. -/
def sampleBudget : BudgetWorld where
  dir := "/data/budget"
  files := fun _ => .missing
  month := "2026-07"

/-- The start of a `record_cost`. -/
def costCall (usd : ℚ) : Proc (Option ℚ) BudgetCall BudgetCall.Resp :=
  System.fresh (some usd, recordCost samplePython (some usd))

/-- A test for `FindsRead`: nobody in the pool has read anything else. -/
def findsRead (pool : BudgetPool) (_ : Option ℚ) : BudgetCall → Bool
  | .write month _ => pool.procs.all fun q => q.log.all fun x =>
      match x with
      | ⟨.read m, .ok spent⟩ => decide (m = month → pool.world.read month = .ok spent)
      | _ => true
  | _ => true

theorem findsRead_sound (pool : BudgetPool) (usd : Option ℚ) (e : BudgetCall) (h : findsRead pool usd e = true) :
    FindsRead pool usd e := by
  cases e with
  | write month total =>
      intro q hq _ _ spent hspent
      have hlog := List.all_eq_true.1 (List.all_eq_true.1 h q hq) _ hspent
      exact of_decide_eq_true hlog rfl
  | _ =>
      exact trivial

theorem costCalls_started (allows : BudgetPool → Option ℚ → BudgetCall → Prop) (usds : List ℚ) :
    (budgetSystem samplePython allows).Chronicle (fun pool => pool = ⟨sampleBudget, []⟩) []
      ⟨sampleBudget, usds.map costCall⟩ := by
  induction usds using List.reverseRecOn with
  | nil =>
      exact .init rfl
  | append_singleton usds usd ih =>
      rw [List.map_append]
      exact .start ih rfl

/-- A run of one call. -/
def singleCost : List BudgetEvent × BudgetPool :=
  (budgetSystem samplePython FindsRead).recordAt findsRead 0 3 ([], ⟨sampleBudget, [costCall (5 / 2)]⟩)

theorem budget_keeps_spend_sample : ∃ total, singleCost.2.world.read "2026-07" = .ok total ∧
    SpendKept "2026-07" 0 singleCost.1 total := by
  have hrun : (budgetSystem samplePython FindsRead).Chronicle (fun pool => pool = ⟨sampleBudget, []⟩) singleCost.1
      singleCost.2 := System.Chronicle.recordAt findsRead_sound 0 3 (costCalls_started FindsRead [5 / 2])
  exact budget_keeps_spend rfl hrun

/-- A run of two calls that read the same total. -/
def overlappedCosts : List BudgetEvent × BudgetPool :=
  let S := budgetSystem samplePython fun _ _ _ => True
  let turn := fun i n run => S.recordAt (fun _ _ _ => true) i n run
  turn 1 1 (turn 0 1 (turn 1 2 (turn 0 2 ([], ⟨sampleBudget, [costCall 1, costCall 1]⟩))))

/-- Two calls that overlap record one cost. -/
theorem budget_loses_spend : ¬ ∀ (events : List BudgetEvent) (pool : BudgetPool),
    (budgetSystem samplePython fun _ _ _ => True).Chronicle (fun pool => pool = ⟨sampleBudget, []⟩) events pool →
      ∃ total, pool.world.read "2026-07" = .ok total ∧ SpendKept "2026-07" 0 events total := by
  intro hall
  have hall' : ∀ pool p e, true = true → (budgetSystem samplePython fun _ _ _ => True).allows pool p e :=
    fun _ _ _ _ => trivial
  have hrun : (budgetSystem samplePython fun _ _ _ => True).Chronicle (fun pool => pool = ⟨sampleBudget, []⟩)
      overlappedCosts.1 overlappedCosts.2 :=
    System.Chronicle.recordAt hall' 1 1 (.recordAt hall' 0 1 (.recordAt hall' 1 2 (.recordAt hall' 0 2
      (costCalls_started (fun _ _ _ => True) [1, 1]))))
  have hread : overlappedCosts.2.world.read "2026-07" = .ok 1 := by
    decide +kernel
  have hrecorded : recordedCosts "2026-07" overlappedCosts.1 = [1, 1] := by
    decide +kernel
  obtain ⟨total, htotal, hkept⟩ := hall _ _ hrun
  obtain rfl : (1 : ℚ) = total := Except.ok.inj (hread.symm.trans htotal)
  have hclose := hkept.close
  rw [hrecorded] at hclose
  norm_num at hclose

end ProjectManager
