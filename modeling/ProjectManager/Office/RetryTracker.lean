import ProjectManager.Lib.JsonObject
import ProjectManager.Lib.Separators

/-!
# The retry trackers

`_json_retry_tracker` reads and writes a file at every call, `in_memory_retry_tracker` keeps a dict.  For task ids without
a slash they give the same answers (`trackers_agree`); `countsOf_increment` and `countsOf_clear` say what the calls do to
the counters that the file holds.
-/

namespace ProjectManager

/-! ### Dicts -/

section Dicts

variable {κ ν : Type} [DecidableEq κ]

/-- `d.get(k)`. -/
def item (d : List (κ × ν)) (k : κ) : Option ν :=
  d.lookup k

/-- `d[k] = v`. -/
def setItem (d : List (κ × ν)) (k : κ) (v : ν) : List (κ × ν) :=
  if (item d k).isSome then d.map fun x => if x.1 = k then (k, v) else x else d ++ [(k, v)]

/-- `d.pop(k, None)`. -/
def popItem (d : List (κ × ν)) (k : κ) : List (κ × ν) :=
  d.filter fun x => decide (x.1 ≠ k)

theorem lookup_replaced (d : List (κ × ν)) (k k' : κ) (v : ν) :
    (d.map fun x => if x.1 = k then (k, v) else x).lookup k' = if k' = k then (d.lookup k).map fun _ => v else d.lookup k' := by
  induction d with
  | nil =>
      simp
  | cons x d ih =>
      obtain ⟨a, b⟩ := x
      rw [List.map_cons]
      by_cases ha : a = k
      · subst ha
        rw [if_pos rfl, List.lookup_cons, ih, List.lookup_cons, List.lookup_cons]
        by_cases hk : k' = a
        · subst hk
          simp
        · have hne : (k' == a) = false := beq_eq_false_iff_ne.2 hk
          simp [hk, hne]
      · rw [if_neg ha, List.lookup_cons, ih, List.lookup_cons, List.lookup_cons]
        have hne : (k == a) = false := beq_eq_false_iff_ne.2 fun h => ha h.symm
        by_cases hk : k' = a
        · subst hk
          simp [ha]
        · have hne' : (k' == a) = false := beq_eq_false_iff_ne.2 hk
          simp [hne, hne']

@[simp] theorem item_setItem (d : List (κ × ν)) (k k' : κ) (v : ν) :
    item (setItem d k v) k' = if k' = k then some v else item d k' := by
  unfold setItem item
  split
  · rename_i hsome
    obtain ⟨old, hold⟩ := Option.isSome_iff_exists.1 hsome
    rw [lookup_replaced, hold]
    rfl
  · rename_i hnone
    rw [Bool.not_eq_true, Option.isSome_eq_false_iff, Option.isNone_iff_eq_none] at hnone
    rw [List.lookup_append, List.lookup_cons]
    by_cases hk : k' = k
    · subst hk
      simp [hnone]
    · have hne : (k' == k) = false := beq_eq_false_iff_ne.2 hk
      simp [hk, hne]

@[simp] theorem item_popItem (d : List (κ × ν)) (k k' : κ) :
    item (popItem d k) k' = if k' = k then none else item d k' := by
  unfold popItem item
  induction d with
  | nil =>
      simp
  | cons x d ih =>
      obtain ⟨a, b⟩ := x
      by_cases ha : a = k
      · subst ha
        rw [List.filter_cons_of_neg (by simp), ih, List.lookup_cons]
        by_cases hk : k' = a
        · simp [hk]
        · have hne : (k' == a) = false := beq_eq_false_iff_ne.2 hk
          simp [hk, hne]
      · rw [List.filter_cons_of_pos (by simpa using ha), List.lookup_cons, List.lookup_cons, ih]
        by_cases hk : k' = a
        · subst hk
          simp [ha]
        · have hne : (k' == a) = false := beq_eq_false_iff_ne.2 hk
          simp [hne]

end Dicts

/-! ### The two trackers -/

/-- The calls of a `RetryTracker`. -/
inductive TrackerCall where
  | get (taskId stepId : String)
  | increment (taskId stepId : String)
  | clear (taskId stepId : String)

/-- The task that a call is about. -/
def TrackerCall.taskId : TrackerCall → String
  | .get taskId _ => taskId
  | .increment taskId _ => taskId
  | .clear taskId _ => taskId

/-- `in_memory_retry_tracker`: what a call returns, and the dict after it. -/
def inMemoryRetryTracker (counts : List ((String × String) × ℕ)) :
    TrackerCall → Option ℕ × List ((String × String) × ℕ)
  | .get taskId stepId => (some ((item counts (taskId, stepId)).getD 0), counts)
  | .increment taskId stepId =>
      let key := (taskId, stepId)
      let counts := setItem counts key ((item counts key).getD 0 + 1)
      (item counts key, counts)
  | .clear taskId stepId => (none, popItem counts (taskId, stepId))

/-- `_key`. -/
def trackerKey (taskId stepId : String) : String :=
  taskId ++ "/" ++ stepId

/-- `_load`: an empty dict when the file is missing or corrupt. -/
def loadCounts (sidecar : Option String) : List (String × ℕ) :=
  (sidecar.bind JsonObject.loads).getD []

/-- `_json_retry_tracker`: what a call returns, and the file after it. -/
def jsonRetryTracker (sidecar : Option String) : TrackerCall → Option ℕ × Option String
  | .get taskId stepId => (some ((item (loadCounts sidecar) (trackerKey taskId stepId)).getD 0), sidecar)
  | .increment taskId stepId =>
      let data := loadCounts sidecar
      let key := trackerKey taskId stepId
      let data := setItem data key ((item data key).getD 0 + 1)
      (item data key, some (JsonObject.dumps data))
  | .clear taskId stepId =>
      (none, some (JsonObject.dumps (popItem (loadCounts sidecar) (trackerKey taskId stepId))))

/-- What a tracker returns, call by call. -/
def returned {σ : Type} (tracker : σ → TrackerCall → Option ℕ × σ) (s : σ) : List TrackerCall → List (Option ℕ)
  | [] => []
  | c :: calls => (tracker s c).1 :: returned tracker (tracker s c).2 calls

/-! ### The file holds the counters -/

@[simp] theorem loadCounts_dumps (d : List (String × ℕ)) : loadCounts (some (JsonObject.dumps d)) = d := by
  simp [loadCounts, JsonObject.loads_dumps]

/-- A slash ends the task of a key. -/
theorem trackerKey_inj {taskId taskId' stepId stepId' : String} (htask : '/' ∉ taskId.toList) (htask' : '/' ∉ taskId'.toList)
    (h : trackerKey taskId stepId = trackerKey taskId' stepId') : taskId = taskId' ∧ stepId = stepId' := by
  have hchars := congrArg String.toList h
  simp only [trackerKey, String.toList_append, List.append_assoc] at hchars
  obtain ⟨hfst, hsnd⟩ := Separators.cut_first htask htask' hchars
  exact ⟨String.toList_injective hfst, String.toList_injective hsnd⟩

/-- The counters that the file holds. -/
def countsOf (sidecar : Option String) (key : String) : ℕ :=
  (item (loadCounts sidecar) key).getD 0

theorem countsOf_increment (sidecar : Option String) (taskId stepId : String) :
    countsOf (jsonRetryTracker sidecar (.increment taskId stepId)).2 = Function.update (countsOf sidecar)
      (trackerKey taskId stepId) (countsOf sidecar (trackerKey taskId stepId) + 1) := by
  funext key
  simp only [countsOf, jsonRetryTracker, loadCounts_dumps, item_setItem, Function.update_apply]
  split
  · rfl
  · rfl

theorem countsOf_clear (sidecar : Option String) (taskId stepId : String) :
    countsOf (jsonRetryTracker sidecar (.clear taskId stepId)).2 =
      Function.update (countsOf sidecar) (trackerKey taskId stepId) 0 := by
  funext key
  simp only [countsOf, jsonRetryTracker, loadCounts_dumps, item_popItem, Function.update_apply]
  split
  · rfl
  · rfl

/-! ### The trackers agree -/

/-- The file holds under each key what the dict holds under the pair. -/
def TrackersMatch (sidecar : Option String) (counts : List ((String × String) × ℕ)) : Prop :=
  ∀ taskId stepId, '/' ∉ taskId.toList → item (loadCounts sidecar) (trackerKey taskId stepId) = item counts (taskId, stepId)

theorem trackerKey_eq_iff {taskId taskId' stepId stepId' : String} (htask : '/' ∉ taskId.toList)
    (htask' : '/' ∉ taskId'.toList) : trackerKey taskId stepId = trackerKey taskId' stepId' ↔ (taskId, stepId) = (taskId', stepId') := by
  constructor
  · intro h
    obtain ⟨rfl, rfl⟩ := trackerKey_inj htask htask' h
    rfl
  · intro h
    obtain ⟨rfl, rfl⟩ := Prod.mk.inj h
    rfl

/-- A call gives the same answer on both sides, and leaves both alike. -/
theorem TrackersMatch.call {sidecar : Option String} {counts : List ((String × String) × ℕ)} (h : TrackersMatch sidecar counts)
    {c : TrackerCall} (hc : '/' ∉ c.taskId.toList) : (jsonRetryTracker sidecar c).1 = (inMemoryRetryTracker counts c).1 ∧
      TrackersMatch (jsonRetryTracker sidecar c).2 (inMemoryRetryTracker counts c).2 := by
  cases c with
  | get taskId stepId =>
      refine ⟨?_, h⟩
      simp only [jsonRetryTracker, inMemoryRetryTracker, h taskId stepId hc]
  | increment taskId stepId =>
      change '/' ∉ taskId.toList at hc
      have hold := h taskId stepId hc
      refine ⟨by simp [jsonRetryTracker, inMemoryRetryTracker, hold], fun taskId' stepId' htask' => ?_⟩
      simp only [jsonRetryTracker, inMemoryRetryTracker, loadCounts_dumps, item_setItem, hold,
        trackerKey_eq_iff htask' hc, h taskId' stepId' htask']
  | clear taskId stepId =>
      change '/' ∉ taskId.toList at hc
      refine ⟨rfl, fun taskId' stepId' htask' => ?_⟩
      simp only [jsonRetryTracker, inMemoryRetryTracker, loadCounts_dumps, item_popItem,
        trackerKey_eq_iff htask' hc, h taskId' stepId' htask']

theorem TrackersMatch.returned {sidecar : Option String} {counts : List ((String × String) × ℕ)} (h : TrackersMatch sidecar counts)
    {calls : List TrackerCall} (hcalls : ∀ c ∈ calls, '/' ∉ c.taskId.toList) :
    returned jsonRetryTracker sidecar calls = returned inMemoryRetryTracker counts calls := by
  induction calls generalizing sidecar counts with
  | nil =>
      rfl
  | cons c calls ih =>
      obtain ⟨hsame, hnext⟩ := h.call (hcalls c (by simp))
      rw [ProjectManager.returned, ProjectManager.returned, hsame, ih hnext fun x hx => hcalls x (by simp [hx])]

/-- **The trackers agree.**  From no counters on, they answer every sequence of calls alike. -/
theorem trackers_agree {calls : List TrackerCall} (hcalls : ∀ c ∈ calls, '/' ∉ c.taskId.toList) :
    returned jsonRetryTracker none calls = returned inMemoryRetryTracker [] calls :=
  TrackersMatch.returned (fun _ _ _ => rfl) hcalls

end ProjectManager
