import ProjectManager.Office.Retries
import ProjectManager.Office.Schedule

/-!
# At most two starts

`retryLayer` carries the bound of each step through whole runs, together with the file in which the counters are kept.
`spawns_bounded` says it of the calls of a run: a step is started at most twice, and once more each time an approval
was given for it.
-/

namespace ProjectManager

open Process

/-! ### The file of the counters -/

/-- The file of the counters after some calls. -/
def sidecarAfter (calls : List TrackerCall) : Option String :=
  calls.foldl (fun sidecar c => (jsonRetryTracker sidecar c).2) none

/-- The counters are those of a file that calls of the tracker have written. -/
def Office.OnFile (w : Office) : Prop :=
  ∃ calls, w.retries = countsOf (sidecarAfter calls)

section SpawnBound

variable {cfg : OfficeConfig} {staffOk : List (String × String) → Prop}
  {allows : OfficePool → OfficeParty → OfficeCall → Prop} {log : OfficeLog} {e : OfficeCall} {w w' : Office} {pool : OfficePool}

theorem Office.OnFile.call (h : w.OnFile) (c : TrackerCall) (hw : ∀ sidecar, w.retries = countsOf sidecar →
    w'.retries = countsOf (jsonRetryTracker sidecar c).2) : w'.OnFile := by
  obtain ⟨calls, hcalls⟩ := h
  refine ⟨calls ++ [c], ?_⟩
  rw [hw _ hcalls, sidecarAfter, sidecarAfter, List.foldl_append]
  rfl

/-- The ticker's counts are calls of the tracker. -/
theorem Office.OnFile.asked (h : w.OnFile) (hlink : RetryLink log w) (hobeys : RetryObeys log e) :
    (e.handle cfg.rt w).2.OnFile := by
  by_cases hcounts : ∃ key count, e = .setRetries key count
  · obtain ⟨key, count, rfl⟩ := hcounts
    obtain ⟨task, step, -, -, -, rfl, hrecount⟩ := hobeys
    cases hrecount with
    | retry hcalm hread hfew =>
        have hold := hlink.read hcalm _ _ hread
        refine h.call (.increment task.id step.stepId) fun sidecar hfile => ?_
        rw [countsOf_increment, ← hfile]
        exact congrArg (fun n => Function.update w.retries (retryKey task step) (n + 1)) hold.symm
    | clear hcalm hlog =>
        refine h.call (.clear task.id step.stepId) fun sidecar hfile => ?_
        rw [countsOf_clear, ← hfile]
        rfl
  · push Not at hcounts
    obtain ⟨calls, hcalls⟩ := h
    exact ⟨calls, (retries_handle cfg.rt hcounts).trans hcalls⟩

/-! ### The layer -/

/-- What the parties keep to about the counters. -/
def RetryObeysOf : OfficeParty → OfficeLog → OfficeCall → Prop
  | .ticker => RetryObeys
  | .worker _ => fun _ _ => True

/-- What is known of the pools of a run. -/
structure RetryKnown (cfg : OfficeConfig) (hsha : Function.Injective cfg.rt.sha256)
    (staffOk : List (String × String) → Prop) (allows : OfficePool → OfficeParty → OfficeCall → Prop)
    (pool : OfficePool) : Prop where
  ok : (officeSpec cfg hsha staffOk allows).PoolOk pool
  snaps : ∀ q ∈ pool.procs, q.party = .ticker → SnapLink q.log
  obeys : ∀ q ∈ pool.procs, q.party = .ticker → ∀ e, q.next = some e → RetryObeys q.log e

theorem retryKnown (hsha : Function.Injective cfg.rt.sha256)
    (h : (officeSystem cfg staffOk allows).Reach (officeInit staffOk) pool) :
    RetryKnown cfg hsha staffOk allows pool := by
  refine ⟨officeOk hsha h, (snapOk hsha h).2, fun q hq hparty e hnext => ?_⟩
  have hfollows := System.Reach.follows (A := fun _ => Plausible staffOk)
    (P := RetryObeysOf) (Q := fun _ _ _ => True) (X := fun _ _ _ => True) ?_ ?_ ?_ ?_ h q hq
  · have hobeys := Proc.at_next hfollows hnext
    rw [hparty] at hobeys
    exact hobeys
  · rintro _ ⟨now, env, -, rfl⟩
    rfl
  · rintro pool p prog ⟨rfl, rfl, -⟩
    exact tickerProg_retries cfg
  · intro e p prog hfork
    cases e with
    | spawnStep s =>
        cases hfork
        exact Prog.Follows.of_forall fun _ _ => trivial
    | _ =>
        cases hfork
  · intro pool hpool q hq e _ _
    exact plausible_handle (officeOk hsha hpool).inv e

/-- A worker starts nobody and counts nothing. -/
theorem WorkerObeys.uncounted (cfg : OfficeConfig) (w : Office) {s : Spawn} (h : WorkerObeys s log e) (hstore : ∀ o, e ≠ .store o) :
    (e.handle cfg.rt w).2.spawned = w.spawned ∧ (e.handle cfg.rt w).2.retries = w.retries ∧
      (e.handle cfg.rt w).2.ledger = w.ledger := by
  refine ⟨?_, ?_, ledger_handle hstore⟩
  · cases e with
    | spawnStep s =>
        cases h
    | _ =>
        rfl
  · cases e with
    | setRetries key count =>
        cases h
    | _ =>
        rfl

variable (cfg staffOk allows)

/-- The bound of each step, as a layer. -/
def retryLayer (hsha : Function.Injective cfg.rt.sha256) :
    Layer (officeSpec cfg hsha staffOk allows) (RetryKnown cfg hsha staffOk allows) where
  Inv := fun w => w.Slashless → w.OnFile ∧ ∀ taskId stepId, w.Bounded taskId stepId
  Link := fun p log w => p = .ticker → w.Slashless → RetryLink log w
  own := by
    intro pool q e turn
    obtain ⟨hinv, hlinked, hobeys⟩ := turn.known.ok.at_next turn.mem turn.next
    have hpre := pre_next hsha turn.known.ok turn.mem turn.next
    have hg : pool.world.Grows (e.handle cfg.rt pool.world).2 := Office.grows_handle e pool.world
    have hsnaps := turn.known.snaps q turn.mem
    have hretries := turn.known.obeys q turn.mem
    have hnext := turn.next
    have hheld := turn.link
    obtain ⟨party, prog, log⟩ := q
    cases party with
    | ticker =>
        constructor
        · intro hslash
          have hslash := Office.Slashless.before hslash hg
          obtain ⟨hfile, hbounded⟩ := turn.inv hslash
          refine ⟨hfile.asked (hheld rfl hslash) (hretries rfl e hnext), fun taskId stepId => ?_⟩
          exact (hbounded taskId stepId).asked (hheld rfl hslash) hinv hlinked (hsnaps rfl) hslash hobeys (hretries rfl e hnext)
        · intro _ hslash
          have hslash := Office.Slashless.before hslash hg
          exact (hheld rfl hslash).asked (turn.inv hslash).2 hinv hlinked (hsnaps rfl) hslash hobeys (hretries rfl e hnext)
    | worker s =>
        refine ⟨fun hslash => ?_, nofun⟩
        obtain ⟨hfile, hbounded⟩ := turn.inv (Office.Slashless.before hslash hg)
        by_cases hstore : ∃ o, e = .store o
        · obtain ⟨o, rfl⟩ := hstore
          exact ⟨hfile, fun taskId stepId => (hbounded taskId stepId).others hinv (hpre o rfl) (.worker hlinked hobeys)⟩
        · push Not at hstore
          obtain ⟨hspawned, hcounts, hledger⟩ := WorkerObeys.uncounted cfg pool.world hobeys hstore
          refine ⟨?_, fun taskId stepId => (hbounded taskId stepId).undisturbed hspawned hcounts (congrArg Ledger.db hledger) hg⟩
          obtain ⟨calls, hcalls⟩ := hfile
          exact ⟨calls, hcounts.trans hcalls⟩
  others := by
    intro pool q q' e turn hapart hq' hheld hticker hslash
    obtain ⟨hinv, hlinked, hobeys⟩ := turn.known.ok.at_next turn.mem turn.next
    have hpre := pre_next hsha turn.known.ok turn.mem turn.next
    have hlink := hheld hticker (Office.Slashless.before hslash (Office.grows_handle e pool.world))
    obtain ⟨party, prog, log⟩ := q
    cases party with
    | ticker =>
        rw [hticker] at hapart
        exact absurd hapart id
    | worker s =>
        by_cases hstore : ∃ o, e = .store o
        · obtain ⟨o, rfl⟩ := hstore
          exact hlink.others hinv (hpre o rfl) (.worker hlinked hobeys)
        · push Not at hstore
          obtain ⟨hspawned, hcounts, hledger⟩ := WorkerObeys.uncounted cfg pool.world hobeys hstore
          exact hlink.undisturbed hspawned hcounts (congrArg Ledger.db hledger)
  outside := by
    intro w w' procs hknown hbound hchange
    have hinv : w.Inv cfg staffOk := hknown.ok.inv
    cases hchange with
    | env env hstaff =>
        refine ⟨fun hslash => ?_, fun q _ hheld hticker hslash => (hheld hticker hslash).undisturbed rfl rfl rfl⟩
        refine ⟨(hbound hslash).1, fun taskId stepId => ((hbound hslash).2 taskId stepId).undisturbed rfl rfl rfl ?_⟩
        exact ⟨fun _ h => h, .refl _⟩
    | time now =>
        refine ⟨fun hslash => ?_, fun q _ hheld hticker hslash => (hheld hticker hslash).undisturbed rfl rfl rfl⟩
        refine ⟨(hbound hslash).1, fun taskId stepId => ((hbound hslash).2 taskId stepId).undisturbed rfl rfl rfl ?_⟩
        exact ⟨fun _ h => h, ⟨fun _ h => h, fun _ h => h, le_rfl⟩⟩
    | client o hclient hpre =>
        have hg : w.Grows ((OfficeCall.store o).handle cfg.rt w).2 := Office.grows_handle (.store o) w
        refine ⟨fun hslash => ?_, fun q _ hheld hticker hslash => ?_⟩
        · have hslash := Office.Slashless.before hslash hg
          exact ⟨(hbound hslash).1, fun taskId stepId =>
            ((hbound hslash).2 taskId stepId).others hinv hpre (.client hclient)⟩
        · exact (hheld hticker (Office.Slashless.before hslash hg)).others hinv hpre (.client hclient)
  starting := fun _ _ _ _ _ => .nil
  forking := fun _ _ _ _ => .nil

variable {cfg staffOk allows}

/-- The bound holds in every state of every run. -/
theorem retryOk (hsha : Function.Injective cfg.rt.sha256)
    (h : (officeSystem cfg staffOk allows).Reach (officeInit staffOk) pool) : (retryLayer cfg staffOk allows hsha).Ok pool := by
  refine Layer.ok_of_reach (fun _ => officeOk hsha) (fun _ => retryKnown hsha) ?_ h
  rintro - ⟨now, env, -, rfl⟩
  refine ⟨fun _ => ⟨⟨[], rfl⟩, fun taskId stepId => ⟨?_, ?_, ?_, ?_⟩⟩, by simp⟩
  · exact Nat.zero_le _
  · exact fun hsome => absurd hsome (lt_irrefl 0)
  · exact fun hsome => absurd hsome (lt_irrefl 0)
  · intro htwice
    cases htwice

/-! ### The calls of a run -/

/-- How often a worker was started for the step. -/
def spawnCalls (events : List (Event Office OfficeParty OfficeCall OfficeCall.Resp)) (taskId stepId : String) : ℕ :=
  events.countP fun ev => ev.entry.1.spawns taskId stepId

/-- The approval was given, as far as the log shows. -/
def approvalGiven (log : OfficeLog) (approvalId : ℕ) : Bool :=
  log.any fun
    | ⟨.ask (.approvalStatus id), decision⟩ => decide (id = approvalId) && decide (decision = some .approved)
    | _ => false

/-- The snapshot shows the step as waiting for an approval that was given. -/
def resumed (log : OfficeLog) (taskId stepId : String) : Bool :=
  (snapshots log).any fun task => decide (task.id = taskId) && task.steps.any fun step =>
    decide (step.stepId = stepId) && decide (step.status = .awaitingApproval) && step.approvalId.any (approvalGiven log)

/-- How often the step was started because its approval was given. -/
def resumptions (events : List (Event Office OfficeParty OfficeCall OfficeCall.Resp)) (taskId stepId : String) : ℕ :=
  events.countP fun ev => ev.entry.1.spawns taskId stepId && resumed ev.before taskId stepId

/-- The office counts the starts of the run. -/
theorem spawned_counted {events : List (Event Office OfficeParty OfficeCall OfficeCall.Resp)}
    (h : System.Chronicle (officeSystem cfg staffOk allows) (officeInit staffOk) events pool) (taskId stepId : String) :
    pool.world.spawnsOf taskId stepId = spawnCalls events taskId stepId := by
  induction h with
  | init h =>
      obtain ⟨now, env, -, rfl⟩ := h
      rfl
  | @run events w front back p e k log _ _ ih =>
      refine (spawnsOf_handle cfg.rt e w taskId stepId).trans ?_
      rw [spawnCalls, List.countP_append, List.countP_singleton]
      exact congrArg (· + _) ih
  | start _ _ ih =>
      exact ih
  | leave _ ih =>
      exact ih
  | ext _ hchange ih =>
      cases hchange with
      | env env hstaff =>
          exact ih
      | time now =>
          exact ih
      | client o hclient hpre =>
          exact ih

/-- **At most two starts.**  In every run of the office, whatever dies and whatever the users of the store do, a step of
a store whose task ids have no slash is started at most twice, and once more each time its approval was given; and the
tracker that keeps its counters in a file answers as the one that keeps them in memory. -/
theorem spawns_bounded (hsha : Function.Injective cfg.rt.sha256) :
    (∀ events pool, System.Chronicle (officeSystem cfg staffOk anyCall) (officeInit staffOk) events pool →
      (∀ row ∈ pool.world.ledger.db.tasks.rows, '/' ∉ row.id.toList) → ∀ taskId stepId,
        spawnCalls events taskId stepId ≤ 2 + resumptions events taskId stepId) ∧
    ∀ calls : List TrackerCall, (∀ c ∈ calls, '/' ∉ c.taskId.toList) →
      returned jsonRetryTracker none calls = returned inMemoryRetryTracker [] calls := by
  refine ⟨fun events pool h hids taskId stepId => ?_, fun calls hcalls => trackers_agree hcalls⟩
  have hinv := (officeOk hsha h.reach).inv
  have hslash : pool.world.Slashless := by
    intro taskId hknown
    obtain ⟨row, hrow, rfl, -⟩ := hknown.opened hinv
    exact hids row hrow
  have hfew := (((retryOk hsha h.reach).inv hslash).2 taskId stepId).few
  rw [spawned_counted h] at hfew
  omega

end SpawnBound

/-! ### A worker that dies -/

/-- The worker of the only step dies, and a second tick starts another one. -/
def respawnedPool : OfficePool :=
  sampleRun sampleConfig anyStaff [.start, .call 0 100, .leave 0, .leave 0, .start, .call 0 100] oneStepPool

/-- The bound is attained. -/
theorem spawns_bounded_respawned : ∃ events, System.Chronicle (officeSystem sampleConfig anyStaff anyCall)
    (officeInit anyStaff) events respawnedPool ∧ spawnCalls events "t" "s1" = 2 ∧
      spawnCalls events "t" "s1" ≤ 2 + resumptions events "t" "s1" ∧
        returned jsonRetryTracker none [.increment "t" "s1"] = returned inMemoryRetryTracker [] [.increment "t" "s1"] := by
  have hreach : (officeSystem sampleConfig anyStaff anyCall).Reach (officeInit anyStaff) respawnedPool :=
    reach_sampleRun _ (reach_confirmed Ledger.samplePlan trivial)
  obtain ⟨events, hevents⟩ := hreach.chronicle
  have htwice : respawnedPool.world.spawnsOf "t" "s1" = 2 ∧
      ∀ row ∈ respawnedPool.world.ledger.db.tasks.rows, '/' ∉ row.id.toList := by decide +kernel
  have hbound := @spawns_bounded sampleConfig anyStaff Function.injective_id
  refine ⟨events, hevents, (spawned_counted hevents "t" "s1").symm.trans htwice.1, ?_, ?_⟩
  · exact hbound.1 events respawnedPool hevents htwice.2 "t" "s1"
  · exact hbound.2 [.increment "t" "s1"] (by decide)

end ProjectManager
