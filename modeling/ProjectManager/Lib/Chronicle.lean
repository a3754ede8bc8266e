import Mathlib.Data.List.Induction
import ProjectManager.Lib.Past

/-!
# Chronicles

A `Chronicle` is a run with the list of all calls that its processes have issued, also of those that have
left.  `Chronicle.obeyed` carries what the programs keep to over to the calls of the list, and
`Chronicle.logged` finds the entries of a log among them.  `recordAt` computes a stretch of a chronicle.
-/

namespace Process

variable {W Party ε : Type} {ρ : ε → Type}

/-- A call that was issued: in which world, by whom, after what, and the answer. -/
structure Event (W Party ε : Type) (ρ : ε → Type) where
  world : W
  party : Party
  before : Log ε ρ
  entry : Σ e, ρ e

/-- What relates every entry to all before it, relates all pairs. -/
theorem pairwise_of_split {α : Type} {R : α → α → Prop} {l : List α}
    (h : ∀ past a later, l = past ++ a :: later → ∀ b ∈ past, R b a) : l.Pairwise R := by
  induction l using List.reverseRecOn with
  | nil =>
      exact List.Pairwise.nil
  | append_singleton l a ih =>
      rw [List.pairwise_append]
      refine ⟨ih fun past b later hsplit => h past b (later ++ [a]) (by simp [hsplit]), List.pairwise_singleton _ _, ?_⟩
      intro b hb c hc
      obtain rfl := List.mem_singleton.1 hc
      exact h l c [] rfl b hb

namespace System

variable {S : System W Party ε ρ} {init : Pool W Party ε ρ → Prop} {events : List (Event W Party ε ρ)}
  {pool : Pool W Party ε ρ}

/-- Runs with the list of their calls, oldest first. -/
inductive Chronicle (S : System W Party ε ρ) (init : Pool W Party ε ρ → Prop) :
    List (Event W Party ε ρ) → Pool W Party ε ρ → Prop where
  | init {pool : Pool W Party ε ρ} (h : init pool) : Chronicle S init [] pool
  | run {events : List (Event W Party ε ρ)} {w : W} {front back : List (Proc Party ε ρ)} {p : Party} {e : ε}
      {k : ρ e → Prog ε ρ Unit} {log : Log ε ρ} (h : Chronicle S init events ⟨w, front ++ ⟨p, .call e k, log⟩ :: back⟩)
      (allowed : S.allows ⟨w, front ++ ⟨p, .call e k, log⟩ :: back⟩ p e) :
      Chronicle S init (events ++ [⟨w, p, log, e, (S.handle e w).1⟩])
        ⟨(S.handle e w).2,
          front ++ ⟨p, k (S.handle e w).1, log ++ [⟨e, (S.handle e w).1⟩]⟩ :: back ++
            ((S.forks e).map fresh).toList⟩
  | start {events : List (Event W Party ε ρ)} {pool : Pool W Party ε ρ} {p : Party} {prog : Prog ε ρ Unit}
      (h : Chronicle S init events pool) (hstart : S.starts pool p prog) :
      Chronicle S init events ⟨pool.world, pool.procs ++ [fresh (p, prog)]⟩
  | leave {events : List (Event W Party ε ρ)} {w : W} {front back : List (Proc Party ε ρ)} {p : Proc Party ε ρ}
      (h : Chronicle S init events ⟨w, front ++ p :: back⟩) : Chronicle S init events ⟨w, front ++ back⟩
  | ext {events : List (Event W Party ε ρ)} {w w' : W} {procs : List (Proc Party ε ρ)}
      (h : Chronicle S init events ⟨w, procs⟩) (hext : S.ext w w') : Chronicle S init events ⟨w', procs⟩

/-- A run with a chronicle is a run. -/
theorem Chronicle.reach (h : Chronicle S init events pool) : S.Reach init pool := by
  induction h with
  | init h =>
      exact .init h
  | run _ allowed ih =>
      exact ih.step (.run allowed)
  | start _ hstart ih =>
      exact ih.step (.start hstart)
  | leave _ ih =>
      exact ih.step .leave
  | ext _ hext ih =>
      exact ih.step (.ext hext)

/-- Every run has a chronicle. -/
theorem Reach.chronicle (h : S.Reach init pool) : ∃ events, Chronicle S init events pool := by
  induction h with
  | init h =>
      exact ⟨[], .init h⟩
  | step _ hstep ih =>
      obtain ⟨events, hevents⟩ := ih
      cases hstep with
      | run allowed =>
          exact ⟨_, .run hevents allowed⟩
      | start hstart =>
          exact ⟨_, .start hevents hstart⟩
      | leave =>
          exact ⟨_, .leave hevents⟩
      | ext hext =>
          exact ⟨_, .ext hevents hext⟩

/-- Up to a call of the chronicle there is a chronicle, and its pool lets a process issue the call. -/
theorem Chronicle.at_event (h : Chronicle S init events pool) {past later : List (Event W Party ε ρ)}
    {ev : Event W Party ε ρ} (hsplit : events = past ++ ev :: later) :
    ∃ pool', Chronicle S init past pool' ∧ pool'.world = ev.world ∧ S.allows pool' ev.party ev.entry.1 ∧
      ev.entry.2 = (S.handle ev.entry.1 ev.world).1 ∧
      ∃ q ∈ pool'.procs, q.party = ev.party ∧ q.log = ev.before ∧ q.next = some ev.entry.1 := by
  induction h generalizing later with
  | init _ =>
      simp at hsplit
  | @run events w front back p e k log hprev allowed ih =>
      rcases List.eq_nil_or_concat later with rfl | ⟨later, last, rfl⟩
      · obtain ⟨rfl, hlast⟩ := List.append_inj' hsplit rfl
        obtain rfl := (List.cons.inj hlast).1
        exact ⟨_, hprev, rfl, allowed, rfl, ⟨p, .call e k, log⟩, by simp, rfl, rfl, rfl⟩
      · have hsplit : events ++ [⟨w, p, log, e, (S.handle e w).1⟩] = (past ++ ev :: later) ++ [last] := by
          simpa using hsplit
        exact ih (List.append_inj' hsplit rfl).1
  | start _ _ ih =>
      exact ih hsplit
  | leave _ ih =>
      exact ih hsplit
  | ext _ _ ih =>
      exact ih hsplit

/-- Every entry of a log is a call of the chronicle. -/
theorem Chronicle.logged (hinit : ∀ pool, init pool → pool.procs = []) (h : Chronicle S init events pool) :
    ∀ q ∈ pool.procs, ∀ before entry after, q.log = before ++ entry :: after →
      ∃ past ev later, events = past ++ ev :: later ∧ ev.party = q.party ∧ ev.before = before ∧ ev.entry = entry := by
  induction h with
  | init h =>
      rw [hinit _ h]
      simp
  | @run events w front back p e k log _ _ ih =>
      intro q hq before entry after hlog
      -- a process that was there before has its past already
      have hold : q ∈ front ++ ⟨p, .call e k, log⟩ :: back →
          ∃ past ev later, events ++ [⟨w, p, log, e, (S.handle e w).1⟩] = past ++ ev :: later ∧
            ev.party = q.party ∧ ev.before = before ∧ ev.entry = entry := by
        intro hq
        obtain ⟨past, ev, later, rfl, hev⟩ := ih q hq before entry after hlog
        exact ⟨past, ev, later ++ [⟨w, p, log, e, (S.handle e w).1⟩], by simp, hev⟩
      rw [List.mem_append, List.mem_append, List.mem_cons] at hq
      rcases hq with (hq | rfl | hq) | hq
      · exact hold (by simp [hq])
      · rcases List.eq_nil_or_concat after with rfl | ⟨after, last, rfl⟩
        · obtain ⟨rfl, hlast⟩ := List.append_inj' hlog rfl
          obtain rfl := (List.cons.inj hlast).1
          exact ⟨events, _, [], rfl, rfl, rfl, rfl⟩
        · have hlog' : log = before ++ entry :: after := by
            have hlog : log ++ [⟨e, (S.handle e w).1⟩] = (before ++ entry :: after) ++ [last] := by simpa using hlog
            exact (List.append_inj' hlog rfl).1
          obtain ⟨past, ev, later, rfl, hev⟩ := ih ⟨p, .call e k, log⟩ (by simp) before entry after hlog'
          exact ⟨past, ev, later ++ [⟨w, p, log, e, (S.handle e w).1⟩], by simp, hev⟩
      · exact hold (by simp [hq])
      · obtain ⟨x, -, rfl⟩ := Option.map_eq_some_iff.1 (Option.mem_toList.1 hq)
        simp [fresh] at hlog
  | @start _ pool p prog _ _ ih =>
      intro q hq before entry after hlog
      rw [List.mem_append, List.mem_singleton] at hq
      rcases hq with hq | rfl
      · exact ih q hq before entry after hlog
      · simp [fresh] at hlog
  | leave _ ih =>
      intro q hq
      refine ih q ?_
      rw [List.mem_append] at hq
      rcases hq with hq | hq <;> simp [hq]
  | ext _ _ ih =>
      exact ih

/-- What a call has ended and only certain calls can bring back: if it is back, such a call came since. -/
theorem Chronicle.since {F : W → Prop} {T : Event W Party ε ρ → Prop} (hext : ∀ w w', S.ext w w' → F w' → F w)
    (hrun : ∀ ev : Event W Party ε ρ, ev.entry.2 = (S.handle ev.entry.1 ev.world).1 → ¬ F ev.world →
      F (S.handle ev.entry.1 ev.world).2 → T ev)
    (h : Chronicle S init events pool) {past later : List (Event W Party ε ρ)} {ev : Event W Party ε ρ}
    (hsplit : events = past ++ ev :: later) (hended : ¬ F (S.handle ev.entry.1 ev.world).2) (hback : F pool.world) :
    ∃ ev' ∈ later, T ev' := by
  induction h generalizing later with
  | init _ =>
      simp at hsplit
  | @run events w front back p e k log _ _ ih =>
      rcases List.eq_nil_or_concat later with rfl | ⟨later, last, rfl⟩
      · obtain ⟨-, hlast⟩ := List.append_inj' hsplit rfl
        obtain rfl := (List.cons.inj hlast).1
        exact absurd hback hended
      · have hsplit : events ++ [⟨w, p, log, e, (S.handle e w).1⟩] = (past ++ ev :: later) ++ [last] := by
          simpa using hsplit
        obtain ⟨hevents, hlast⟩ := List.append_inj' hsplit rfl
        obtain rfl := (List.cons.inj hlast).1
        by_cases hbefore : F w
        · obtain ⟨ev', hev', hT⟩ := ih hevents hbefore
          exact ⟨ev', by simp [hev'], hT⟩
        · exact ⟨⟨w, p, log, e, (S.handle e w).1⟩, by simp, hrun ⟨w, p, log, e, (S.handle e w).1⟩ rfl hbefore hback⟩
  | start _ _ ih =>
      exact ih hsplit hback
  | leave _ ih =>
      exact ih hsplit hback
  | ext _ hchange ih =>
      exact ih hsplit (hext _ _ hchange hback)

/-- What stands in the log before a call of the chronicle is itself a call of it. -/
theorem Chronicle.before_event (hinit : ∀ pool, init pool → pool.procs = []) (h : Chronicle S init events pool)
    {ev : Event W Party ε ρ} (hev : ev ∈ events) {before after : Log ε ρ} {entry : Σ e, ρ e}
    (hbefore : ev.before = before ++ entry :: after) :
    ∃ pool' past ev', Chronicle S init past pool' ∧ ev' ∈ past ∧ ev' ∈ events ∧ ev'.party = ev.party ∧
      ev'.before = before ∧ ev'.entry = entry := by
  obtain ⟨past, later, hsplit⟩ := List.append_of_mem hev
  obtain ⟨pool', hprev, -, -, -, q, hq, hparty, hlog, -⟩ := h.at_event hsplit
  obtain ⟨_, ev', _, hpast, hsame, hbefore', hentry⟩ :=
    hprev.logged hinit q hq before entry after (hlog.trans hbefore)
  exact ⟨pool', past, ev', hprev, by simp [hpast], by simp [hsplit, hpast], hsame.trans hparty, hbefore', hentry⟩

variable (S) in
/-- Up to `n` calls of the process at place `i`, with their events, as long as the test lets them through. -/
def recordAt (ok : Pool W Party ε ρ → Party → ε → Bool) (i : ℕ) :
    ℕ → List (Event W Party ε ρ) × Pool W Party ε ρ → List (Event W Party ε ρ) × Pool W Party ε ρ
  | 0, run => run
  | n + 1, (events, pool) =>
      match pool.procs[i]? with
      | some ⟨p, .call e k, log⟩ =>
          if ok pool p e then
            recordAt ok i n
              (events ++ [⟨pool.world, p, log, e, (S.handle e pool.world).1⟩],
                ⟨(S.handle e pool.world).2,
                  pool.procs.set i ⟨p, k (S.handle e pool.world).1, log ++ [⟨e, (S.handle e pool.world).1⟩]⟩ ++
                    ((S.forks e).map fresh).toList⟩)
          else
            (events, pool)
      | _ => (events, pool)

/-- The call of the process at one place, with its event. -/
theorem Chronicle.at {i : ℕ} {p : Party} {e : ε} {k : ρ e → Prog ε ρ Unit} {log : Log ε ρ}
    (h : Chronicle S init events pool) (hi : pool.procs[i]? = some ⟨p, .call e k, log⟩) (hallows : S.allows pool p e) :
    Chronicle S init (events ++ [⟨pool.world, p, log, e, (S.handle e pool.world).1⟩])
      ⟨(S.handle e pool.world).2,
        pool.procs.set i ⟨p, k (S.handle e pool.world).1, log ++ [⟨e, (S.handle e pool.world).1⟩]⟩ ++
          ((S.forks e).map fresh).toList⟩ := by
  obtain ⟨w, procs⟩ := pool
  obtain ⟨hlt, hget⟩ := List.getElem?_eq_some_iff.1 hi
  have hsplit : procs = procs.take i ++ ⟨p, .call e k, log⟩ :: procs.drop (i + 1) := by
    rw [← hget, List.getElem_cons_drop, List.take_append_drop]
  have hset : ∀ x, procs.set i x = procs.take i ++ x :: procs.drop (i + 1) := fun x => by
    rw [List.set_eq_take_append_cons_drop, if_pos hlt]
  rw [hsplit] at h hallows
  rw [hset]
  exact .run h hallows

/-- A computed stretch continues the chronicle. -/
theorem Chronicle.recordAt {ok : Pool W Party ε ρ → Party → ε → Bool}
    (hok : ∀ pool p e, ok pool p e = true → S.allows pool p e) (i n : ℕ)
    {run : List (Event W Party ε ρ) × Pool W Party ε ρ} (h : Chronicle S init run.1 run.2) :
    Chronicle S init (S.recordAt ok i n run).1 (S.recordAt ok i n run).2 := by
  induction n generalizing run with
  | zero =>
      exact h
  | succ n ih =>
      unfold System.recordAt
      split
      · rename_i p e k log hi
        split
        · rename_i hyes
          exact ih (h.at hi (hok _ _ _ hyes))
        · exact h
      · exact h

section Obeyed

variable {P : Party → Log ε ρ → ε → Prop} {Q : Party → Log ε ρ → Unit → Prop} {X : Party → Log ε ρ → String → Prop}

/-- What the programs keep to on any answers, the calls of the chronicle keep to. -/
theorem Chronicle.obeyed (hinit : ∀ pool, init pool → pool.procs = [])
    (hstarts : ∀ pool p prog, S.starts pool p prog → prog.Follows (fun _ _ => True) (P p) (Q p) (X p) [])
    (hforks : ∀ e p prog, S.forks e = some (p, prog) → prog.Follows (fun _ _ => True) (P p) (Q p) (X p) [])
    (h : Chronicle S init events pool) : ∀ ev ∈ events, P ev.party ev.before ev.entry.1 := by
  intro ev hev
  obtain ⟨past, later, hsplit⟩ := List.append_of_mem hev
  obtain ⟨pool', hprev, -, -, -, q, hq, hparty, hlog, hnext⟩ := h.at_event hsplit
  have hfollows := hprev.reach.follows (A := fun _ _ _ => True) hinit hstarts hforks (fun _ _ _ _ _ _ _ => trivial) q hq
  have hobeys := Proc.at_next hfollows hnext
  rwa [hparty, hlog] at hobeys

end Obeyed

end System

end Process
