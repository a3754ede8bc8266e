import ProjectManager.Lib.Chronicle

/-!
# Claims

Things that many processes contend for: a process takes one while it is free, and nobody else gives it
back.  `Claims` collects what a system has to satisfy, call by call; from that, no two processes ever
hold one thing (`Claims.ok_of_reach`), and a thing that its holder spends, that is, stops holding without
giving it back, is spent only once in a whole run (`Claims.spent_once`).
-/

namespace Process

variable {W Party ε κ : Type} {ρ : ε → Type}

/-- Things that processes take and hold. -/
structure Claims (S : System W Party ε ρ) (κ : Type) where
  /-- the thing is taken -/
  taken : W → κ → Prop
  /-- by its log, a process holds the thing -/
  holds : Party → Log ε ρ → κ → Prop
  /-- what the programs keep to -/
  keeps : Party → Log ε ρ → ε → Prop
  fresh : ∀ p k, ¬ holds p [] k
  /-- only what was free comes to be held -/
  gain : ∀ {p : Party} {log : Log ε ρ} {w : W} {e : ε} {k : κ}, keeps p log e →
    holds p (log ++ [⟨e, (S.handle e w).1⟩]) k → holds p log k ∨ ¬ taken w k
  /-- what is held is taken -/
  held : ∀ {p : Party} {log : Log ε ρ} {w : W} {e : ε} {k : κ}, keeps p log e → (holds p log k → taken w k) →
    holds p (log ++ [⟨e, (S.handle e w).1⟩]) k → taken (S.handle e w).2 k
  /-- only the holder gives back, and then holds no more -/
  giveBack : ∀ {pool : Pool W Party ε ρ} {p : Party} {log : Log ε ρ} {e : ε} {k : κ}, S.allows pool p e →
    keeps p log e → taken pool.world k → ¬ taken (S.handle e pool.world).2 k →
    holds p log k ∧ ¬ holds p (log ++ [⟨e, (S.handle e pool.world).1⟩]) k
  ext : ∀ {w w' : W} {k : κ}, S.ext w w' → (taken w' k ↔ taken w k)
  starts : ∀ pool p prog, S.starts pool p prog →
    prog.Follows (fun _ _ => True) (keeps p) (fun _ _ => True) (fun _ _ => True) []
  forks : ∀ e p prog, S.forks e = some (p, prog) →
    prog.Follows (fun _ _ => True) (keeps p) (fun _ _ => True) (fun _ _ => True) []

namespace Claims

variable {S : System W Party ε ρ} (C : Claims S κ)

/-- What a process holds is taken, and no other process holds it. -/
structure Ok (pool : Pool W Party ε ρ) : Prop where
  taken : ∀ q ∈ pool.procs, ∀ k, C.holds q.party q.log k → C.taken pool.world k
  alone : pool.procs.Pairwise fun p q => ∀ k, ¬ (C.holds p.party p.log k ∧ C.holds q.party q.log k)

/-- The holder spends the thing with this call: it holds it no more, and the thing stays taken. -/
structure Spends (ev : Event W Party ε ρ) (k : κ) : Prop where
  before : C.holds ev.party ev.before k
  after : ¬ C.holds ev.party (ev.before ++ [ev.entry]) k
  stays : C.taken (S.handle ev.entry.1 ev.world).2 k

/-- Nobody holds the thing, and nobody can take it. -/
structure Spent (pool : Pool W Party ε ρ) (k : κ) : Prop where
  taken : C.taken pool.world k
  free : ∀ q ∈ pool.procs, ¬ C.holds q.party q.log k

variable {C} {init : Pool W Party ε ρ → Prop} {events : List (Event W Party ε ρ)} {pool pool' : Pool W Party ε ρ}

theorem keeps_next (hinit : ∀ pool, init pool → pool.procs = []) (h : S.Reach init pool) {q : Proc Party ε ρ}
    (hq : q ∈ pool.procs) {e : ε} (hnext : q.next = some e) : C.keeps q.party q.log e := by
  have hfollows := h.follows (A := fun _ _ _ => True) hinit C.starts C.forks (fun _ _ _ _ _ _ _ => trivial) q hq
  exact Proc.at_next hfollows hnext

/-- Two holders in one pool, one of them at a place. -/
theorem Ok.other {w : W} {front back : List (Proc Party ε ρ)} {p q : Proc Party ε ρ} {k : κ}
    (h : C.Ok ⟨w, front ++ p :: back⟩) (hq : q ∈ front ∨ q ∈ back) (hp : C.holds p.party p.log k) :
    ¬ C.holds q.party q.log k := by
  intro hholds
  have halone := h.alone
  rw [List.pairwise_append, List.pairwise_cons] at halone
  rcases hq with hq | hq
  · exact halone.2.2 q hq p (by simp) k ⟨hholds, hp⟩
  · exact halone.2.1.1 q hq k ⟨hp, hholds⟩

theorem Ok.run {w : W} {front back : List (Proc Party ε ρ)} {p : Party} {e : ε} {k : ρ e → Prog ε ρ Unit}
    {log : Log ε ρ} (h : C.Ok ⟨w, front ++ ⟨p, .call e k, log⟩ :: back⟩)
    (hallows : S.allows ⟨w, front ++ ⟨p, .call e k, log⟩ :: back⟩ p e) (hkeeps : C.keeps p log e) :
    C.Ok ⟨(S.handle e w).2,
      front ++ ⟨p, k (S.handle e w).1, log ++ [⟨e, (S.handle e w).1⟩]⟩ :: back ++
        ((S.forks e).map System.fresh).toList⟩ := by
  have hself : ∀ x, C.holds p log x → C.taken w x := h.taken ⟨p, .call e k, log⟩ (by simp)
  have hnew : ∀ x : Party × Prog ε ρ Unit, ∀ k, ¬ C.holds (System.fresh x).party (System.fresh x).log k :=
    fun x k => C.fresh _ k
  -- what another process holds, this one does not come to hold
  have hothers : ∀ q, q ∈ front ∨ q ∈ back → ∀ x, C.holds q.party q.log x →
      ¬ C.holds p (log ++ [⟨e, (S.handle e w).1⟩]) x := by
    intro q hq x hholds hafter
    have hmem : q ∈ front ++ ⟨p, .call e k, log⟩ :: back := by
      rcases hq with hq | hq <;> simp [hq]
    rcases C.gain hkeeps hafter with hbefore | hfree
    · exact h.other hq hbefore hholds
    · exact hfree (h.taken q hmem x hholds)
  constructor
  · intro q hq x hholds
    have hold : q ∈ front ∨ q ∈ back → C.taken (S.handle e w).2 x := by
      intro hq
      have hmem : q ∈ front ++ ⟨p, .call e k, log⟩ :: back := by
        rcases hq with hq | hq <;> simp [hq]
      by_contra hfree
      exact h.other hq (C.giveBack hallows hkeeps (h.taken q hmem x hholds) hfree).1 hholds
    rw [List.mem_append, List.mem_append, List.mem_cons] at hq
    rcases hq with (hq | rfl | hq) | hq
    · exact hold (.inl hq)
    · exact C.held hkeeps (hself x) hholds
    · exact hold (.inr hq)
    · obtain ⟨y, -, rfl⟩ := Option.map_eq_some_iff.1 (Option.mem_toList.1 hq)
      exact absurd hholds (hnew y x)
  · have halone := h.alone
    rw [List.pairwise_append, List.pairwise_cons] at halone
    rw [List.pairwise_append]
    refine ⟨?_, ?_, ?_⟩
    · rw [List.pairwise_append, List.pairwise_cons]
      refine ⟨halone.1, ⟨fun q hq x hx => hothers q (.inr hq) x hx.2 hx.1, halone.2.1.2⟩, fun q hq r hr x hx => ?_⟩
      rcases List.mem_cons.1 hr with rfl | hr
      · exact hothers q (.inl hq) x hx.1 hx.2
      · exact halone.2.2 q hq r (by simp [hr]) x hx
    · cases S.forks e <;> simp
    · intro q _ r hr x hx
      obtain ⟨y, -, rfl⟩ := Option.map_eq_some_iff.1 (Option.mem_toList.1 hr)
      exact hnew y x hx.2

/-- In every run, what is held is taken and held by one process. -/
theorem ok_of_reach (hinit : ∀ pool, init pool → pool.procs = []) (h : S.Reach init pool) : C.Ok pool := by
  induction h with
  | @init pool h =>
      have hnone := hinit pool h
      exact ⟨by simp [hnone], by simp [hnone]⟩
  | step hreach hstep ih =>
      cases hstep with
      | @run w front back p e k log hallows =>
          exact ih.run hallows (keeps_next hinit hreach (q := ⟨p, .call e k, log⟩) (by simp) rfl)
      | @start _ p prog hstart =>
          have hnew : ∀ k, ¬ C.holds p [] k := fun k => C.fresh p k
          constructor
          · intro q hq x hholds
            rw [List.mem_append, List.mem_singleton] at hq
            rcases hq with hq | rfl
            · exact ih.taken q hq x hholds
            · exact absurd hholds (hnew x)
          · rw [List.pairwise_append]
            refine ⟨ih.alone, List.pairwise_singleton _ _, fun q _ r hr x hx => ?_⟩
            obtain rfl := List.mem_singleton.1 hr
            exact hnew x hx.2
      | @leave w front back p =>
          have hsub : (front ++ back).Sublist (front ++ p :: back) :=
            List.Sublist.append_left (List.sublist_cons_self p back) front
          exact ⟨fun q hq => ih.taken q (hsub.subset hq), ih.alone.sublist hsub⟩
      | ext hext =>
          exact ⟨fun q hq x hholds => (C.ext hext).2 (ih.taken q hq x hholds), ih.alone⟩

/-- What the caller holds at a call of the chronicle is taken. -/
theorem taken_of_chronicle (hinit : ∀ pool, init pool → pool.procs = [])
    (h : System.Chronicle S init events pool) :
    ∀ ev ∈ events, ∀ k, C.holds ev.party ev.before k → C.taken ev.world k := by
  intro ev hev k hholds
  obtain ⟨past, later, hsplit⟩ := List.append_of_mem hev
  obtain ⟨pool', hprev, hworld, -, -, q, hq, hparty, hlog, -⟩ := h.at_event hsplit
  rw [← hworld]
  refine (ok_of_reach hinit hprev.reach).taken q hq k ?_
  rwa [hparty, hlog]

/-- Since the call with which its holder has gained it, a thing was taken at every call of the chronicle. -/
theorem taken_since (hinit : ∀ pool, init pool → pool.procs = []) (h : System.Chronicle S init events pool) {k : κ} :
    ∀ q ∈ pool.procs, ∀ before entry after, q.log = before ++ entry :: after →
      (∀ more, more <+: after → C.holds q.party (before ++ entry :: more) k) →
      ∃ past ev later, events = past ++ ev :: later ∧ ev.party = q.party ∧ ev.before = before ∧ ev.entry = entry ∧
        ∀ ev' ∈ later, C.taken ev'.world k := by
  induction h with
  | init h =>
      rw [hinit _ h]
      simp
  | @run events w front back p e prog log hprev _ ih =>
      intro q hq before entry after hlog hholds
      have hok : C.Ok ⟨w, front ++ ⟨p, .call e prog, log⟩ :: back⟩ := ok_of_reach hinit hprev.reach
      -- a holder that was there before holds the thing at this call too
      have hold : ∀ q' ∈ front ++ ⟨p, .call e prog, log⟩ :: back, ∀ after', q'.party = q.party →
          q'.log = before ++ entry :: after' → after' <+: after →
          ∃ past ev later, events ++ [⟨w, p, log, e, (S.handle e w).1⟩] = past ++ ev :: later ∧ ev.party = q.party ∧
            ev.before = before ∧ ev.entry = entry ∧ ∀ ev' ∈ later, C.taken ev'.world k := by
        intro q' hq' after' hparty hlog' hleads
        have hholds' : ∀ more, more <+: after' → C.holds q'.party (before ++ entry :: more) k := by
          intro more hmore
          rw [hparty]
          exact hholds more (hmore.trans hleads)
        obtain ⟨past, ev, later, rfl, hev, hbefore, hentry, hlater⟩ := ih q' hq' before entry after' hlog' hholds'
        have hnow : C.taken w k := hok.taken q' hq' k (hlog' ▸ hholds' after' List.prefix_rfl)
        refine ⟨past, ev, later ++ [⟨w, p, log, e, (S.handle e w).1⟩], by simp, hev.trans hparty, hbefore, hentry, ?_⟩
        intro ev' hev'
        rcases List.mem_append.1 hev' with hev' | hev'
        · exact hlater ev' hev'
        · obtain rfl := List.mem_singleton.1 hev'
          exact hnow
      rw [List.mem_append, List.mem_append, List.mem_cons] at hq
      rcases hq with (hq | rfl | hq) | hq
      · exact hold q (by simp [hq]) after rfl hlog List.prefix_rfl
      · rcases List.eq_nil_or_concat after with rfl | ⟨after, last, rfl⟩
        · obtain ⟨rfl, hlast⟩ := List.append_inj' hlog rfl
          obtain rfl := (List.cons.inj hlast).1
          exact ⟨events, _, [], rfl, rfl, rfl, rfl, by simp⟩
        · have hlog : log ++ [⟨e, (S.handle e w).1⟩] = (before ++ entry :: after) ++ [last] := by simpa using hlog
          have hlog' := (List.append_inj' hlog rfl).1
          exact hold ⟨p, .call e prog, log⟩ (by simp) after rfl hlog' (by simp)
      · exact hold q (by simp [hq]) after rfl hlog List.prefix_rfl
      · obtain ⟨x, -, rfl⟩ := Option.map_eq_some_iff.1 (Option.mem_toList.1 hq)
        simp [System.fresh] at hlog
  | @start _ pool p prog _ _ ih =>
      intro q hq before entry after hlog
      rw [List.mem_append, List.mem_singleton] at hq
      rcases hq with hq | rfl
      · exact ih q hq before entry after hlog
      · simp [System.fresh] at hlog
  | leave _ ih =>
      intro q hq
      refine ih q ?_
      rw [List.mem_append] at hq
      rcases hq with hq | hq <;> simp [hq]
  | ext _ _ ih =>
      exact ih

/-- What is spent stays spent. -/
theorem Spent.step (hinit : ∀ pool, init pool → pool.procs = []) (hreach : S.Reach init pool) {k : κ}
    (h : C.Spent pool k) (hstep : S.Step pool pool') : C.Spent pool' k := by
  cases hstep with
  | @run w front back p e prog log hallows =>
      have hkeeps : C.keeps p log e := keeps_next hinit hreach (q := ⟨p, .call e prog, log⟩) (by simp) rfl
      have hself : ¬ C.holds p log k := h.free ⟨p, .call e prog, log⟩ (by simp)
      constructor
      · by_contra hfree
        exact hself (C.giveBack hallows hkeeps h.taken hfree).1
      · intro q hq
        rw [List.mem_append, List.mem_append, List.mem_cons] at hq
        rcases hq with (hq | rfl | hq) | hq
        · exact h.free q (by simp [hq])
        · intro hafter
          rcases C.gain hkeeps hafter with hbefore | hfree
          · exact hself hbefore
          · exact hfree h.taken
        · exact h.free q (by simp [hq])
        · obtain ⟨y, -, rfl⟩ := Option.map_eq_some_iff.1 (Option.mem_toList.1 hq)
          exact C.fresh _ k
  | start _ =>
      refine ⟨h.taken, fun q hq => ?_⟩
      rw [List.mem_append, List.mem_singleton] at hq
      rcases hq with hq | rfl
      · exact h.free q hq
      · exact C.fresh _ k
  | leave =>
      refine ⟨h.taken, fun q hq => h.free q ?_⟩
      rw [List.mem_append] at hq
      rcases hq with hq | hq <;> simp [hq]
  | ext hext =>
      exact ⟨(C.ext hext).2 h.taken, h.free⟩

/-- After the call with which the holder has spent it, a thing is spent. -/
theorem Ok.spent {w : W} {front back : List (Proc Party ε ρ)} {p : Party} {e : ε} {prog : ρ e → Prog ε ρ Unit}
    {log : Log ε ρ} {k : κ} (h : C.Ok ⟨w, front ++ ⟨p, .call e prog, log⟩ :: back⟩)
    (hspends : C.Spends ⟨w, p, log, e, (S.handle e w).1⟩ k) :
    C.Spent ⟨(S.handle e w).2,
      front ++ ⟨p, prog (S.handle e w).1, log ++ [⟨e, (S.handle e w).1⟩]⟩ :: back ++
        ((S.forks e).map System.fresh).toList⟩ k := by
  refine ⟨hspends.stays, fun q hq => ?_⟩
  rw [List.mem_append, List.mem_append, List.mem_cons] at hq
  rcases hq with (hq | rfl | hq) | hq
  · exact h.other (.inl hq) hspends.before
  · exact hspends.after
  · exact h.other (.inr hq) hspends.before
  · obtain ⟨y, -, rfl⟩ := Option.map_eq_some_iff.1 (Option.mem_toList.1 hq)
    exact C.fresh _ k

/-- What an earlier call of the chronicle has spent is spent. -/
theorem spent_of_chronicle (hinit : ∀ pool, init pool → pool.procs = [])
    (h : System.Chronicle S init events pool) {ev : Event W Party ε ρ} (hev : ev ∈ events) {k : κ}
    (hspends : C.Spends ev k) : C.Spent pool k := by
  induction h with
  | init _ =>
      cases hev
  | run hprev allowed ih =>
      rcases List.mem_append.1 hev with hev | hev
      · exact (ih hev).step hinit hprev.reach (.run allowed)
      · obtain rfl := List.mem_singleton.1 hev
        exact (ok_of_reach hinit hprev.reach).spent hspends
  | start hprev hstart ih =>
      exact (ih hev).step hinit hprev.reach (.start hstart)
  | leave hprev ih =>
      exact (ih hev).step hinit hprev.reach .leave
  | ext hprev hext ih =>
      exact (ih hev).step hinit hprev.reach (.ext hext)

/-- In every run a thing is spent at most once. -/
theorem spent_once (hinit : ∀ pool, init pool → pool.procs = []) (h : System.Chronicle S init events pool) :
    events.Pairwise fun ev ev' => ∀ k, C.Spends ev k → ¬ C.Spends ev' k := by
  induction h with
  | init _ =>
      exact List.Pairwise.nil
  | @run events w front back p e prog log hprev _ ih =>
      rw [List.pairwise_append]
      refine ⟨ih, List.pairwise_singleton _ _, fun ev hev ev' hev' k hspends hspends' => ?_⟩
      obtain rfl := List.mem_singleton.1 hev'
      have hspent := spent_of_chronicle hinit hprev hev hspends
      exact hspent.free ⟨p, .call e prog, log⟩ (by simp) hspends'.before
  | start _ _ ih =>
      exact ih
  | leave _ ih =>
      exact ih
  | ext _ _ ih =>
      exact ih

/-- Calls that each spend one of finitely many things are not more than these. -/
theorem spent_le (hinit : ∀ pool, init pool → pool.procs = []) (h : System.Chronicle S init events pool)
    {ks : List κ} {spenders : List (Event W Party ε ρ)} (hsub : spenders.Sublist events)
    (hspends : ∀ ev ∈ spenders, ∃ k ∈ ks, C.Spends ev k) : spenders.length ≤ ks.length := by
  have honce := (spent_once (C := C) hinit h).sublist hsub
  clear hsub
  induction spenders generalizing ks with
  | nil =>
      simp
  | cons ev spenders ih =>
      obtain ⟨k, hk, hspent⟩ := hspends ev (by simp)
      rw [List.pairwise_cons] at honce
      -- the other calls spend other things
      obtain ⟨front, back, rfl⟩ := List.append_of_mem hk
      have hothers : ∀ ev' ∈ spenders, ∃ k' ∈ front ++ back, C.Spends ev' k' := by
        intro ev' hev'
        obtain ⟨k', hk', hspent'⟩ := hspends ev' (by simp [hev'])
        refine ⟨k', ?_, hspent'⟩
        rw [List.mem_append, List.mem_cons] at hk'
        rcases hk' with hk' | rfl | hk'
        · simp [hk']
        · exact absurd hspent' (honce.1 ev' hev' k' hspent)
        · simp [hk']
      have hle := ih hothers honce.2
      simp only [List.length_append, List.length_cons] at hle ⊢
      omega

end Claims

end Process
