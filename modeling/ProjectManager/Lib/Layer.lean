import ProjectManager.Lib.Process

/-!
# Layers of an invariant

A `Layer` adds to a specification: more of an invariant and more that the logs say of the world.  It may
use all that is already known of the pools of a run, and which calls the run lets through.
`Layer.ok_of_reach` is the result.
-/

namespace Process

variable {W Party ε : Type} {ρ : ε → Type}

/-- A process is about to issue a call that the run lets through. -/
structure Turn (S : System W Party ε ρ) (K : Pool W Party ε ρ → Prop) (Inv : W → Prop)
    (Link : Party → Log ε ρ → W → Prop) (pool : Pool W Party ε ρ) (q : Proc Party ε ρ) (e : ε) : Prop where
  known : K pool
  mem : q ∈ pool.procs
  next : q.next = some e
  allowed : S.allows pool q.party e
  inv : Inv pool.world
  link : Link q.party q.log pool.world

/-- More of an invariant, on top of what `K` says of all pools. -/
structure Layer {S : System W Party ε ρ} (T : Spec S) (K : Pool W Party ε ρ → Prop) where
  /-- what holds of the world at all times -/
  Inv : W → Prop
  /-- what a process's log says of the world -/
  Link : Party → Log ε ρ → W → Prop
  own : ∀ {pool : Pool W Party ε ρ} {q : Proc Party ε ρ} {e : ε}, Turn S K Inv Link pool q e →
    Inv (S.handle e pool.world).2 ∧
      Link q.party (q.log ++ [⟨e, (S.handle e pool.world).1⟩]) (S.handle e pool.world).2
  others : ∀ {pool : Pool W Party ε ρ} {q q' : Proc Party ε ρ} {e : ε}, Turn S K Inv Link pool q e →
    T.Apart q.party q'.party → q' ∈ pool.procs → Link q'.party q'.log pool.world →
      Link q'.party q'.log (S.handle e pool.world).2
  outside : ∀ {w w' : W} {procs : List (Proc Party ε ρ)}, K ⟨w, procs⟩ → Inv w → S.ext w w' →
    Inv w' ∧ ∀ q ∈ procs, Link q.party q.log w → Link q.party q.log w'
  starting : ∀ {pool : Pool W Party ε ρ} {p : Party} {prog : Prog ε ρ Unit}, K pool → Inv pool.world →
    S.starts pool p prog → Link p [] pool.world
  forking : ∀ {pool : Pool W Party ε ρ} {q : Proc Party ε ρ} {e : ε} {p' : Party} {prog : Prog ε ρ Unit},
    Turn S K Inv Link pool q e → S.forks e = some (p', prog) → Link p' [] (S.handle e pool.world).2

namespace Layer

variable {S : System W Party ε ρ} {T : Spec S} {K : Pool W Party ε ρ → Prop} (L : Layer T K)

/-- The layer holds of a pool. -/
structure Ok (pool : Pool W Party ε ρ) : Prop where
  inv : L.Inv pool.world
  links : ∀ p ∈ pool.procs, L.Link p.party p.log pool.world

variable {L}

theorem Ok.run {w : W} {before after : List (Proc Party ε ρ)} {p : Party} {e : ε} {k : ρ e → Prog ε ρ Unit}
    {log : Log ε ρ} (h : L.Ok ⟨w, before ++ ⟨p, .call e k, log⟩ :: after⟩)
    (hT : T.PoolOk ⟨w, before ++ ⟨p, .call e k, log⟩ :: after⟩) (hK : K ⟨w, before ++ ⟨p, .call e k, log⟩ :: after⟩)
    (hallowed : S.allows ⟨w, before ++ ⟨p, .call e k, log⟩ :: after⟩ p e) :
    L.Ok ⟨(S.handle e w).2,
      before ++ ⟨p, k (S.handle e w).1, log ++ [⟨e, (S.handle e w).1⟩]⟩ :: after ++
        ((S.forks e).map System.fresh).toList⟩ := by
  have hmem : (⟨p, .call e k, log⟩ : Proc Party ε ρ) ∈ before ++ ⟨p, .call e k, log⟩ :: after := by simp
  have hturn : Turn S K L.Inv L.Link ⟨w, before ++ ⟨p, .call e k, log⟩ :: after⟩ ⟨p, .call e k, log⟩ e :=
    ⟨hK, hmem, rfl, hallowed, h.inv, h.links _ hmem⟩
  obtain ⟨hinv, hlink⟩ := L.own hturn
  have hold : ∀ q, q ∈ before ∨ q ∈ after → L.Link q.party q.log (S.handle e w).2 := by
    intro q hq
    have hq' : q ∈ before ++ ⟨p, .call e k, log⟩ :: after := by
      rcases hq with hq | hq <;> simp [hq]
    exact L.others hturn (hT.others_ok hq).1 hq' (h.links q hq')
  refine ⟨hinv, fun q hq => ?_⟩
  rw [List.mem_append, List.mem_append, List.mem_cons] at hq
  rcases hq with (hq | rfl | hq) | hq
  · exact hold q (.inl hq)
  · exact hlink
  · exact hold q (.inr hq)
  · cases hfork : S.forks e with
    | none =>
        simp [hfork] at hq
    | some x =>
        obtain ⟨p', prog⟩ := x
        simp only [hfork, Option.map_some, Option.toList_some, List.mem_singleton] at hq
        subst hq
        exact L.forking hturn hfork

/-- Every step of a run keeps the layer. -/
theorem Ok.step {pool pool' : Pool W Party ε ρ} (h : L.Ok pool) (hT : T.PoolOk pool) (hK : K pool)
    (hstep : S.Step pool pool') : L.Ok pool' := by
  cases hstep with
  | run hallowed =>
      exact h.run hT hK hallowed
  | @start _ p prog hstart =>
      refine ⟨h.inv, fun q hq => ?_⟩
      rw [List.mem_append, List.mem_singleton] at hq
      rcases hq with hq | rfl
      · exact h.links q hq
      · show L.Link p [] pool.world
        exact L.starting hK h.inv hstart
  | @leave w before after p =>
      have hsub : (before ++ after).Sublist (before ++ p :: after) :=
        List.Sublist.append_left (List.sublist_cons_self p after) before
      exact ⟨h.inv, fun q hq => h.links q (hsub.subset hq)⟩
  | ext hext =>
      obtain ⟨hinv, hlinks⟩ := L.outside hK h.inv hext
      exact ⟨hinv, fun q hq => hlinks q hq (h.links q hq)⟩

/-- The layer holds of every pool of a run. -/
theorem ok_of_reach {init : Pool W Party ε ρ → Prop} (hT : ∀ pool, S.Reach init pool → T.PoolOk pool)
    (hK : ∀ pool, S.Reach init pool → K pool) (hinit : ∀ pool, init pool → L.Ok pool)
    {pool : Pool W Party ε ρ} (h : S.Reach init pool) : L.Ok pool := by
  induction h with
  | init h =>
      exact hinit _ h
  | step hpool hstep ih =>
      exact ih.step (hT _ hpool) (hK _ hpool) hstep

end Layer

end Process
