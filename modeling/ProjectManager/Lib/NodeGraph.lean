import ProjectManager.Lib.Process

/-!
# Graphs of nodes

A graph runs one node after another: a node turns the state into the next one, and an edge, which may depend on the
state, says which node comes then.  `exec` runs a graph for a bounded number of nodes.  `exec_follows` proves a
statement about a whole run from one about each node, with a rank that every edge lowers, and `exec_add` says that
more fuel changes nothing once no run is stuck.
-/

namespace Process

/-- The nodes, the edges, and the call that shows that a node is run. -/
structure NodeGraph (N S ε : Type) (ρ : ε → Type) where
  enter : N → S → ε
  run : N → S → Prog ε ρ S
  /-- the node after this one, in the new state -/
  next : N → S → Option N

namespace NodeGraph

variable {N S ε : Type} {ρ : ε → Type} {G : NodeGraph N S ε ρ} {node : N} {s : S} {fuel : ℕ}

/-- At most `fuel` nodes are run, from this one on; nothing is returned when they do not suffice. -/
def exec (G : NodeGraph N S ε ρ) : ℕ → N → S → Prog ε ρ (Option S)
  | 0, _, _ => .ret none
  | fuel + 1, node, s =>
      .call (G.enter node s) fun _ => (G.run node s).bind fun s' =>
        match G.next node s' with
        | none => .ret (some s')
        | some node' => exec G fuel node' s'

variable {A : (e : ε) → ρ e → Prop} {P : Log ε ρ → ε → Prop} {Q : Log ε ρ → S → Prop} {X : Log ε ρ → String → Prop}

/-- What a node makes of the invariant, and of the rank. -/
def After (G : NodeGraph N S ε ρ) (I : N → S → Log ε ρ → Prop) (rank : N → S → ℕ) (Q : Log ε ρ → S → Prop) (bound : ℕ)
    (node : N) (log : Log ε ρ) (s : S) : Prop :=
  match G.next node s with
  | none => Q log s
  | some node' => I node' s log ∧ rank node' s < bound

/-- A run, from what each node does to an invariant that holds where the node begins. -/
theorem exec_follows (I : N → S → Log ε ρ → Prop) (rank : N → S → ℕ) (hstep : ∀ node s log, I node s log →
      P log (G.enter node s) ∧ ∀ r, A (G.enter node s) r →
        (G.run node s).Follows A P (G.After I rank Q (rank node s) node) X (log ++ [⟨G.enter node s, r⟩]))
    {log : Log ε ρ} (hI : I node s log) (hfuel : rank node s < fuel) :
    (G.exec fuel node s).Follows A P (fun log out => ∃ s', out = some s' ∧ Q log s') X log := by
  induction fuel generalizing node s log with
  | zero =>
      omega
  | succ fuel ih =>
      obtain ⟨hcall, hnode⟩ := hstep node s log hI
      refine ⟨hcall, fun r hr => (hnode r hr).bind fun log' s' hafter => ?_⟩
      unfold After at hafter
      cases hnext : G.next node s' with
      | none =>
          rw [hnext] at hafter
          exact ⟨s', rfl, hafter⟩
      | some node' =>
          rw [hnext] at hafter
          apply ih hafter.1
          omega

/-- What a run that comes to its end leaves, from what each node does to an invariant; how many nodes there are does not
matter. -/
theorem exec_holds (I : N → S → Log ε ρ → Prop) (hstep : ∀ node s log, I node s log →
      P log (G.enter node s) ∧ ∀ r, A (G.enter node s) r → (G.run node s).Follows A P
        (fun log' s' => match G.next node s' with
          | none => Q log' s'
          | some node' => I node' s' log') X (log ++ [⟨G.enter node s, r⟩]))
    {log : Log ε ρ} (hI : I node s log) :
    (G.exec fuel node s).Follows A P (fun log out => ∀ s' ∈ out, Q log s') X log := by
  induction fuel generalizing node s log with
  | zero =>
      simp [exec, Prog.Follows]
  | succ fuel ih =>
      obtain ⟨hcall, hnode⟩ := hstep node s log hI
      refine ⟨hcall, fun r hr => (hnode r hr).bind fun log' s' hafter => ?_⟩
      cases hnext : G.next node s' with
      | none =>
          rw [hnext] at hafter
          intro s'' hs''
          obtain rfl := Option.some.inj hs''
          exact hafter
      | some node' =>
          rw [hnext] at hafter
          exact ih hafter

/-- Two ways to go on that agree wherever the first one has an end. -/
theorem bind_congr {α β : Type} {H : ε → Prop} {F : β → Prop} {p : Prog ε ρ α} {f g : α → Prog ε ρ β}
    (h : (p.bind f).Only H F) (hfg : ∀ a, (f a).Only H F → f a = g a) : p.bind f = p.bind g := by
  induction p with
  | ret a =>
      exact hfg a h
  | raise msg =>
      rfl
  | call e k ih =>
      exact congrArg (Prog.call e) (funext fun r => ih r (h.2 r))

/-- When the fuel suffices in every run, more of it makes no difference. -/
theorem exec_add {H : ε → Prop} (h : (G.exec fuel node s).Only H fun out => out ≠ none) (more : ℕ) :
    G.exec (fuel + more) node s = G.exec fuel node s := by
  induction fuel generalizing node s with
  | zero =>
      exact absurd rfl h
  | succ fuel ih =>
      rw [Nat.add_right_comm]
      refine congrArg (Prog.call _) (funext fun r => (bind_congr (h.2 r) fun s' hs' => ?_).symm)
      cases hnext : G.next node s' with
      | none =>
          rfl
      | some node' =>
          rw [hnext] at hs'
          exact (ih hs').symm

end NodeGraph

end Process
