import ProjectManager.Lib.Process

/-!
# The past of a process

* `Reach.asked`: the last entry of a log stems from a step of the run, with all that held before it.
* `Reach.follows`: what programs do when only certain answers come, they do in every run in which only such
  answers come; so they raise nothing there if they raise nothing on such answers.
-/

namespace Process

variable {W Party ε : Type} {ρ : ε → Type} {α : Type}

/-- The exception that a program ends with. -/
def Prog.raised : Prog ε ρ α → Option String
  | .raise msg => some msg
  | _ => none

theorem Prog.raised_eq_none {p : Prog ε ρ α} {A : (e : ε) → ρ e → Prop} {P : Log ε ρ → ε → Prop}
    {Q : Log ε ρ → α → Prop} {log : Log ε ρ} (h : p.Follows A P Q (fun _ _ => False) log) : p.raised = none := by
  cases p with
  | raise msg =>
      exact absurd h id
  | _ =>
      rfl

/-- A program of which nothing is asked but what always holds. -/
theorem Prog.Follows.always (p : Prog ε ρ α) {A : (e : ε) → ρ e → Prop} {P : Log ε ρ → ε → Prop}
    (hP : ∀ log e, P log e) (log : Log ε ρ) : p.Follows A P (fun _ _ => True) (fun _ _ => True) log := by
  induction p generalizing log with
  | ret a =>
      exact trivial
  | raise msg =>
      exact trivial
  | call e k ih =>
      exact ⟨hP log e, fun r _ => ih r _⟩

/-- A program of which nothing is asked. -/
theorem Prog.Follows.free (p : Prog ε ρ α) {A : (e : ε) → ρ e → Prop} (log : Log ε ρ) :
    p.Follows A (fun _ _ => True) (fun _ _ => True) (fun _ _ => True) log :=
  .always p (fun _ _ => trivial) log

/-- A process that follows rules keeps to them with its next call. -/
theorem Proc.at_next {Party : Type} {A : (e : ε) → ρ e → Prop} {P : Log ε ρ → ε → Prop} {Q : Log ε ρ → Unit → Prop}
    {X : Log ε ρ → String → Prop} {q : Proc Party ε ρ} (h : q.prog.Follows A P Q X q.log) {e : ε}
    (hnext : q.next = some e) : P q.log e := by
  obtain ⟨p, prog, log⟩ := q
  cases prog with
  | call e' k =>
      obtain rfl := Option.some.inj hnext
      exact h.1
  | ret a =>
      cases hnext
  | raise msg =>
      cases hnext

namespace System

variable {S : System W Party ε ρ} {init : Pool W Party ε ρ → Prop} {pool : Pool W Party ε ρ}

/-- The step in which a process of the party, with the log `before`, issues the call and gets the answer. -/
inductive Takes (S : System W Party ε ρ) (party : Party) (before : Log ε ρ) (e : ε) (r : ρ e) :
    Pool W Party ε ρ → Pool W Party ε ρ → Prop where
  | mk {w : W} {front back : List (Proc Party ε ρ)} {k : ρ e → Prog ε ρ Unit}
      (allowed : S.allows ⟨w, front ++ ⟨party, .call e k, before⟩ :: back⟩ party e) (answer : (S.handle e w).1 = r) :
      Takes S party before e r ⟨w, front ++ ⟨party, .call e k, before⟩ :: back⟩
        ⟨(S.handle e w).2,
          front ++ ⟨party, k (S.handle e w).1, before ++ [⟨e, (S.handle e w).1⟩]⟩ :: back ++
            ((S.forks e).map fresh).toList⟩

section Takes

variable {party : Party} {before : Log ε ρ} {e : ε} {r : ρ e} {pool₀ pool₁ pool' : Pool W Party ε ρ}

theorem Takes.step (h : S.Takes party before e r pool₀ pool₁) : S.Step pool₀ pool₁ := by
  cases h with
  | mk allowed _ =>
      exact .run allowed

/-- Before the step the process is about to issue the call. -/
theorem Takes.next (h : S.Takes party before e r pool₀ pool₁) :
    (∃ q ∈ pool₀.procs, q.party = party ∧ q.log = before ∧ q.next = some e) ∧ S.allows pool₀ party e := by
  cases h with
  | @mk w front back k allowed _ =>
      exact ⟨⟨⟨party, .call e k, before⟩, by simp, rfl, rfl, rfl⟩, allowed⟩

theorem Takes.handled (h : S.Takes party before e r pool₀ pool₁) : S.handle e pool₀.world = (r, pool₁.world) := by
  cases h with
  | mk _ answer =>
      exact Prod.ext answer rfl

end Takes

/-- On a run to `pool` there was such a step, from `pool₀` to `pool₁`. -/
structure Moment (S : System W Party ε ρ) (init : Pool W Party ε ρ → Prop) (pool : Pool W Party ε ρ) (party : Party)
    (before : Log ε ρ) (e : ε) (r : ρ e) (pool₀ pool₁ : Pool W Party ε ρ) : Prop where
  reach : S.Reach init pool₀
  takes : S.Takes party before e r pool₀ pool₁
  run : S.Reach (fun x => x = pool₁) pool

theorem Moment.step {party : Party} {before : Log ε ρ} {e : ε} {r : ρ e} {pool₀ pool₁ pool' : Pool W Party ε ρ}
    (h : Moment S init pool party before e r pool₀ pool₁) (hstep : S.Step pool pool') :
    Moment S init pool' party before e r pool₀ pool₁ :=
  ⟨h.reach, h.takes, h.run.step hstep⟩

/-- The last entry of a log stems from a step of the run in which the process issued that call and got that
answer. -/
theorem Reach.asked (hinit : ∀ pool, init pool → pool.procs = []) (h : S.Reach init pool) {q : Proc Party ε ρ}
    (hq : q ∈ pool.procs) {before : Log ε ρ} {e : ε} {r : ρ e} (hlog : q.log = before ++ [⟨e, r⟩]) :
    ∃ pool₀ pool₁, Moment S init pool q.party before e r pool₀ pool₁ := by
  induction h with
  | init h =>
      rw [hinit _ h] at hq
      cases hq
  | @step pool pool' hpool hstep ih =>
      -- a process that was there before has its past already
      have hold : q ∈ pool.procs → ∃ pool₀ pool₁, Moment S init pool' q.party before e r pool₀ pool₁ := fun hq => by
        obtain ⟨pool₀, pool₁, hmoment⟩ := ih hq
        exact ⟨pool₀, pool₁, hmoment.step hstep⟩
      have hfresh : ∀ x : Party × Prog ε ρ Unit, q ≠ fresh x := by
        rintro x rfl
        simp [fresh] at hlog
      cases hstep with
      | @run w front back p e' k log hallowed =>
          rw [List.mem_append, List.mem_append, List.mem_cons] at hq
          rcases hq with (hq | rfl | hq) | hq
          · exact hold (by simp [hq])
          · obtain ⟨rfl, hlast⟩ := List.append_inj' hlog rfl
            simp only [List.cons.injEq, and_true, Sigma.mk.injEq] at hlast
            obtain ⟨rfl, hanswer⟩ := hlast
            exact ⟨_, _, hpool, .mk hallowed (eq_of_heq hanswer), .init rfl⟩
          · exact hold (by simp [hq])
          · obtain ⟨x, -, hx⟩ := Option.map_eq_some_iff.1 (Option.mem_toList.1 hq)
            exact absurd hx.symm (hfresh x)
      | start _ =>
          rw [List.mem_append, List.mem_singleton] at hq
          rcases hq with hq | rfl
          · exact hold hq
          · exact absurd rfl (hfresh _)
      | leave =>
          refine hold ?_
          rw [List.mem_append] at hq
          rcases hq with hq | hq <;> simp [hq]
      | ext _ =>
          exact hold hq

variable {A : Party → (e : ε) → ρ e → Prop} {P : Party → Log ε ρ → ε → Prop} {Q : Party → Log ε ρ → Unit → Prop}
  {X : Party → Log ε ρ → String → Prop}

/-- What the programs of a party do on the answers that come, they do all along a run. -/
theorem Reach.follows (hinit : ∀ pool, init pool → pool.procs = [])
    (hstarts : ∀ pool p prog, S.starts pool p prog → prog.Follows (A p) (P p) (Q p) (X p) [])
    (hforks : ∀ e p prog, S.forks e = some (p, prog) → prog.Follows (A p) (P p) (Q p) (X p) [])
    (hanswers : ∀ pool, S.Reach init pool → ∀ q ∈ pool.procs, ∀ e, q.next = some e → S.allows pool q.party e →
      A q.party e (S.handle e pool.world).1)
    (h : S.Reach init pool) : ∀ q ∈ pool.procs, q.prog.Follows (A q.party) (P q.party) (Q q.party) (X q.party) q.log := by
  induction h with
  | init h =>
      rw [hinit _ h]
      simp
  | step hpool hstep ih =>
      intro q hq
      cases hstep with
      | @run w before after p e k log hallowed =>
          rw [List.mem_append, List.mem_append, List.mem_cons] at hq
          rcases hq with (hq | rfl | hq) | hq
          · exact ih q (by simp [hq])
          · have hmem : (⟨p, .call e k, log⟩ : Proc Party ε ρ) ∈ before ++ ⟨p, .call e k, log⟩ :: after := by simp
            exact (ih _ hmem).2 _ (hanswers _ hpool _ hmem e rfl hallowed)
          · exact ih q (by simp [hq])
          · cases hfork : S.forks e with
            | none =>
                simp [hfork] at hq
            | some x =>
                obtain ⟨p', prog⟩ := x
                simp only [hfork, Option.map_some, Option.toList_some, List.mem_singleton] at hq
                subst hq
                exact hforks e p' prog hfork
      | @start _ p prog hstart =>
          rw [List.mem_append, List.mem_singleton] at hq
          rcases hq with hq | rfl
          · exact ih q hq
          · exact hstarts _ p prog hstart
      | leave =>
          refine ih q ?_
          rw [List.mem_append] at hq
          rcases hq with hq | hq <;> simp [hq]
      | ext _ =>
          exact ih q hq

end System

end Process
