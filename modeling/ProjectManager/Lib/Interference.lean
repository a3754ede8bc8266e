import Mathlib.Logic.Relation
import ProjectManager.Lib.Process

/-!
# Programs among others

A program whose calls change a world that others change as well, at any time.  `Prog.Among` leads from a program to
what it has left after some of its calls.  `Prog.Safe` says that an invariant holds all along and what holds at the
end; there is one rule for each way to build a program, with an assertion that the others do not break.
-/

namespace Process

open Relation

variable {ε W α β : Type} {ρ : ε → Type}

/-- What others do keeps the assertion. -/
def Stable (ext : W → W → Prop) (S : W → Prop) : Prop :=
  ∀ w w', ext w w' → S w → S w'

theorem Stable.many {ext : W → W → Prop} {S : W → Prop} (h : Stable ext S) {w w' : W} (hmany : ReflTransGen ext w w')
    (hw : S w) : S w' := by
  induction hmany with
  | refl =>
      exact hw
  | tail _ hstep ih =>
      exact h _ _ hstep ih

namespace Prog

/-- What the program has left, and the world, after some of its calls among the steps of others. -/
inductive Among (ext : W → W → Prop) (answers : (e : ε) → W → ρ e → W → Prop) (p : Prog ε ρ α) (w : W) :
    Prog ε ρ α → W → Prop where
  | refl : Among ext answers p w p w
  | call {e : ε} {k : ρ e → Prog ε ρ α} {w₁ w₂ : W} {r : ρ e} (h : Among ext answers p w (call e k) w₁)
      (hanswer : answers e w₁ r w₂) : Among ext answers p w (k r) w₂
  | others {q : Prog ε ρ α} {w₁ w₂ : W} (h : Among ext answers p w q w₁) (hstep : ext w₁ w₂) :
      Among ext answers p w q w₂

/-- `I` holds all along, and `Q` of the result at the end. -/
def Safe (ext : W → W → Prop) (answers : (e : ε) → W → ρ e → W → Prop) (I : W → Prop) (Q : α → W → Prop) :
    Prog ε ρ α → W → Prop
  | ret a, w => ∀ w₁, ReflTransGen ext w w₁ → I w₁ ∧ Q a w₁
  | raise _, w => ∀ w₁, ReflTransGen ext w w₁ → I w₁
  | call e k, w => ∀ w₁, ReflTransGen ext w w₁ → I w₁ ∧ ∀ r w₂, answers e w₁ r w₂ → (k r).Safe ext answers I Q w₂

variable {ext : W → W → Prop} {answers : (e : ε) → W → ρ e → W → Prop} {I S : W → Prop} {Q R : α → W → Prop}
  {p q : Prog ε ρ α} {w w' : W}

theorem Safe.others (h : p.Safe ext answers I Q w) (hmany : ReflTransGen ext w w') : p.Safe ext answers I Q w' := by
  cases p with
  | ret a =>
      exact fun w₁ hmany' => h w₁ (hmany.trans hmany')
  | raise msg =>
      exact fun w₁ hmany' => h w₁ (hmany.trans hmany')
  | call e k =>
      exact fun w₁ hmany' => h w₁ (hmany.trans hmany')

theorem Safe.among (h : p.Safe ext answers I Q w) (hamong : Among ext answers p w q w') : q.Safe ext answers I Q w' := by
  induction hamong with
  | refl =>
      exact h
  | call _ hanswer ih =>
      exact (ih _ .refl).2 _ _ hanswer
  | others _ hstep ih =>
      exact ih.others (.single hstep)

/-- The invariant holds. -/
theorem Safe.inv (h : p.Safe ext answers I Q w) : I w := by
  cases p with
  | ret a =>
      exact (h w .refl).1
  | raise msg =>
      exact h w .refl
  | call e k =>
      exact (h w .refl).1

/-- At the end the result is as promised. -/
theorem Safe.result {a : α} (h : (ret a : Prog ε ρ α).Safe ext answers I Q w) : Q a w :=
  (h w .refl).2

/-- A result under an assertion that others keep. -/
theorem Safe.of_ret {a : α} (hstable : Stable ext S) (hw : S w) (hinv : ∀ w₁, S w₁ → I w₁)
    (hresult : ∀ w₁, S w₁ → Q a w₁) : (ret a : Prog ε ρ α).Safe ext answers I Q w := by
  intro w₁ hmany
  have hw₁ := hstable.many hmany hw
  exact ⟨hinv w₁ hw₁, hresult w₁ hw₁⟩

/-- A call under an assertion that others keep. -/
theorem Safe.of_call {e : ε} {k : ρ e → Prog ε ρ α} (hstable : Stable ext S) (hw : S w) (hinv : ∀ w₁, S w₁ → I w₁)
    (h : ∀ w₁ r w₂, S w₁ → answers e w₁ r w₂ → (k r).Safe ext answers I Q w₂) :
    (call e k).Safe ext answers I Q w := by
  intro w₁ hmany
  have hw₁ := hstable.many hmany hw
  exact ⟨hinv w₁ hw₁, fun r w₂ hanswer => h w₁ r w₂ hw₁ hanswer⟩

theorem Safe.mono (h : p.Safe ext answers I Q w) (hQ : ∀ a w₁, Q a w₁ → R a w₁) : p.Safe ext answers I R w := by
  induction p generalizing w with
  | ret a =>
      exact fun w₁ hmany => ⟨(h w₁ hmany).1, hQ a w₁ (h w₁ hmany).2⟩
  | raise msg =>
      exact h
  | call e k ih =>
      exact fun w₁ hmany => ⟨(h w₁ hmany).1, fun r w₂ hanswer => ih r ((h w₁ hmany).2 r w₂ hanswer)⟩

/-- Two programs in a row. -/
theorem Safe.bind {f : α → Prog ε ρ β} {R : β → W → Prop} (h : p.Safe ext answers I Q w)
    (hf : ∀ a w₁, Q a w₁ → (f a).Safe ext answers I R w₁) : (p.bind f).Safe ext answers I R w := by
  induction p generalizing w with
  | ret a =>
      exact hf a w (h w .refl).2
  | raise msg =>
      exact h
  | call e k ih =>
      exact fun w₁ hmany => ⟨(h w₁ hmany).1, fun r w₂ hanswer => ih r ((h w₁ hmany).2 r w₂ hanswer)⟩

/-- Some calls of the program, as far as a handler answers. -/
def steps (handle : (e : ε) → W → Option (ρ e × W)) : ℕ → Prog ε ρ α → W → Option (Prog ε ρ α × W)
  | n + 1, call e k, w => (handle e w).bind fun x => steps handle n (k x.1) x.2
  | _, p, w => some (p, w)

theorem Among.trans {r : Prog ε ρ α} {w₁ w₂ : W} (h : Among ext answers p w q w₁) (h' : Among ext answers q w₁ r w₂) :
    Among ext answers p w r w₂ := by
  induction h' with
  | refl =>
      exact h
  | call _ hanswer ih =>
      exact ih.call hanswer
  | others _ hstep ih =>
      exact ih.others hstep

/-- Under a handler that answers as admitted, some calls of the program lead on. -/
theorem Among.of_steps {handle : (e : ε) → W → Option (ρ e × W)} {n : ℕ}
    (h : ∀ e w r w', handle e w = some (r, w') → answers e w r w') (hsteps : p.steps handle n w = some (q, w')) :
    Among ext answers p w q w' := by
  induction n generalizing p w with
  | zero =>
      cases p <;> (cases hsteps; exact .refl)
  | succ n ih =>
      cases p with
      | ret a =>
          cases hsteps
          exact .refl
      | raise msg =>
          cases hsteps
          exact .refl
      | call e k =>
          obtain ⟨⟨r, w₁⟩, hanswer, hrest⟩ := Option.bind_eq_some_iff.1 hsteps
          exact (Among.refl.call (h e w r w₁ hanswer)).trans (ih hrest)

end Prog

end Process
