import ProjectManager.Lib.Execution

/-!
# Calls carried out by programs

The calls of a program may be programs themselves, over other calls.  `carry` puts them in, and `Follows.carry` says
of the result what the program says of itself, for a relation between the two logs that each of the inner programs
keeps.
-/

namespace Process

namespace Prog

variable {ε ε' α : Type} {ρ : ε → Type} {ρ' : ε' → Type}

/-- The program with its calls carried out. -/
def carry (answer : (e : ε) → Prog ε' ρ' (ρ e)) : Prog ε ρ α → Prog ε' ρ' α
  | ret a => ret a
  | raise msg => raise msg
  | call e k => (answer e).bind fun r => (k r).carry answer

variable {answer : (e : ε) → Prog ε' ρ' (ρ e)}

variable {A : (e : ε) → ρ e → Prop} {P : Log ε ρ → ε → Prop} {Q : Log ε ρ → α → Prop} {X : Log ε ρ → String → Prop}
  {A' : (e : ε') → ρ' e → Prop} {P' : Log ε' ρ' → ε' → Prop} {R : Log ε ρ → Log ε' ρ' → Prop}

/-- What a program does by itself it does with its calls carried out, if each of them keeps the relation of the logs
and answers plausibly. -/
theorem Follows.carry {p : Prog ε ρ α} {log : Log ε ρ} {log' : Log ε' ρ'} (h : p.Follows A P Q X log) (hR : R log log')
    (hanswer : ∀ e log log', P log e → R log log' → (answer e).Follows A' P'
      (fun log'' r => A e r ∧ R (log ++ [⟨e, r⟩]) log'') (fun _ _ => True) log') :
    (p.carry answer).Follows A' P' (fun log'' a => ∃ log, R log log'' ∧ Q log a) (fun _ _ => True) log' := by
  induction p generalizing log log' with
  | ret a =>
      exact ⟨log, hR, h⟩
  | raise msg =>
      trivial
  | call e k ih =>
      exact (hanswer e log log' h.1 hR).bind fun log'' r hr => ih r (h.2 r hr.1) hr.2

end Prog

end Process
