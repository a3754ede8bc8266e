import ProjectManager.Lib.Process

/-!
# Executions

A program that runs alone, its calls answered one after the other, each as `answers` admits.  `Prog.Ensures`
says what holds of every execution, by its log, its end and the world after it; there is one rule for each way
to build a program.
-/

namespace Process

namespace Prog

variable {ε W α β : Type} {ρ : ε → Type}

/-- The program runs from one world to another, with this log and this end. -/
inductive Execs (answers : (e : ε) → W → ρ e → W → Prop) : Prog ε ρ α → W → Log ε ρ → Except String α → W → Prop where
  | ret (a : α) (w : W) : Execs answers (ret a) w [] (.ok a) w
  | raise (msg : String) (w : W) : Execs answers (raise msg) w [] (.error msg) w
  | call {e : ε} {k : ρ e → Prog ε ρ α} {r : ρ e} {w w₁ w' : W} {log : Log ε ρ} {out : Except String α}
      (hanswer : answers e w r w₁) (h : Execs answers (k r) w₁ log out w') :
      Execs answers (call e k) w (⟨e, r⟩ :: log) out w'

/-- What holds of every execution. -/
def Ensures (answers : (e : ε) → W → ρ e → W → Prop) (p : Prog ε ρ α) (w : W) (Q : Log ε ρ → Except String α → W → Prop) :
    Prop :=
  ∀ log out w', Execs answers p w log out w' → Q log out w'

variable {answers : (e : ε) → W → ρ e → W → Prop} {w : W} {Q R : Log ε ρ → Except String α → W → Prop}

theorem Ensures.ret {a : α} (h : Q [] (.ok a) w) : (Prog.ret a).Ensures answers w Q := by
  intro log out w' hexec
  cases hexec with
  | ret _ _ =>
      exact h

theorem Ensures.raise {msg : String} (h : Q [] (.error msg) w) : (Prog.raise msg).Ensures answers w Q := by
  intro log out w' hexec
  cases hexec with
  | raise _ _ =>
      exact h

theorem Ensures.call {e : ε} {k : ρ e → Prog ε ρ α}
    (h : ∀ r w₁, answers e w r w₁ → (k r).Ensures answers w₁ fun log out w' => Q (⟨e, r⟩ :: log) out w') :
    (Prog.call e k).Ensures answers w Q := by
  intro log out w' hexec
  cases hexec with
  | call hanswer hrest =>
      exact h _ _ hanswer _ _ _ hrest

theorem Ensures.mono {p : Prog ε ρ α} (h : p.Ensures answers w Q) (hQ : ∀ log out w', Q log out w' → R log out w') :
    p.Ensures answers w R :=
  fun log out w' hexec => hQ log out w' (h log out w' hexec)

/-- An execution of two programs in a row is one of the first and, when that returns, one of the second. -/
theorem Ensures.bind {p : Prog ε ρ α} {f : α → Prog ε ρ β} {Q' : Log ε ρ → Except String β → W → Prop}
    (h : p.Ensures answers w Q)
    (hok : ∀ log a w₁, Q log (.ok a) w₁ → (f a).Ensures answers w₁ fun log' out w' => Q' (log ++ log') out w')
    (herror : ∀ log msg w₁, Q log (.error msg) w₁ → Q' log (.error msg) w₁) : (p.bind f).Ensures answers w Q' := by
  induction p generalizing w Q Q' with
  | ret a =>
      exact hok [] a w (h _ _ _ (.ret a w))
  | raise msg =>
      exact Ensures.raise (herror [] msg w (h _ _ _ (.raise msg w)))
  | call e k ih =>
      refine Ensures.call fun r w₁ hanswer => ?_
      refine ih r (Q := fun log out w' => Q (⟨e, r⟩ :: log) out w') (fun log out w' hexec => ?_) (fun log a w' hq => ?_)
        fun log msg w' hq => herror _ msg w' hq
      · exact h _ _ _ (.call hanswer hexec)
      · exact hok _ a w' hq

/-- The calls and answers of a program under a handler. -/
def trace (handle : (e : ε) → W → ρ e × W) : Prog ε ρ α → W → Log ε ρ
  | .ret _, _ => []
  | .raise _, _ => []
  | .call e k, w => ⟨e, (handle e w).1⟩ :: (k (handle e w).1).trace handle (handle e w).2

/-- Under a handler that answers as admitted, the program executes. -/
theorem execs_run {handle : (e : ε) → W → ρ e × W} (h : ∀ e w, answers e w (handle e w).1 (handle e w).2)
    (p : Prog ε ρ α) (w : W) : p.Execs answers w (p.trace handle w) (p.run handle w).1 (p.run handle w).2 := by
  induction p generalizing w with
  | ret a =>
      exact .ret a w
  | raise msg =>
      exact .raise msg w
  | call e k ih =>
      exact .call (h e w) (ih _ _)

/-- Under a handler, a program ends as it runs. -/
theorem ends_trace (handle : (e : ε) → W → ρ e × W) (p : Prog ε ρ α) (w : W) :
    p.Ends (p.trace handle w) (p.run handle w).1 := by
  induction p generalizing w with
  | ret a =>
      exact .ret a
  | raise msg =>
      exact .raise msg
  | call e k ih =>
      exact .call (ih _ _)

/-- What a program comes to under a handler, it comes to on the answers of its trace. -/
theorem runs_trace {handle : (e : ε) → W → ρ e × W} {p : Prog ε ρ α} {w : W} {a : α}
    (h : (p.run handle w).1 = .ok a) : p.Runs (p.trace handle w) a := by
  induction p generalizing w with
  | ret b =>
      obtain rfl := Except.ok.inj h
      exact .ret b
  | raise msg =>
      cases h
  | call e k ih =>
      exact .call (ih _ h)

end Prog

end Process
