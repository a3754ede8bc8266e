import Mathlib.Data.List.Pairwise

/-!
# Processes over a shared world

A `Prog` is a program that issues calls one at a time and goes on with each answer.  Several of them
share a world: a `Pool` runs one call of one process at a time, and may in between start a process,
lose one or see the world change from outside.

* `Prog.Follows` says what a program does by itself: each call, and each end, in terms of the calls
  and answers before it.
* `Spec` couples that with the world: an invariant, and for each process a link between its own log
  and the world that neither its calls nor those of the others break.
* `Spec.ok_of_reach`: the invariant and all the links hold in every pool a run reaches.
-/

namespace Process

/-! ### Programs -/

/-- A program over calls `ε`, each answered by a value of its own type. -/
inductive Prog (ε : Type) (ρ : ε → Type) (α : Type) where
  | ret (a : α)
  | raise (msg : String)
  | call (e : ε) (k : ρ e → Prog ε ρ α)

/-- Calls and their answers, oldest first. -/
abbrev Log (ε : Type) (ρ : ε → Type) :=
  List (Σ e, ρ e)

/-- The log shows a call with its answer. -/
def Log.Has {ε : Type} {ρ : ε → Type} (log : Log ε ρ) (e : ε) (r : ρ e) : Prop :=
  (⟨e, r⟩ : Σ e, ρ e) ∈ log

theorem Log.Has.mono {ε : Type} {ρ : ε → Type} {log log' : Log ε ρ} {e : ε} {r : ρ e} (h : Log.Has log e r)
    (hpre : log <+: log') : Log.Has log' e r :=
  hpre.subset h

theorem Log.has_last {ε : Type} {ρ : ε → Type} (log : Log ε ρ) (e : ε) (r : ρ e) :
    Log.Has (log ++ [⟨e, r⟩]) e r :=
  List.mem_append_right _ (List.mem_singleton.2 rfl)

/-- A call that the longer log shows was there before or is the last one. -/
theorem Log.Has.of_append {ε : Type} {ρ : ε → Type} {log : Log ε ρ} {e e' : ε} {r : ρ e} {r' : ρ e'}
    (h : Log.Has (log ++ [⟨e, r⟩]) e' r') : Log.Has log e' r' ∨ ∃ he : e = e', he ▸ r = r' := by
  rcases List.mem_append.1 h with h | h
  · exact .inl h
  · cases List.mem_singleton.1 h
    exact .inr ⟨rfl, rfl⟩

namespace Prog

variable {ε : Type} {ρ : ε → Type} {α β W : Type}

/-- Goes on with the result. -/
def bind : Prog ε ρ α → (α → Prog ε ρ β) → Prog ε ρ β
  | ret a, f => f a
  | raise msg, _ => raise msg
  | call e k, f => call e fun r => (k r).bind f

instance : Monad (Prog ε ρ) where
  pure := ret
  bind := bind

/-- Issues one call. -/
def ask (e : ε) : Prog ε ρ (ρ e) :=
  call e ret

/-- Goes on with the handler when the program raises. -/
def catchWith : Prog ε ρ α → (String → Prog ε ρ α) → Prog ε ρ α
  | ret a, _ => ret a
  | raise msg, handler => handler msg
  | call e k, handler => call e fun r => (k r).catchWith handler

/-- The result of a checked operation, raised when it failed. -/
def ofExcept : Except String α → Prog ε ρ α
  | .ok a => ret a
  | .error msg => raise msg

/-- The first result that the members of a list give, in order. -/
def firstSome {γ : Type} (f : γ → Prog ε ρ (Option α)) : List γ → Prog ε ρ (Option α)
  | [] => ret none
  | x :: xs => (f x).bind fun
      | some a => ret (some a)
      | none => firstSome f xs

/-- Runs the program alone, all its calls one after the other. -/
def run (handle : (e : ε) → W → ρ e × W) : Prog ε ρ α → W → Except String α × W
  | ret a, w => (.ok a, w)
  | raise msg, w => (.error msg, w)
  | call e k, w => (k (handle e w).1).run handle (handle e w).2

@[simp] theorem pure_eq (a : α) : (pure a : Prog ε ρ α) = ret a :=
  rfl

@[simp] theorem bind_eq (p : Prog ε ρ α) (f : α → Prog ε ρ β) : p >>= f = p.bind f :=
  rfl

@[simp] theorem ret_bind (a : α) (f : α → Prog ε ρ β) : (ret a).bind f = f a :=
  rfl

@[simp] theorem ask_bind (e : ε) (f : ρ e → Prog ε ρ β) : (ask e).bind f = call e f :=
  rfl

theorem bind_assoc {γ : Type} (p : Prog ε ρ α) (f : α → Prog ε ρ β) (g : β → Prog ε ρ γ) :
    (p.bind f).bind g = p.bind fun a => (f a).bind g := by
  induction p with
  | ret a =>
      rfl
  | raise msg =>
      rfl
  | call e k ih =>
      exact congrArg (Prog.call e) (funext ih)

theorem run_bind (handle : (e : ε) → W → ρ e × W) (p : Prog ε ρ α) (f : α → Prog ε ρ β) (w : W) :
    (p.bind f).run handle w =
      match p.run handle w with
      | (.ok a, w') => (f a).run handle w'
      | (.error msg, w') => (.error msg, w') := by
  induction p generalizing w with
  | ret a =>
      rfl
  | raise msg =>
      rfl
  | call e k ih =>
      exact ih _ _

theorem run_bind_ok {handle : (e : ε) → W → ρ e × W} {p : Prog ε ρ α} {f : α → Prog ε ρ β} {w w' : W} {a : α}
    (h : p.run handle w = (.ok a, w')) : (p.bind f).run handle w = (f a).run handle w' := by
  rw [run_bind, h]

theorem run_catchWith_ok {handle : (e : ε) → W → ρ e × W} {p : Prog ε ρ α} {handler : String → Prog ε ρ α} {w w' : W}
    {a : α} (h : p.run handle w = (.ok a, w')) : (p.catchWith handler).run handle w = (.ok a, w') := by
  induction p generalizing w with
  | ret b =>
      exact h
  | raise msg =>
      cases h
  | call e k ih =>
      exact ih _ h

/-- The members of a list that give no result and change nothing are passed over. -/
theorem run_firstSome_append {γ : Type} {handle : (e : ε) → W → ρ e × W} {f : γ → Prog ε ρ (Option α)} {xs ys : List γ}
    {w : W} (h : ∀ x ∈ xs, (f x).run handle w = (.ok none, w)) :
    (firstSome f (xs ++ ys)).run handle w = (firstSome f ys).run handle w := by
  induction xs with
  | nil =>
      rfl
  | cons x xs ih =>
      rw [List.cons_append, firstSome, run_bind_ok (h x (by simp))]
      exact ih fun y hy => h y (by simp [hy])

/-- The first member that gives a result ends the loop. -/
theorem run_firstSome_some {γ : Type} {handle : (e : ε) → W → ρ e × W} {f : γ → Prog ε ρ (Option α)} {x : γ} {xs : List γ}
    {w w' : W} {a : α} (h : (f x).run handle w = (.ok (some a), w')) :
    (firstSome f (x :: xs)).run handle w = (.ok (some a), w') := by
  rw [firstSome, run_bind_ok h]
  rfl

/-- The program, run alone, returns, and what it returns satisfies `Q`. -/
def Returns (handle : (e : ε) → W → ρ e × W) (p : Prog ε ρ α) (w : W) (Q : α → W → Prop) : Prop :=
  ∃ a w', p.run handle w = (.ok a, w') ∧ Q a w'

theorem Returns.call {handle : (e : ε) → W → ρ e × W} {e : ε} {k : ρ e → Prog ε ρ α} {w : W} {Q : α → W → Prop}
    (h : (k (handle e w).1).Returns handle (handle e w).2 Q) : (Prog.call e k).Returns handle w Q :=
  h

theorem Returns.bind {handle : (e : ε) → W → ρ e × W} {p : Prog ε ρ α} {f : α → Prog ε ρ β} {w : W}
    {Q : α → W → Prop} {R : β → W → Prop} (h : p.Returns handle w Q)
    (hf : ∀ a w', Q a w' → (f a).Returns handle w' R) : (p.bind f).Returns handle w R := by
  obtain ⟨a, w', hrun, hQ⟩ := h
  obtain ⟨b, w'', hrun', hR⟩ := hf a w' hQ
  exact ⟨b, w'', by rw [run_bind_ok hrun, hrun'], hR⟩

theorem Returns.mono {handle : (e : ε) → W → ρ e × W} {p : Prog ε ρ α} {w : W} {Q R : α → W → Prop}
    (h : p.Returns handle w Q) (hQ : ∀ a w', Q a w' → R a w') : p.Returns handle w R := by
  obtain ⟨a, w', hrun, ha⟩ := h
  exact ⟨a, w', hrun, hQ a w' ha⟩

/-! ### What a program does by itself -/

/-- Every call satisfies `P` of the log before it, whatever plausible answers came; every return and
every exception satisfies `Q` and `X` of the whole log. -/
def Follows (A : (e : ε) → ρ e → Prop) (P : Log ε ρ → ε → Prop) (Q : Log ε ρ → α → Prop)
    (X : Log ε ρ → String → Prop) : Prog ε ρ α → Log ε ρ → Prop
  | ret a, log => Q log a
  | raise msg, log => X log msg
  | call e k, log => P log e ∧ ∀ r, A e r → (k r).Follows A P Q X (log ++ [⟨e, r⟩])

variable {A : (e : ε) → ρ e → Prop} {P : Log ε ρ → ε → Prop} {Q Q' : Log ε ρ → α → Prop}
  {R : Log ε ρ → β → Prop} {X X' : Log ε ρ → String → Prop}

theorem Follows.mono {p : Prog ε ρ α} {log : Log ε ρ} (h : p.Follows A P Q X log)
    (hQ : ∀ log a, Q log a → Q' log a) (hX : ∀ log msg, X log msg → X' log msg) :
    p.Follows A P Q' X' log := by
  induction p generalizing log with
  | ret a =>
      exact hQ _ _ h
  | raise msg =>
      exact hX _ _ h
  | call e k ih =>
      exact ⟨h.1, fun r hr => ih r (h.2 r hr)⟩

theorem Follows.bind {p : Prog ε ρ α} {f : α → Prog ε ρ β} {log : Log ε ρ} (h : p.Follows A P Q X log)
    (hf : ∀ log a, Q log a → (f a).Follows A P R X log) : (p.bind f).Follows A P R X log := by
  induction p generalizing log with
  | ret a =>
      exact hf _ _ h
  | raise msg =>
      exact h
  | call e k ih =>
      exact ⟨h.1, fun r hr => ih r (h.2 r hr)⟩

theorem Follows.catchWith {p : Prog ε ρ α} {handler : String → Prog ε ρ α} {log : Log ε ρ}
    (h : p.Follows A P Q X log) (hh : ∀ log msg, X log msg → (handler msg).Follows A P Q X' log) :
    (p.catchWith handler).Follows A P Q X' log := by
  induction p generalizing log with
  | ret a =>
      exact h
  | raise msg =>
      exact hh _ _ h
  | call e k ih =>
      exact ⟨h.1, fun r hr => ih r (h.2 r hr)⟩

/-- At its ends, the log of a program goes on from where it began. -/
theorem Follows.grows {p : Prog ε ρ α} {log : Log ε ρ} (h : p.Follows A P Q X log) :
    p.Follows A P (fun log' a => log <+: log' ∧ Q log' a) (fun log' msg => log <+: log' ∧ X log' msg) log := by
  induction p generalizing log with
  | ret a =>
      exact ⟨List.prefix_rfl, h⟩
  | raise msg =>
      exact ⟨List.prefix_rfl, h⟩
  | call e k ih =>
      have hpre : ∀ {r : ρ e} {log' : Log ε ρ}, log ++ [⟨e, r⟩] <+: log' → log <+: log' :=
        fun h => (List.prefix_append log _).trans h
      exact ⟨h.1, fun r hr => (ih r (h.2 r hr)).mono (fun _ _ h => ⟨hpre h.1, h.2⟩) fun _ _ h => ⟨hpre h.1, h.2⟩⟩

/-- A rule that asks nothing. -/
theorem Follows.of_forall {p : Prog ε ρ α} {log : Log ε ρ} (hP : ∀ log e, P log e) :
    p.Follows A P (fun _ _ => True) (fun _ _ => True) log := by
  induction p generalizing log with
  | ret a =>
      exact trivial
  | raise msg =>
      exact trivial
  | call e k ih =>
      exact ⟨hP log e, fun r _ => ih r⟩

/-- What two rules say of the ends of a program, with the calls of the second one. -/
theorem Follows.and {P' : Log ε ρ → ε → Prop} {p : Prog ε ρ α} {log : Log ε ρ} (h : p.Follows A P Q X log)
    (h' : p.Follows A P' Q' X' log) : p.Follows A P' (fun log a => Q log a ∧ Q' log a) X' log := by
  induction p generalizing log with
  | ret a =>
      exact ⟨h, h'⟩
  | raise msg =>
      exact h'
  | call e k ih =>
      exact ⟨h'.1, fun r hr => ih r (h.2 r hr) (h'.2 r hr)⟩

theorem Follows.ofExcept {x : Except String α} {log : Log ε ρ} (hok : ∀ a, x = .ok a → Q log a)
    (herror : ∀ msg, x = .error msg → X log msg) :
    (Prog.ofExcept x : Prog ε ρ α).Follows A P Q X log := by
  cases x with
  | ok a =>
      exact hok a rfl
  | error msg =>
      exact herror msg rfl

/-- What an optional result means: `N` when there is none, `S` of the result otherwise. -/
def Outcome (N : Log ε ρ → Prop) (S : Log ε ρ → α → Prop) (log : Log ε ρ) : Option α → Prop
  | none => N log
  | some a => S log a

/-- A loop that stops at the first result: `J` holds before each member, `F x` is what a member without
result leaves behind, and it stays true of longer logs. -/
theorem Follows.firstSome {γ : Type} {f : γ → Prog ε ρ (Option α)} {J : Log ε ρ → Prop}
    {F : γ → Log ε ρ → Prop} {xs : List γ} {log : Log ε ρ} (hJ : J log)
    (hmono : ∀ x log log', F x log → log <+: log' → F x log')
    (hstep : ∀ x ∈ xs, ∀ log, J log →
      (f x).Follows A P (Outcome (fun log' => log <+: log' ∧ J log' ∧ F x log') Q) X log) :
    (Prog.firstSome f xs).Follows A P
      (Outcome (fun log' => log <+: log' ∧ J log' ∧ ∀ x ∈ xs, F x log') Q) X log := by
  induction xs generalizing log with
  | nil =>
      exact ⟨List.prefix_rfl, hJ, by simp⟩
  | cons x xs ih =>
      refine (hstep x (by simp) log hJ).bind fun log' r hr => ?_
      cases r with
      | some a =>
          exact hr
      | none =>
          obtain ⟨hpre, hJ', hx⟩ := hr
          refine (ih hJ' fun y hy => hstep y (by simp [hy])).mono ?_ fun _ _ h => h
          intro log'' r hr
          cases r with
          | some a =>
              exact hr
          | none =>
              obtain ⟨hpre', hJ'', hxs⟩ := hr
              refine ⟨hpre.trans hpre', hJ'', fun y hy => ?_⟩
              rcases List.mem_cons.1 hy with rfl | hy
              · exact hmono _ _ _ hx hpre'
              · exact hxs y hy

/-! ### Programs that issue only some calls -/

/-- Every call that the program can issue satisfies `H`, and every result satisfies `F`. -/
def Only (H : ε → Prop) (F : α → Prop) : Prog ε ρ α → Prop
  | ret a => F a
  | raise _ => True
  | call e k => H e ∧ ∀ r, (k r).Only H F

variable {H : ε → Prop} {F : α → Prop} {G : β → Prop}

theorem Only.bind {p : Prog ε ρ α} {f : α → Prog ε ρ β} (h : p.Only H F) (hf : ∀ a, F a → (f a).Only H G) :
    (p.bind f).Only H G := by
  induction p with
  | ret a =>
      exact hf a h
  | raise msg =>
      exact trivial
  | call e k ih =>
      exact ⟨h.1, fun r => ih r (h.2 r)⟩

theorem Only.mono {H' : ε → Prop} {p : Prog ε ρ α} (h : p.Only H F) (hH : ∀ e, H e → H' e) :
    p.Only H' fun _ => True := by
  induction p with
  | ret a =>
      exact trivial
  | raise msg =>
      exact trivial
  | call e k ih =>
      exact ⟨hH e h.1, fun r => ih r (h.2 r)⟩

/-- A program run by itself keeps what each of its calls keeps. -/
theorem Only.run_keeps {handle : (e : ε) → W → ρ e × W} {I : W → Prop} {p : Prog ε ρ α} (h : p.Only H F)
    (hkeeps : ∀ e w, H e → I w → I (handle e w).2) {w : W} (hw : I w) :
    I (p.run handle w).2 ∧ ∀ a, (p.run handle w).1 = .ok a → F a := by
  induction p generalizing w with
  | ret a =>
      refine ⟨hw, fun b hb => ?_⟩
      rw [← Except.ok.inj hb]
      exact h
  | raise msg =>
      exact ⟨hw, fun a ha => by cases ha⟩
  | call e k ih =>
      exact ih _ (h.2 _) (hkeeps e w h.1 hw)

theorem Only.firstSome {γ : Type} {f : γ → Prog ε ρ (Option α)} (h : ∀ x, (f x).Only H fun _ => True) (xs : List γ) :
    (Prog.firstSome f xs).Only H fun _ => True := by
  induction xs with
  | nil =>
      exact trivial
  | cons x xs ih =>
      refine (h x).bind fun r _ => ?_
      cases r with
      | none =>
          exact ih
      | some a =>
          exact trivial

theorem Only.ofExcept (x : Except String α) : (Prog.ofExcept x : Prog ε ρ α).Only H fun _ => True := by
  cases x <;> exact trivial

/-- The log is longer by calls of the given kind only. -/
def Added (H : ε → Prop) (log log' : Log ε ρ) : Prop :=
  ∃ more, log' = log ++ more ∧ ∀ x ∈ more, H x.1

theorem Added.refl (log : Log ε ρ) : Added H log log :=
  ⟨[], by simp, by simp⟩

theorem Added.mono {H' : ε → Prop} {log log' : Log ε ρ} (h : Added H log log') (hH : ∀ e, H e → H' e) :
    Added H' log log' := by
  obtain ⟨more, rfl, hmore⟩ := h
  exact ⟨more, rfl, fun x hx => hH _ (hmore x hx)⟩

theorem Added.trans {log₁ log₂ log₃ : Log ε ρ} (h : Added H log₁ log₂) (h' : Added H log₂ log₃) :
    Added H log₁ log₃ := by
  obtain ⟨more, rfl, hmore⟩ := h
  obtain ⟨more', rfl, hmore'⟩ := h'
  refine ⟨more ++ more', by simp, fun x hx => ?_⟩
  rcases List.mem_append.1 hx with hx | hx
  · exact hmore x hx
  · exact hmore' x hx

theorem Added.one {log : Log ε ρ} {e : ε} {r : ρ e} (h : H e) : Added H log (log ++ [⟨e, r⟩]) := by
  refine ⟨[⟨e, r⟩], rfl, fun x hx => ?_⟩
  rw [List.mem_singleton.1 hx]
  exact h

theorem Added.after {log log' : Log ε ρ} {e : ε} {r : ρ e} (h : Added H (log ++ [⟨e, r⟩]) log') (he : H e) :
    Added H log log' :=
  (Added.one he).trans h

theorem Added.asked {log log' : Log ε ρ} (h : Added H log log') {e : ε} (he : H e) (r : ρ e) :
    Added H log (log' ++ [⟨e, r⟩]) :=
  h.trans (.one he)

theorem Added.grows {log log' : Log ε ρ} (h : Added H log log') : log <+: log' := by
  obtain ⟨more, rfl, -⟩ := h
  exact List.prefix_append log more

/-- A program that issues only harmless calls, before and after anything else. -/
theorem Only.follows {p : Prog ε ρ α} (h : p.Only H F) (hP : ∀ log e, H e → P log e) (log : Log ε ρ) :
    p.Follows A P (fun log' a => Added H log log' ∧ F a) (fun log' _ => Added H log log') log := by
  suffices hgen : ∀ log', Added H log log' →
      p.Follows A P (fun log' a => Added H log log' ∧ F a) (fun log' _ => Added H log log') log' from
    hgen log (.refl log)
  induction p with
  | ret a =>
      exact fun _ hlog => ⟨hlog, h⟩
  | raise msg =>
      exact fun _ hlog => hlog
  | call e k ih =>
      exact fun log' hlog => ⟨hP log' e h.1, fun r _ => ih r (h.2 r) _ (hlog.trans (.one h.1))⟩

/-- What every return satisfies, whatever the log. -/
theorem Follows.only {p : Prog ε ρ α} {log : Log ε ρ} (h : p.Follows (fun _ _ => True) P Q X log)
    (hF : ∀ log a, Q log a → F a) : p.Only (fun _ => True) F := by
  induction p generalizing log with
  | ret a =>
      exact hF log a h
  | raise msg =>
      exact trivial
  | call e k ih =>
      exact ⟨trivial, fun r => ih r (h.2 r trivial)⟩

/-! ### Whole runs of a program -/

/-- The program ends with `a` when its calls get the answers of the log. -/
inductive Runs : Prog ε ρ α → Log ε ρ → α → Prop where
  | ret (a : α) : Runs (ret a) [] a
  | call {e : ε} {k : ρ e → Prog ε ρ α} {r : ρ e} {log : Log ε ρ} {a : α} (h : Runs (k r) log a) :
      Runs (call e k) (⟨e, r⟩ :: log) a

theorem Runs.of_bind {p : Prog ε ρ α} {f : α → Prog ε ρ β} {log : Log ε ρ} {b : β}
    (h : (p.bind f).Runs log b) : ∃ log₁ a log₂, log = log₁ ++ log₂ ∧ p.Runs log₁ a ∧ (f a).Runs log₂ b := by
  induction p generalizing log with
  | ret a =>
      exact ⟨[], a, log, rfl, .ret a, h⟩
  | raise msg =>
      cases h
  | call e k ih =>
      cases h with
      | @call _ _ r rest _ hrest =>
          obtain ⟨log₁, a, log₂, rfl, hp, hf⟩ := ih r hrest
          exact ⟨⟨e, r⟩ :: log₁, a, log₂, rfl, .call hp, hf⟩

theorem Runs.of_ret {a b : α} {log : Log ε ρ} (h : (Prog.ret a : Prog ε ρ α).Runs log b) : b = a ∧ log = [] := by
  cases h
  exact ⟨rfl, rfl⟩

theorem Runs.of_call {e : ε} {k : ρ e → Prog ε ρ α} {log : Log ε ρ} {a : α} (h : (Prog.call e k).Runs log a) :
    ∃ r rest, log = ⟨e, r⟩ :: rest ∧ (k r).Runs rest a := by
  cases h with
  | @call _ _ r rest _ hrest =>
      exact ⟨r, rest, rfl, hrest⟩

/-- A program that issues only some calls has no others in its log. -/
theorem Only.of_runs {H : ε → Prop} {F : α → Prop} {p : Prog ε ρ α} {log : Log ε ρ} {a : α} (h : p.Only H F)
    (hruns : p.Runs log a) : (∀ x ∈ log, H x.1) ∧ F a := by
  induction hruns with
  | ret a =>
      exact ⟨by simp, h⟩
  | call hruns ih =>
      obtain ⟨hlog, ha⟩ := ih (h.2 _)
      exact ⟨List.forall_mem_cons.2 ⟨h.1, hlog⟩, ha⟩

/-- The program ends, by returning or raising, when its calls get the answers of the log. -/
inductive Ends : Prog ε ρ α → Log ε ρ → Except String α → Prop where
  | ret (a : α) : Ends (ret a) [] (.ok a)
  | raise (msg : String) : Ends (raise msg) [] (.error msg)
  | call {e : ε} {k : ρ e → Prog ε ρ α} {r : ρ e} {log : Log ε ρ} {out : Except String α} (h : Ends (k r) log out) :
      Ends (call e k) (⟨e, r⟩ :: log) out

theorem Ends.of_call {e : ε} {k : ρ e → Prog ε ρ α} {r : ρ e} {log : Log ε ρ} {out : Except String α}
    (h : (Prog.call e k).Ends (⟨e, r⟩ :: log) out) : (k r).Ends log out := by
  cases h with
  | call h =>
      exact h

/-- A sequence ends where its first part raises, or where its second part ends. -/
theorem Ends.of_bind {p : Prog ε ρ α} {f : α → Prog ε ρ β} {log : Log ε ρ} {out : Except String β}
    (h : (p.bind f).Ends log out) :
    (∃ msg, p.Ends log (.error msg) ∧ out = .error msg) ∨
      ∃ before a after, log = before ++ after ∧ p.Ends before (.ok a) ∧ (f a).Ends after out := by
  induction p generalizing log with
  | ret a =>
      exact .inr ⟨[], a, log, rfl, .ret a, h⟩
  | raise msg =>
      cases h with
      | raise =>
          exact .inl ⟨msg, .raise msg, rfl⟩
  | call e k ih =>
      cases h with
      | call h =>
          obtain ⟨msg, hraise, hout⟩ | ⟨before, a, after, rfl, hbefore, hafter⟩ := ih _ h
          · exact .inl ⟨msg, .call hraise, hout⟩
          · exact .inr ⟨_, a, after, rfl, .call hbefore, hafter⟩

/-- How a program ends is what it says of its ends. -/
theorem Follows.ends {E : Log ε ρ → Except String α → Prop} {p : Prog ε ρ α} {before log : Log ε ρ}
    {out : Except String α}
    (h : p.Follows (fun _ _ => True) P (fun log a => E log (.ok a)) (fun log msg => E log (.error msg)) before)
    (hends : p.Ends log out) : E (before ++ log) out := by
  induction hends generalizing before with
  | ret a =>
      rw [List.append_nil]
      exact h
  | raise msg =>
      rw [List.append_nil]
      exact h
  | call _ ih =>
      simpa using ih (h.2 _ trivial)

/-- Runs the program on the answers of a log. -/
def replay [DecidableEq ε] : Prog ε ρ α → Log ε ρ → Option α
  | ret a, [] => some a
  | call e k, ⟨e', r⟩ :: log => if h : e' = e then (k (h ▸ r)).replay log else none
  | _, _ => none

theorem runs_of_replay [DecidableEq ε] {p : Prog ε ρ α} {log : Log ε ρ} {a : α} (h : p.replay log = some a) :
    p.Runs log a := by
  induction p generalizing log with
  | ret b =>
      cases log with
      | nil =>
          obtain rfl := Option.some.inj h
          exact .ret b
      | cons x log =>
          cases h
  | raise msg =>
      cases log <;> cases h
  | call e k ih =>
      cases log with
      | nil =>
          cases h
      | cons x log =>
          obtain ⟨e', r⟩ := x
          simp only [replay] at h
          split at h
          · rename_i heq
            subst heq
            exact .call (ih _ h)
          · cases h

end Prog

/-! ### Pools -/

section Pools

variable (W Party ε : Type) (ρ : ε → Type)

/-- A running process: who it is, what it has left to do and what it has done. -/
structure Proc where
  party : Party
  prog : Prog ε ρ Unit
  log : Log ε ρ

/-- A world and the processes that share it. -/
structure Pool where
  world : W
  procs : List (Proc Party ε ρ)

/-- What the calls do and what else can happen. -/
structure System where
  /-- the answer to a call and the world after it -/
  handle : (e : ε) → W → ρ e × W
  /-- the process that a call starts, if it starts one -/
  forks : ε → Option (Party × Prog ε ρ Unit)
  /-- the processes that may start by themselves beside the present ones -/
  starts : Pool W Party ε ρ → Party → Prog ε ρ Unit → Prop
  /-- the changes of the world that no process makes -/
  ext : W → W → Prop
  /-- the calls that the run lets through -/
  allows : Pool W Party ε ρ → Party → ε → Prop

end Pools

variable {W Party ε : Type} {ρ : ε → Type}

/-- The call that a process issues next. -/
def Proc.next (p : Proc Party ε ρ) : Option ε :=
  match p.prog with
  | .call e _ => some e
  | _ => none

namespace System

variable (S : System W Party ε ρ)

/-- A process at its beginning. -/
def fresh (x : Party × Prog ε ρ Unit) : Proc Party ε ρ :=
  ⟨x.1, x.2, []⟩

/-- One step of a pool. -/
inductive Step : Pool W Party ε ρ → Pool W Party ε ρ → Prop where
  | run {w : W} {before after : List (Proc Party ε ρ)} {p : Party} {e : ε} {k : ρ e → Prog ε ρ Unit}
      {log : Log ε ρ} (allowed : S.allows ⟨w, before ++ ⟨p, .call e k, log⟩ :: after⟩ p e) :
      Step ⟨w, before ++ ⟨p, .call e k, log⟩ :: after⟩
        ⟨(S.handle e w).2,
          before ++ ⟨p, k (S.handle e w).1, log ++ [⟨e, (S.handle e w).1⟩]⟩ :: after ++
            ((S.forks e).map fresh).toList⟩
  | start {pool : Pool W Party ε ρ} {p : Party} {prog : Prog ε ρ Unit} (h : S.starts pool p prog) :
      Step pool ⟨pool.world, pool.procs ++ [fresh (p, prog)]⟩
  | leave {w : W} {before after : List (Proc Party ε ρ)} {p : Proc Party ε ρ} :
      Step ⟨w, before ++ p :: after⟩ ⟨w, before ++ after⟩
  | ext {w w' : W} {procs : List (Proc Party ε ρ)} (h : S.ext w w') : Step ⟨w, procs⟩ ⟨w', procs⟩

/-- The pools that runs reach from an initial one. -/
inductive Reach (init : Pool W Party ε ρ → Prop) : Pool W Party ε ρ → Prop where
  | init {pool : Pool W Party ε ρ} (h : init pool) : Reach init pool
  | step {pool pool' : Pool W Party ε ρ} (h : Reach init pool) (hstep : S.Step pool pool') :
      Reach init pool'

/-- A run that goes on from a pool that a run has reached. -/
theorem Reach.trans {S : System W Party ε ρ} {init : Pool W Party ε ρ → Prop} {pool pool' : Pool W Party ε ρ}
    (h : S.Reach init pool) (h' : S.Reach (fun q => q = pool) pool') : S.Reach init pool' := by
  induction h' with
  | init heq =>
      rw [heq]
      exact h
  | step _ hstep ih =>
      exact ih.step hstep

/-- Runs up to `n` calls of the process at the head of the pool. -/
def runHead : ℕ → Pool W Party ε ρ → Pool W Party ε ρ
  | 0, pool => pool
  | n + 1, ⟨w, ⟨p, .call e k, log⟩ :: after⟩ =>
      runHead n
        ⟨(S.handle e w).2,
          ⟨p, k (S.handle e w).1, log ++ [⟨e, (S.handle e w).1⟩]⟩ :: after ++
            ((S.forks e).map fresh).toList⟩
  | _ + 1, pool => pool

/-- Runs up to `n` calls of the process at place `i`, as long as the test lets them through. -/
def runAt (ok : Pool W Party ε ρ → Party → ε → Bool) (i : ℕ) : ℕ → Pool W Party ε ρ → Pool W Party ε ρ
  | 0, pool => pool
  | n + 1, pool =>
      match pool.procs[i]? with
      | some ⟨p, .call e k, log⟩ =>
          if ok pool p e then
            runAt ok i n
              ⟨(S.handle e pool.world).2,
                pool.procs.set i ⟨p, k (S.handle e pool.world).1, log ++ [⟨e, (S.handle e pool.world).1⟩]⟩ ++
                  ((S.forks e).map fresh).toList⟩
          else
            pool
      | _ => pool

variable {S}

/-- The call of the process at one place. -/
theorem Step.at {pool : Pool W Party ε ρ} {i : ℕ} {p : Party} {e : ε} {k : ρ e → Prog ε ρ Unit} {log : Log ε ρ}
    (hi : pool.procs[i]? = some ⟨p, .call e k, log⟩) (hallows : S.allows pool p e) :
    S.Step pool ⟨(S.handle e pool.world).2,
      pool.procs.set i ⟨p, k (S.handle e pool.world).1, log ++ [⟨e, (S.handle e pool.world).1⟩]⟩ ++
        ((S.forks e).map fresh).toList⟩ := by
  obtain ⟨w, procs⟩ := pool
  obtain ⟨hlt, hget⟩ := List.getElem?_eq_some_iff.1 hi
  have hsplit : procs = procs.take i ++ ⟨p, .call e k, log⟩ :: procs.drop (i + 1) := by
    rw [← hget, List.getElem_cons_drop, List.take_append_drop]
  rw [hsplit] at hallows
  have hset : ∀ x, procs.set i x = procs.take i ++ x :: procs.drop (i + 1) := fun x => by
    rw [List.set_eq_take_append_cons_drop, if_pos hlt]
  rw [hset]
  conv =>
    arg 2
    rw [hsplit]
  exact .run hallows

theorem Reach.runAt {init : Pool W Party ε ρ → Prop} {ok : Pool W Party ε ρ → Party → ε → Bool}
    (hok : ∀ pool p e, ok pool p e = true → S.allows pool p e) (i n : ℕ) {pool : Pool W Party ε ρ}
    (h : S.Reach init pool) : S.Reach init (S.runAt ok i n pool) := by
  induction n generalizing pool with
  | zero =>
      exact h
  | succ n ih =>
      unfold System.runAt
      split
      · rename_i p e k log hi
        split
        · rename_i hyes
          exact ih (h.step (.at hi (hok _ _ _ hyes)))
        · exact h
      · exact h

/-- The process at one place leaves. -/
theorem Reach.leaveAt {init : Pool W Party ε ρ → Prop} (i : ℕ) {pool : Pool W Party ε ρ} (h : S.Reach init pool) :
    S.Reach init ⟨pool.world, pool.procs.eraseIdx i⟩ := by
  obtain ⟨w, procs⟩ := pool
  by_cases hlt : i < procs.length
  · have hsplit : procs = procs.take i ++ procs[i] :: procs.drop (i + 1) := by
      rw [List.getElem_cons_drop, List.take_append_drop]
    have hstep : S.Step ⟨w, procs.take i ++ procs[i] :: procs.drop (i + 1)⟩
        ⟨w, procs.take i ++ procs.drop (i + 1)⟩ := .leave
    rw [← hsplit, ← List.eraseIdx_eq_take_drop_succ] at hstep
    exact h.step hstep
  · rw [List.eraseIdx_of_length_le (Nat.le_of_not_lt hlt)]
    exact h

theorem Reach.runHead {init : Pool W Party ε ρ → Prop} (hall : ∀ pool p e, S.allows pool p e) (n : ℕ)
    {pool : Pool W Party ε ρ} (h : S.Reach init pool) : S.Reach init (S.runHead n pool) := by
  induction n generalizing pool with
  | zero =>
      exact h
  | succ n ih =>
      obtain ⟨w, procs⟩ := pool
      rcases procs with _ | ⟨⟨p, prog, log⟩, after⟩
      · exact h
      cases prog with
      | ret a =>
          exact h
      | raise msg =>
          exact h
      | call e k =>
          have hstep : S.Step ⟨w, [] ++ ⟨p, .call e k, log⟩ :: after⟩ _ := .run (hall _ p e)
          exact ih (h.step hstep)

/-- The last process of the pool issues its next call. -/
theorem Reach.runLast {init : Pool W Party ε ρ → Prop} {w : W} {procs : List (Proc Party ε ρ)} {p : Party}
    {e : ε} {k : ρ e → Prog ε ρ Unit} {log : Log ε ρ}
    (hallows : S.allows ⟨w, procs ++ [⟨p, .call e k, log⟩]⟩ p e) (hforks : S.forks e = none)
    (h : S.Reach init ⟨w, procs ++ [⟨p, .call e k, log⟩]⟩) :
    S.Reach init ⟨(S.handle e w).2, procs ++ [⟨p, k (S.handle e w).1, log ++ [⟨e, (S.handle e w).1⟩]⟩]⟩ := by
  have hstep : S.Step ⟨w, procs ++ ⟨p, .call e k, log⟩ :: []⟩ _ := .run hallows
  rw [hforks] at hstep
  exact h.step (by simpa using hstep)

/-- The last process of the pool leaves. -/
theorem Reach.leaveLast {init : Pool W Party ε ρ → Prop} {w : W} {procs : List (Proc Party ε ρ)}
    {p : Proc Party ε ρ} (h : S.Reach init ⟨w, procs ++ [p]⟩) : S.Reach init ⟨w, procs⟩ := by
  have hstep : S.Step ⟨w, procs ++ p :: []⟩ ⟨w, procs ++ []⟩ := .leave
  rw [List.append_nil] at hstep
  exact h.step hstep

/-- The processes that the calls of a program start when it runs alone. -/
def forked (S : System W Party ε ρ) : Prog ε ρ Unit → W → List (Proc Party ε ρ)
  | .ret _, _ => []
  | .raise _, _ => []
  | .call e k, w => ((S.forks e).map fresh).toList ++ forked S (k (S.handle e w).1) (S.handle e w).2

theorem forked_eq_nil (hforks : ∀ e, S.forks e = none) (prog : Prog ε ρ Unit) (w : W) : S.forked prog w = [] := by
  induction prog generalizing w with
  | ret a =>
      rfl
  | raise msg =>
      rfl
  | call e k ih =>
      rw [forked, hforks, ih]
      rfl

/-- A process may run to its end undisturbed and leave. -/
theorem Reach.alone {init : Pool W Party ε ρ → Prop} (hall : ∀ pool p e, S.allows pool p e) {w : W}
    {before after : List (Proc Party ε ρ)} {p : Party} {prog : Prog ε ρ Unit} {log : Log ε ρ}
    (h : S.Reach init ⟨w, before ++ ⟨p, prog, log⟩ :: after⟩) :
    S.Reach init ⟨(prog.run S.handle w).2, before ++ after ++ S.forked prog w⟩ := by
  induction prog generalizing w after log with
  | ret a =>
      rw [forked, List.append_nil]
      exact h.step .leave
  | raise msg =>
      rw [forked, List.append_nil]
      exact h.step .leave
  | call e k ih =>
      have hstep : S.Step ⟨w, before ++ ⟨p, .call e k, log⟩ :: after⟩ _ := .run (hall _ p e)
      have hnext := h.step hstep
      rw [List.append_assoc, List.cons_append] at hnext
      have hrest := ih _ hnext
      rw [← List.append_assoc, List.append_assoc] at hrest
      exact hrest

/-- A process may start, run to its end undisturbed and leave. -/
theorem Reach.serve {init : Pool W Party ε ρ → Prop} (hall : ∀ pool p e, S.allows pool p e)
    (hforks : ∀ e, S.forks e = none) {w : W} {procs : List (Proc Party ε ρ)} {p : Party}
    {prog : Prog ε ρ Unit} (hstart : S.starts ⟨w, procs⟩ p prog) (h : S.Reach init ⟨w, procs⟩) :
    S.Reach init ⟨(prog.run S.handle w).2, procs⟩ := by
  have hend := Reach.alone hall (h.step (.start hstart))
  rwa [forked_eq_nil hforks, List.append_nil, List.append_nil] at hend

end System

/-! ### Specifications -/

/-- An invariant of the world and a link of each process's log to it, with the proofs that every step
keeps both. -/
structure Spec (S : System W Party ε ρ) where
  /-- what holds of the world at all times -/
  Inv : W → Prop
  /-- what a process's log says of the world -/
  Link : Party → Log ε ρ → W → Prop
  /-- what the programs of a party keep to -/
  Obeys : Party → Log ε ρ → ε → Prop
  /-- the answers that can come -/
  Plausible : (e : ε) → ρ e → Prop
  /-- two parties that can be in one pool -/
  Apart : Party → Party → Prop
  apart_symm : ∀ {p q : Party}, Apart p q → Apart q p
  own : ∀ {p : Party} {log : Log ε ρ} {w : W} {e : ε}, Inv w → Link p log w → Obeys p log e →
    Plausible e (S.handle e w).1 ∧ Inv (S.handle e w).2 ∧
      Link p (log ++ [⟨e, (S.handle e w).1⟩]) (S.handle e w).2
  others : ∀ {p q : Party} {log log' : Log ε ρ} {w : W} {e : ε}, Inv w → Link p log w → Obeys p log e →
    Apart p q → Link q log' w → Link q log' (S.handle e w).2
  outside : ∀ {w w' : W}, Inv w → S.ext w w' → Inv w' ∧ ∀ q log, Link q log w → Link q log w'
  starting : ∀ {pool : Pool W Party ε ρ} {p : Party} {prog : Prog ε ρ Unit}, Inv pool.world →
    S.starts pool p prog → Link p [] pool.world ∧ (∀ q ∈ pool.procs, Apart p q.party) ∧
      prog.Follows Plausible (Obeys p) (fun _ _ => True) (fun _ _ => True) []
  forking : ∀ {p p' : Party} {log : Log ε ρ} {w : W} {e : ε} {prog : Prog ε ρ Unit}, Inv w →
    Link p log w → Obeys p log e → S.forks e = some (p', prog) →
      Link p' [] (S.handle e w).2 ∧ (∀ q log', Link q log' w → Apart p' q) ∧
        prog.Follows Plausible (Obeys p') (fun _ _ => True) (fun _ _ => True) []

namespace Spec

variable {S : System W Party ε ρ} (T : Spec S)

/-- A process does what its party keeps to, and its log is linked to the world. -/
def ProcOk (w : W) (p : Proc Party ε ρ) : Prop :=
  p.prog.Follows T.Plausible (T.Obeys p.party) (fun _ _ => True) (fun _ _ => True) p.log ∧
    T.Link p.party p.log w

/-- The invariant of pools. -/
structure PoolOk (pool : Pool W Party ε ρ) : Prop where
  inv : T.Inv pool.world
  apart : pool.procs.Pairwise fun p q => T.Apart p.party q.party
  procs : ∀ p ∈ pool.procs, T.ProcOk pool.world p

variable {T}

/-- The processes other than the one that runs: they are apart from it and stay linked. -/
theorem PoolOk.others_ok {w : W} {before after : List (Proc Party ε ρ)} {p : Party} {e : ε}
    {k : ρ e → Prog ε ρ Unit} {log : Log ε ρ}
    (h : T.PoolOk ⟨w, before ++ ⟨p, .call e k, log⟩ :: after⟩) {q : Proc Party ε ρ}
    (hq : q ∈ before ∨ q ∈ after) : T.Apart p q.party ∧ T.ProcOk (S.handle e w).2 q := by
  obtain ⟨hobeys, hlink⟩ := h.procs ⟨p, .call e k, log⟩ (by simp)
  have hapart : T.Apart p q.party := by
    have hpair := h.apart
    rw [List.pairwise_append] at hpair
    rcases hq with hq | hq
    · exact T.apart_symm (hpair.2.2 q hq ⟨p, .call e k, log⟩ (by simp))
    · exact (List.pairwise_cons.1 hpair.2.1).1 q hq
  obtain ⟨hfollows, hlink'⟩ := h.procs q (by
    rcases hq with hq | hq <;> simp [hq])
  exact ⟨hapart, hfollows, T.others h.inv hlink hobeys.1 hapart hlink'⟩

theorem PoolOk.run {w : W} {before after : List (Proc Party ε ρ)} {p : Party} {e : ε}
    {k : ρ e → Prog ε ρ Unit} {log : Log ε ρ}
    (h : T.PoolOk ⟨w, before ++ ⟨p, .call e k, log⟩ :: after⟩) :
    T.PoolOk ⟨(S.handle e w).2,
      before ++ ⟨p, k (S.handle e w).1, log ++ [⟨e, (S.handle e w).1⟩]⟩ :: after ++
        ((S.forks e).map System.fresh).toList⟩ := by
  obtain ⟨hobeys, hlink⟩ := h.procs ⟨p, .call e k, log⟩ (by simp)
  obtain ⟨hanswer, hinv, hlink'⟩ := T.own h.inv hlink hobeys.1
  have hself : T.ProcOk (S.handle e w).2
      ⟨p, k (S.handle e w).1, log ++ [⟨e, (S.handle e w).1⟩]⟩ := ⟨hobeys.2 _ hanswer, hlink'⟩
  have hpair := h.apart
  rw [List.pairwise_append, List.pairwise_cons] at hpair
  have hold : (before ++ ⟨p, k (S.handle e w).1, log ++ [⟨e, (S.handle e w).1⟩]⟩ :: after).Pairwise
      fun p q => T.Apart p.party q.party := by
    rw [List.pairwise_append, List.pairwise_cons]
    refine ⟨hpair.1, ⟨fun q hq => hpair.2.1.1 q hq, hpair.2.1.2⟩, fun q hq r hr => ?_⟩
    rcases List.mem_cons.1 hr with rfl | hr
    · exact hpair.2.2 q hq ⟨p, .call e k, log⟩ (by simp)
    · exact hpair.2.2 q hq r (by simp [hr])
  have hprocs : ∀ q ∈ before ++ ⟨p, k (S.handle e w).1, log ++ [⟨e, (S.handle e w).1⟩]⟩ :: after,
      T.ProcOk (S.handle e w).2 q := by
    intro q hq
    rw [List.mem_append, List.mem_cons] at hq
    rcases hq with hq | rfl | hq
    · exact (h.others_ok (.inl hq)).2
    · exact hself
    · exact (h.others_ok (.inr hq)).2
  cases hfork : S.forks e with
  | none =>
      exact ⟨hinv, by simpa using hold, by simpa using hprocs⟩
  | some x =>
      obtain ⟨p', prog⟩ := x
      obtain ⟨hlink'', hapart, hfollows⟩ := T.forking h.inv hlink hobeys.1 hfork
      have hnew : ∀ q ∈ before ++ ⟨p, k (S.handle e w).1, log ++ [⟨e, (S.handle e w).1⟩]⟩ :: after,
          T.Apart q.party p' := by
        intro q hq
        rw [List.mem_append, List.mem_cons] at hq
        rcases hq with hq | rfl | hq
        · exact T.apart_symm (hapart _ _ (h.procs q (by simp [hq])).2)
        · exact T.apart_symm (hapart _ _ hlink)
        · exact T.apart_symm (hapart _ _ (h.procs q (by simp [hq])).2)
      refine ⟨hinv, ?_, ?_⟩
      · simp only [Option.map_some, Option.toList_some]
        rw [List.pairwise_append]
        refine ⟨hold, List.pairwise_singleton _ _, fun q hq r hr => ?_⟩
        obtain rfl := List.mem_singleton.1 hr
        exact hnew q hq
      · intro q hq
        rcases List.mem_append.1 hq with hq | hq
        · exact hprocs q hq
        · obtain rfl := List.mem_singleton.1 hq
          exact ⟨hfollows, hlink''⟩

/-- Every step of a pool keeps the invariant of pools. -/
theorem PoolOk.step {pool pool' : Pool W Party ε ρ} (h : T.PoolOk pool) (hstep : S.Step pool pool') :
    T.PoolOk pool' := by
  cases hstep with
  | run _ =>
      exact h.run
  | @start _ p prog hstart =>
      obtain ⟨hlink, hapart, hfollows⟩ := T.starting h.inv hstart
      refine ⟨h.inv, ?_, ?_⟩
      · rw [List.pairwise_append]
        refine ⟨h.apart, List.pairwise_singleton _ _, fun q hq r hr => ?_⟩
        obtain rfl := List.mem_singleton.1 hr
        exact T.apart_symm (hapart q hq)
      · intro q hq
        rw [List.mem_append, List.mem_singleton] at hq
        rcases hq with hq | rfl
        · exact h.procs q hq
        · exact ⟨hfollows, hlink⟩
  | @leave w before after p =>
      have hsub : (before ++ after).Sublist (before ++ p :: after) :=
        List.Sublist.append_left (List.sublist_cons_self p after) before
      exact ⟨h.inv, h.apart.sublist hsub, fun q hq => h.procs q (hsub.subset hq)⟩
  | ext hext =>
      obtain ⟨hinv, hlinks⟩ := T.outside h.inv hext
      exact ⟨hinv, h.apart, fun q hq => ⟨(h.procs q hq).1, hlinks _ _ (h.procs q hq).2⟩⟩

/-- In every pool that runs reach, the invariant holds and every process is linked to the world. -/
theorem ok_of_reach {init : Pool W Party ε ρ → Prop} (hinit : ∀ pool, init pool → T.PoolOk pool)
    {pool : Pool W Party ε ρ} (h : S.Reach init pool) : T.PoolOk pool := by
  induction h with
  | init h =>
      exact hinit _ h
  | step _ hstep ih =>
      exact ih.step hstep

/-- What holds at the next call of a process in a reachable pool. -/
theorem PoolOk.at_next {pool : Pool W Party ε ρ} (h : T.PoolOk pool) {p : Proc Party ε ρ} {e : ε}
    (hmem : p ∈ pool.procs) (hnext : p.next = some e) :
    T.Inv pool.world ∧ T.Link p.party p.log pool.world ∧ T.Obeys p.party p.log e := by
  obtain ⟨hfollows, hlink⟩ := h.procs p hmem
  obtain ⟨party, prog, log⟩ := p
  cases prog with
  | ret a =>
      cases hnext
  | raise msg =>
      cases hnext
  | call e' k =>
      obtain rfl := Option.some.inj hnext
      exact ⟨h.inv, hlink, hfollows.1⟩

end Spec

end Process
