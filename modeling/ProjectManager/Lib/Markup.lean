import Mathlib.Data.List.Basic

/-!
# Well-nested markup

A stream of start tags, end tags and texts is well nested when it is the stream of a forest (`Forest.tokens`).
`children` and `outside` select elements of a forest: the direct ones with a tag, and those that no element with another
tag surrounds.  `DirectlyIn` and `Apart` say where elements may stand; `outside_of_apart` reads off what is left of
`outside` where they may not.
-/

namespace Markup

variable {τ σ : Type}

/-- A token of a markup stream. -/
inductive Token (τ σ : Type) where
  | startTag (tag : τ)
  | endTag (tag : τ)
  | data (text : σ)
deriving DecidableEq, Repr

/-- A sequence of texts and elements; an element has a tag and the forest inside it. -/
inductive Forest (τ σ : Type) where
  | nil
  | text (s : σ) (rest : Forest τ σ)
  | elem (tag : τ) (inner rest : Forest τ σ)
deriving DecidableEq, Repr

namespace Forest

/-- The stream of a forest. -/
def tokens : Forest τ σ → List (Token τ σ)
  | nil => []
  | text s rest => .data s :: rest.tokens
  | elem tag inner rest => .startTag tag :: (inner.tokens ++ .endTag tag :: rest.tokens)

/-- All texts of a forest, at any depth. -/
def texts : Forest τ σ → List σ
  | nil => []
  | text s rest => s :: rest.texts
  | elem _ inner rest => inner.texts ++ rest.texts

/-- The direct elements whose tag satisfies `p`. -/
def children (p : τ → Bool) : Forest τ σ → List (Forest τ σ)
  | nil => []
  | text _ rest => rest.children p
  | elem tag inner rest => if p tag then inner :: rest.children p else rest.children p

/-- The elements whose tag satisfies `p` and that are not inside an element whose tag satisfies `skip`. -/
def outside (skip p : τ → Bool) : Forest τ σ → List (Forest τ σ)
  | nil => []
  | text _ rest => rest.outside skip p
  | elem tag inner rest =>
      (if p tag then [inner] else []) ++ (if skip tag then [] else inner.outside skip p) ++ rest.outside skip p

/-- Elements with `p` stand directly inside elements with `q` only; `here` says that an element with `q` is around. -/
def DirectlyIn (p q : τ → Bool) (here : Bool) : Forest τ σ → Prop
  | nil => True
  | text _ rest => rest.DirectlyIn p q here
  | elem tag inner rest =>
      (p tag = true → here = true) ∧ inner.DirectlyIn p q (q tag) ∧ rest.DirectlyIn p q here

/-- No element with `p` is inside another one, as far as elements with `skip` do not surround it; `here` says that one is
around. -/
def Apart (skip p : τ → Bool) (here : Bool) : Forest τ σ → Prop
  | nil => True
  | text _ rest => rest.Apart skip p here
  | elem tag inner rest =>
      (p tag = true → here = false) ∧ (skip tag = false → inner.Apart skip p (here || p tag)) ∧
        rest.Apart skip p here

/-- Inside an element with `p` there is nothing left to select. -/
theorem outside_of_apart {skip p : τ → Bool} {f : Forest τ σ} (h : f.Apart skip p true) : f.outside skip p = [] := by
  induction f with
  | nil => rfl
  | text s rest ih => exact ih h
  | elem tag inner rest ihInner ihRest =>
      obtain ⟨htag, hinner, hrest⟩ := h
      have hp : p tag = false := by
        cases hp : p tag with
        | false => rfl
        | true => exact absurd (htag hp) (by decide)
      unfold outside
      rw [hp, ihRest hrest]
      cases hskip : skip tag with
      | true => rfl
      | false =>
          rw [ihInner (hinner hskip)]
          rfl

end Forest

end Markup
