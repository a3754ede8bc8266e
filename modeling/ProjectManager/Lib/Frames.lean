import Mathlib.Data.List.Basic

/-!
# Blocks between markers

Blocks of lines, each between an opening and a closing marker, with a gap between two of them.  Cutting the lines at the
markers gives the blocks back exactly when no block has a marker in it (`cut_joined_iff`).
-/

namespace Frames

variable {α : Type} {marker : α → Bool} {opening closing gap : α} {block lines rest : List α} {blocks : List (List α)}

/-- The lines before the first marker, and each marker with the lines behind it. -/
def cut (marker : α → Bool) : List α → List α × List (α × List α)
  | [] => ([], [])
  | line :: lines =>
    let behind := cut marker lines
    if marker line then
      ([], (line, behind.1) :: behind.2)
    else
      (line :: behind.1, behind.2)

/-- The blocks between their markers, with a gap between two of them. -/
def joined (opening closing gap : α) : List (List α) → List α
  | [] => []
  | [block] => opening :: (block ++ [closing])
  | block :: blocks => opening :: (block ++ closing :: gap :: joined opening closing gap blocks)

/-- What the markers of joined blocks have behind them. -/
def segments (opening closing gap : α) : List (List α) → List (α × List α)
  | [] => []
  | [block] => [(opening, block), (closing, [])]
  | block :: blocks => (opening, block) :: (closing, [gap]) :: segments opening closing gap blocks

/-! ### Cutting -/

theorem cut_cons_marker (h : marker opening = true) :
    cut marker (opening :: lines) = ([], (opening, (cut marker lines).1) :: (cut marker lines).2) := by
  rw [cut, if_pos h]

/-- Lines without markers stay together. -/
theorem cut_append (h : ∀ line ∈ block, marker line = false) :
    cut marker (block ++ rest) = (block ++ (cut marker rest).1, (cut marker rest).2) := by
  induction block with
  | nil =>
      rfl
  | cons line block ih =>
      obtain ⟨hline, hblock⟩ := List.forall_mem_cons.1 h
      rw [List.cons_append, cut, ih hblock, if_neg (by simp [hline])]
      rfl

/-- There are as many segments as markers. -/
theorem length_cut (lines : List α) : (cut marker lines).2.length = lines.countP marker := by
  induction lines with
  | nil =>
      rfl
  | cons line lines ih =>
      rw [cut]
      by_cases h : marker line = true
      · rw [if_pos h, List.countP_cons_of_pos h, List.length_cons, ih]
      · rw [if_neg h, List.countP_cons_of_neg h, ih]

theorem length_segments : (segments opening closing gap blocks).length = 2 * blocks.length := by
  fun_induction segments opening closing gap blocks with
  | case1 =>
      rfl
  | case2 block =>
      rfl
  | case3 block blocks hne ih =>
      rw [List.length_cons, List.length_cons, List.length_cons, ih]
      omega

/-- Nothing stands before the first block. -/
theorem cut_joined_fst (hopening : marker opening = true) (blocks : List (List α)) : (cut marker (joined opening closing gap blocks)).1 = [] := by
  fun_induction joined opening closing gap blocks with
  | case1 =>
      rfl
  | case2 block =>
      rw [cut_cons_marker hopening]
  | case3 block blocks hne ih =>
      rw [cut_cons_marker hopening]

section

variable (hopening : marker opening = true) (hclosing : marker closing = true) (hgap : marker gap = false)

include hopening hclosing

/-- A block without markers is cut out whole. -/
theorem cut_framed (h : ∀ line ∈ block, marker line = false) : cut marker (opening :: (block ++ closing :: rest)) =
    ([], (opening, block) :: (closing, (cut marker rest).1) :: (cut marker rest).2) := by
  rw [cut_cons_marker hopening, cut_append h, cut_cons_marker hclosing]
  simp

include hgap

theorem countP_joined : (joined opening closing gap blocks).countP marker =
    2 * blocks.length + blocks.flatten.countP marker := by
  fun_induction joined opening closing gap blocks with
  | case1 =>
      rfl
  | case2 block =>
      rw [List.countP_cons_of_pos hopening, List.countP_append, List.countP_cons_of_pos hclosing, List.countP_nil]
      simp only [List.length_singleton, List.flatten_singleton]
      omega
  | case3 block blocks hne ih =>
      rw [List.countP_cons_of_pos hopening, List.countP_append, List.countP_cons_of_pos hclosing,
        List.countP_cons_of_neg (by simp [hgap]), ih, List.flatten_cons, List.countP_append, List.length_cons]
      omega

/-- Cutting joined blocks at the markers gives the blocks back exactly when they have no markers in them. -/
theorem cut_joined_iff : (cut marker (joined opening closing gap blocks)).2 = segments opening closing gap blocks ↔
    ∀ block ∈ blocks, ∀ line ∈ block, marker line = false := by
  constructor
  · intro h
    have hlength := congrArg List.length h
    rw [length_cut, countP_joined hopening hclosing hgap, length_segments] at hlength
    have hzero : blocks.flatten.countP marker = 0 := by omega
    rw [List.countP_eq_zero] at hzero
    intro block hblock line hline
    simpa using hzero line (List.mem_flatten.2 ⟨block, hblock, hline⟩)
  · intro h
    suffices hboth : blocks ≠ [] →
        cut marker (joined opening closing gap blocks) = ([], segments opening closing gap blocks) by
      by_cases hne : blocks = []
      · subst hne
        rfl
      · rw [hboth hne]
    intro hne
    fun_induction joined opening closing gap blocks with
    | case1 =>
        exact absurd rfl hne
    | case2 block =>
        rw [cut_framed hopening hclosing (h block List.mem_cons_self)]
        rfl
    | case3 block blocks hblocks ih =>
        obtain ⟨hblock, hrest⟩ := List.forall_mem_cons.1 h
        rw [cut_framed hopening hclosing hblock, cut, ih hrest hblocks, if_neg (by simp [hgap]), segments]
        exact hblocks

end

end Frames
