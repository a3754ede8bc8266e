import ProjectManager.Lib.Lines

/-!
# Lines with their boundaries

`keepLines` cuts a text into its lines and leaves the boundaries in them, so that the lines make up the text again
(`flatten_keepLines`).  The other way round, lines that end with a line feed, all but perhaps the last one, are the lines
of the text they make up (`keepLines_flatten`): a text can be edited line by line.
-/

namespace Lines

/-- `str.splitlines(keepends=True)`. -/
def keepLines : List Char → List (List Char)
  | [] => []
  | '\r' :: '\n' :: rest => ['\r', '\n'] :: keepLines rest
  | c :: rest =>
    if isBreak c then
      [c] :: keepLines rest
    else
      match keepLines rest with
      | [] => [[c]]
      | line :: lines => (c :: line) :: lines

/-- A line with its line feed. -/
def Fed (l : List Char) : Prop :=
  ∃ body, OneLine body ∧ l = body ++ ['\n']

/-- A line without its line feed, as the last one may be. -/
def Unfed (l : List Char) : Prop :=
  OneLine l ∧ l ≠ []

/-- Lines of which only the last one may be without its line feed. -/
structure Whole (ls : List (List Char)) : Prop where
  lines : ∀ l ∈ ls, Fed l ∨ Unfed l
  fed : ls.Pairwise fun l _ => Fed l

variable {l t : List Char} {ls ls' : List (List Char)}

theorem Fed.ne_nil (h : Fed l) : l ≠ [] := by
  obtain ⟨body, -, rfl⟩ := h
  exact List.append_ne_nil_of_right_ne_nil _ (List.cons_ne_nil _ _)

theorem Whole.sublist (h : Whole ls) (hsub : ls'.Sublist ls) : Whole ls' :=
  ⟨fun l hl => h.lines l (hsub.subset hl), h.fed.sublist hsub⟩

theorem Whole.of_fed (h : ∀ l ∈ ls, Fed l) : Whole ls :=
  ⟨fun l hl => .inl (h l hl), List.pairwise_of_forall_mem_list fun l hl _ _ => h l hl⟩

/-- Whole lines behind lines that all have their line feed. -/
theorem Whole.append (h : ∀ l ∈ ls, Fed l) (h' : Whole ls') : Whole (ls ++ ls') := by
  constructor
  · intro l hl
    exact (List.mem_append.1 hl).elim (fun hl => .inl (h l hl)) (h'.lines l)
  · exact List.pairwise_append.2 ⟨(Whole.of_fed h).fed, h'.fed, fun l hl _ _ => h l hl⟩

/-- All lines but the last one have their line feed. -/
theorem Whole.fed_of_append (h : Whole (ls ++ ls')) (hne : ls' ≠ []) : ∀ l ∈ ls, Fed l := by
  intro l hl
  obtain ⟨l', hl'⟩ := List.exists_mem_of_ne_nil _ hne
  exact (List.pairwise_append.1 h.fed).2.2 l hl l' hl'

/-- A line may be replaced by one with a line feed. -/
theorem Whole.replace {new : List Char} (h : Whole (ls ++ l :: ls')) (hnew : Fed new) : Whole (ls ++ new :: ls') := by
  have hfront : ∀ l ∈ ls, Fed l := h.fed_of_append (List.cons_ne_nil _ _)
  apply Whole.append hfront
  constructor
  · exact List.forall_mem_cons.2 ⟨.inl hnew, fun l hl => h.lines l (by simp [hl])⟩
  · have hrest := (List.pairwise_append.1 h.fed).2.1
    exact List.pairwise_cons.2 ⟨fun _ _ => hnew, (List.pairwise_cons.1 hrest).2⟩

/-! ### Cutting -/

theorem keepLines_other {c : Char} (hc : isBreak c = false) (rest : List Char) : keepLines (c :: rest) =
    match keepLines rest with
    | [] => [[c]]
    | line :: lines => (c :: line) :: lines := by
  rw [keepLines.eq_def]
  split
  · rename_i heq
    cases heq
  · rename_i heq
    obtain ⟨rfl, rfl⟩ := List.cons.inj heq
    exact absurd hc (by decide)
  · rename_i heq
    obtain ⟨rfl, rfl⟩ := List.cons.inj heq
    rw [if_neg (by simp [hc])]

theorem keepLines_fed (h : OneLine l) (rest : List Char) :
    keepLines (l ++ '\n' :: rest) = (l ++ ['\n']) :: keepLines rest := by
  induction l with
  | nil => rfl
  | cons c l ih =>
      obtain ⟨hc, hl⟩ := oneLine_cons.1 h
      rw [List.cons_append, keepLines_other hc, ih hl]
      rfl

theorem keepLines_unfed (h : OneLine l) (hne : l ≠ []) : keepLines l = [l] := by
  induction l with
  | nil => exact absurd rfl hne
  | cons c l ih =>
      obtain ⟨hc, hl⟩ := oneLine_cons.1 h
      rw [keepLines_other hc]
      cases l with
      | nil => rfl
      | cons d l => rw [ih hl (List.cons_ne_nil d l)]

/-- Whole lines are the lines of the text they make up. -/
theorem keepLines_flatten (h : Whole ls) : keepLines ls.flatten = ls := by
  induction ls with
  | nil => rfl
  | cons l ls ih =>
      have hrest : keepLines ls.flatten = ls := ih (h.sublist (List.sublist_cons_self l ls))
      rw [List.flatten_cons]
      cases ls with
      | nil =>
          rw [List.flatten_nil, List.append_nil]
          obtain ⟨body, hbody, rfl⟩ | ⟨hone, hne⟩ := h.lines l List.mem_cons_self
          · exact keepLines_fed hbody []
          · exact keepLines_unfed hone hne
      | cons l' ls =>
          obtain ⟨body, hbody, rfl⟩ := List.rel_of_pairwise_cons h.fed List.mem_cons_self
          rw [List.append_assoc, List.singleton_append, keepLines_fed hbody, hrest]

/-- The lines make up the text. -/
theorem flatten_keepLines (t : List Char) : (keepLines t).flatten = t := by
  fun_induction keepLines t with
  | case1 => rfl
  | case2 rest ih => rw [List.flatten_cons, ih]; rfl
  | case3 c rest hcr hc ih => rw [List.flatten_cons, ih]; rfl
  | case4 c rest hcr hc hnone ih =>
      rw [hnone] at ih
      rw [← ih]
      rfl
  | case5 c rest hcr hc line lines hsome ih =>
      rw [hsome] at ih
      rw [← ih]
      rfl

/-- No line is empty. -/
theorem ne_nil_of_mem_keepLines : ∀ l ∈ keepLines t, l ≠ [] := by
  fun_induction keepLines t with
  | case1 => exact List.forall_mem_nil _
  | case2 rest ih => exact List.forall_mem_cons.2 ⟨List.cons_ne_nil _ _, ih⟩
  | case3 c rest hcr hc ih => exact List.forall_mem_cons.2 ⟨List.cons_ne_nil _ _, ih⟩
  | case4 c rest hcr hc hnone ih => exact List.forall_mem_singleton.2 (List.cons_ne_nil _ _)
  | case5 c rest hcr hc line lines hsome ih =>
      rw [hsome, List.forall_mem_cons] at ih
      exact List.forall_mem_cons.2 ⟨List.cons_ne_nil _ _, ih.2⟩

/-- A line that has a line behind it ends with a boundary. -/
theorem keepLines_ends (t : List Char) :
    (keepLines t).Pairwise fun l _ => ∃ c, l.getLast? = some c ∧ isBreak c = true := by
  fun_induction keepLines t with
  | case1 => exact List.Pairwise.nil
  | case2 rest ih => exact List.pairwise_cons.2 ⟨fun _ _ => ⟨'\n', rfl, by decide⟩, ih⟩
  | case3 c rest hcr hc ih => exact List.pairwise_cons.2 ⟨fun _ _ => ⟨c, rfl, hc⟩, ih⟩
  | case4 c rest hcr hc hnone ih => exact List.pairwise_singleton _ _
  | case5 c rest hcr hc line lines hsome ih =>
      rw [hsome] at ih
      obtain ⟨hline, hlines⟩ := List.pairwise_cons.1 ih
      refine List.pairwise_cons.2 ⟨fun l hl => ?_, hlines⟩
      obtain ⟨d, hd, hbreak⟩ := hline l hl
      refine ⟨d, ?_, hbreak⟩
      rw [List.getLast?_cons, hd]
      rfl

/-- Lines without other boundaries than their line feeds are whole. -/
theorem keepLines_whole (h : ∀ l ∈ keepLines t, Fed l ∨ Unfed l) : Whole (keepLines t) := by
  refine ⟨h, (List.Pairwise.and_mem.1 (keepLines_ends t)).imp ?_⟩
  rintro l l' ⟨hl, -, c, hc, hbreak⟩
  obtain hfed | ⟨hone, -⟩ := h l hl
  · exact hfed
  · have := hone c (List.mem_of_getLast? hc)
    rw [hbreak] at this
    cases this

end Lines
