import ProjectManager.Runtime.RegistryItems

/-!
# The block of an entry

The edits on the lines of a text in block style: `_entry_bounds` finds the line of the agent and the block behind it
(`bounds_split`), and each edit replaces or drops lines of that block (`removed_lines`, `flagged_lines`).  The new text
has again lines in block style (`blockLines_of_whole`).
-/

namespace ProjectManager

open Lines Text

/-! ### Lines that have been read -/

/-- A line in block style with what stands on it. -/
structure ReadLine where
  chars : List Char
  line : Line
  reads : scanLine chars = some line
  single : line ≠ .crowded

namespace ReadLine

theorem found (r : ReadLine) (a : AgentId) : FoundOn a r.chars r.line :=
  found_of_scan a r.reads r.single

/-- The lines of a text in block style. -/
theorem exists_of_block {lines : List (List Char)} {ls : List Line} (h : lines.map scanLine = ls.map some)
    (hcrowded : .crowded ∉ ls) : ∃ rs : List ReadLine, lines = rs.map chars ∧ ls = rs.map line := by
  induction lines generalizing ls with
  | nil =>
      cases ls with
      | nil => exact ⟨[], rfl, rfl⟩
      | cons L ls => cases h
  | cons l lines ih =>
      cases ls with
      | nil => cases h
      | cons L ls =>
          rw [List.map_cons, List.map_cons] at h
          obtain ⟨hl, hrest⟩ := List.cons.inj h
          rw [List.mem_cons, not_or] at hcrowded
          obtain ⟨rs, hchars, hlines⟩ := ih hrest hcrowded.2
          exact ⟨⟨l, L, hl, Ne.symm hcrowded.1⟩ :: rs, congrArg (l :: ·) hchars, congrArg (L :: ·) hlines⟩

end ReadLine

/-- The block of an entry ends before this line. -/
def Line.stops (L : Line) : Bool :=
  L.startsWithId || L.isAtMargin

/-! ### Lists -/

section Lists

variable {α : Type} {p : α → Bool} {before after : List α} {t x : α}

theorem findIdx?_split {l : List α} {i : ℕ} (h : l.findIdx? p = some i) :
    ∃ before t after, l = before ++ t :: after ∧ before.length = i ∧ p t = true ∧ ∀ y ∈ before, p y = false := by
  obtain ⟨hi, hp, hbefore⟩ := List.findIdx?_eq_some_iff_getElem.1 h
  refine ⟨l.take i, l[i], l.drop (i + 1), ?_, List.length_take_of_le hi.le, hp, ?_⟩
  · rw [List.getElem_cons_drop, List.take_append_drop]
  · intro y hy
    obtain ⟨j, hj, rfl⟩ := List.mem_take_iff_getElem.1 hy
    have := hbefore j (by omega)
    simpa using this

/-- The first element of a kind splits a list in one way. -/
theorem first_unique {before' after' : List α} {t' : α} (h : before ++ t :: after = before' ++ t' :: after')
    (ht : p t = true) (ht' : p t' = true) (hbefore : ∀ y ∈ before, p y = false) (hbefore' : ∀ y ∈ before', p y = false) :
    before = before' ∧ t = t' ∧ after = after' := by
  have htake : ∀ {x y : List α} {t : α}, p t = true → (∀ y ∈ x, p y = false) →
      (x ++ t :: y).takeWhile (fun y => !p y) = x := by
    intro x y t ht hx
    rw [List.takeWhile_append_of_pos fun z hz => by simp [hx z hz], List.takeWhile_cons_of_neg (by simp [ht]),
      List.append_nil]
  have hfront : before = before' := by
    rw [← htake ht hbefore, h, htake ht' hbefore']
  subst hfront
  obtain ⟨rfl, rfl⟩ := List.cons.inj (List.append_cancel_left h)
  exact ⟨rfl, rfl, rfl⟩

theorem findIdx_eq_length (p : α → Bool) (l : List α) : l.findIdx p = (l.takeWhile fun x => !p x).length := by
  induction l with
  | nil => rfl
  | cons x l ih =>
      rw [List.findIdx_cons, List.takeWhile_cons]
      cases p x with
      | true => rfl
      | false => simp [ih]

theorem insertIdx_behind : (before ++ t :: after).insertIdx (before.length + 1) x = before ++ t :: x :: after := by
  induction before with
  | nil => rfl
  | cons y before ih => simpa using ih

theorem modify_at {f : α → α} : (before ++ t :: after).modify before.length f = before ++ f t :: after := by
  induction before with
  | nil => rfl
  | cons y before ih => simpa using ih

end Lists

/-! ### The block -/

section Block

variable {a : AgentId} {rs : List ReadLine} {start stop : ℕ}

/-- The line of the agent, with what is before it and behind it. -/
structure Target (a : AgentId) (rs before : List ReadLine) (t : ReadLine) (after : List ReadLine) : Prop where
  split : rs = before ++ t :: after
  line : t.line.isItemOf a = true
  first : ∀ r ∈ before, r.line.isItemOf a = false

theorem Target.dash {before after : List ReadLine} {t : ReadLine} (h : Target a rs before t after) :
    ∃ n k, t.line = .dash n (some (k, ⟨.id, .plain a.chars⟩)) := by
  have hline := h.line
  unfold Line.isItemOf at hline
  split at hline
  · rename_i n k f heq
    rw [of_decide_eq_true hline] at heq
    exact ⟨n, k, heq⟩
  · cases hline

/-- The lines of the block behind the line of the agent. -/
def blockOf (after : List ReadLine) : List ReadLine :=
  after.takeWhile fun r => !r.line.stops

/-- The lines behind the block. -/
def behindBlock (after : List ReadLine) : List ReadLine :=
  after.dropWhile fun r => !r.line.stops

theorem blockOf_append (after : List ReadLine) : blockOf after ++ behindBlock after = after :=
  List.takeWhile_append_dropWhile

/-- What `_entry_bounds` finds. -/
theorem bounds_split (h : entryBounds (rs.map ReadLine.chars) a = some (start, stop)) :
    ∃ before t after, Target a rs before t after ∧ before.length = start ∧
      stop = start + 1 + (blockOf after).length := by
  have hitem : (isItemOf a ∘ ReadLine.chars) = fun r => r.line.isItemOf a := funext fun r => (r.found a).itemOf
  unfold entryBounds at h
  rw [List.findIdx?_map, hitem] at h
  obtain ⟨i, hi, hbounds⟩ := Option.map_eq_some_iff.1 h
  obtain ⟨before, t, after, rfl, hlength, ht, hbefore⟩ := findIdx?_split hi
  obtain ⟨rfl, hstop⟩ := Prod.mk.inj hbounds
  refine ⟨before, t, after, ⟨rfl, ht, hbefore⟩, hlength, ?_⟩
  have hdrop : ((before ++ t :: after).map ReadLine.chars).drop (i + 1) = after.map ReadLine.chars := by
    rw [← List.map_drop, ← hlength]
    simp
  have hends : ((fun line => isIdItem line || isAtMargin line) ∘ ReadLine.chars) = fun r => r.line.stops :=
    funext fun r => by simp [(r.found a).idItem, (r.found a).margin, Line.stops]
  rw [← hstop, hdrop, List.findIdx_map, hends, findIdx_eq_length]
  rfl

/-- What `remove_registry_entry` leaves of the lines. -/
theorem removed_lines {before after : List ReadLine} {t : ReadLine} (h : Target a rs before t after)
    (hstart : before.length = start) (hstop : stop = start + 1 + (blockOf after).length) :
    (rs.map ReadLine.chars).take start ++ (rs.map ReadLine.chars).drop stop =
      (before ++ behindBlock after).map ReadLine.chars := by
  have hsplit : rs = before ++ t :: (blockOf after ++ behindBlock after) := by
    rw [blockOf_append]
    exact h.split
  have htake : rs.take start = before := by
    rw [hsplit, ← hstart, List.take_left]
  have hdrop : rs.drop stop = behindBlock after := by
    have hlength : stop = (before ++ t :: blockOf after).length := by
      rw [List.length_append, List.length_cons]
      omega
    rw [hsplit, hlength, ← List.cons_append, ← List.append_assoc, List.drop_left]
  rw [← List.map_take, ← List.map_drop, htake, hdrop, List.map_append]

/-- The line of a flag. -/
def flagField (enabled : Bool) : Field :=
  ⟨.enabled, .plain (flagText enabled)⟩

/-- What `set_registry_enabled` makes of the lines: the first flag of the block is set, or a flag put in behind the line
of the agent. -/
theorem flagged_lines (enabled : Bool) {before after : List ReadLine} {t : ReadLine} {n k : ℕ} (h : Target a rs before t after)
    (ht : t.line = .dash n (some (k, ⟨.id, .plain a.chars⟩))) (hstart : before.length = start)
    (hstop : stop = start + 1 + (blockOf after).length) :
    (∃ front r behind column, blockOf after = front ++ r :: behind ∧ (∀ r ∈ front, r.line.flagColumn = none) ∧
        r.line.flagColumn = some column ∧
        setEnabledLines (rs.map ReadLine.chars) start stop enabled =
          (before ++ t :: front).map ReadLine.chars ++ enabledLine (List.replicate column ' ') enabled ::
            (behind ++ behindBlock after).map ReadLine.chars) ∨
      ((∀ r ∈ blockOf after, r.line.flagColumn = none) ∧
        setEnabledLines (rs.map ReadLine.chars) start stop enabled =
          (before ++ [t]).map ReadLine.chars ++ enabledLine (List.replicate (n + 2) ' ') enabled ::
            after.map ReadLine.chars) := by
  have hflag : ((fun line => (enabledIndent line).isSome) ∘ ReadLine.chars) =
      fun r : ReadLine => r.line.flagColumn.isSome := funext fun r => by simp [(r.found a).flag]
  have hblock : ((rs.map ReadLine.chars).drop (start + 1)).take (stop - (start + 1)) =
      (blockOf after).map ReadLine.chars := by
    have hdrop : rs.drop (start + 1) = blockOf after ++ behindBlock after := by
      have hlength : start + 1 = (before ++ [t]).length := by
        rw [List.length_append, List.length_singleton]
        omega
      have hsplit : rs = before ++ [t] ++ (blockOf after ++ behindBlock after) := by
        rw [blockOf_append, List.append_assoc, List.singleton_append]
        exact h.split
      rw [hsplit, hlength, List.drop_left]
    have hlength : stop - (start + 1) = (blockOf after).length := by omega
    rw [← List.map_drop, hdrop, hlength, ← List.map_take, List.take_left]
  unfold setEnabledLines
  dsimp only
  rw [hblock, List.findIdx?_map, hflag]
  cases hfind : (blockOf after).findIdx? fun r => r.line.flagColumn.isSome with
  | some i =>
      left
      obtain ⟨front, r, behind, hsplit, rfl, hr, hfront⟩ := findIdx?_split hfind
      obtain ⟨column, hcolumn⟩ := Option.isSome_iff_exists.1 hr
      refine ⟨front, r, behind, column, hsplit, fun r hr => by simpa using hfront r hr, hcolumn, ?_⟩
      have hafter : after = front ++ r :: (behind ++ behindBlock after) := by
        rw [← List.cons_append, ← List.append_assoc, ← hsplit]
        exact (blockOf_append after).symm
      have hrs : rs = (before ++ t :: front) ++ r :: (behind ++ behindBlock after) := by
        rw [List.append_assoc, List.cons_append, ← hafter]
        exact h.split
      have hindex : start + 1 + front.length = ((before ++ t :: front).map ReadLine.chars).length := by
        rw [List.length_map, List.length_append, List.length_cons]
        omega
      have hindent : (enabledIndent r.chars).getD [] = List.replicate column ' ' := by
        rw [(r.found a).flag, hcolumn]
        rfl
      dsimp only
      rw [hrs, List.map_append, List.map_cons, hindex, modify_at, hindent]
  | none =>
      right
      refine ⟨fun r hr => ?_, ?_⟩
      · have := List.findIdx?_eq_none_iff.1 hfind r hr
        simpa using this
      · have hline : (rs.map ReadLine.chars).getD start [] = t.chars := by
          rw [h.split, ← hstart]
          simp
        have hindent : t.chars.takeWhile isSpace = List.replicate n ' ' := dash_indent (ht ▸ t.reads)
        have htwo : List.replicate n ' ' ++ "  ".toList = List.replicate (n + 2) ' ' := by
          rw [List.replicate_add]
          rfl
        dsimp only
        rw [hline, hindent, htwo, h.split, ← hstart, List.map_append, List.map_cons]
        have hlength : before.length = (before.map ReadLine.chars).length := (List.length_map _).symm
        rw [hlength, insertIdx_behind]
        simp

end Block

end ProjectManager
