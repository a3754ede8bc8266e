import ProjectManager.Tools.ConfluenceRead

/-!
# The OKR table parser implements its specification

The parser works on a stream of tokens with four variables; the specification is on the forest of the stream.  Inside a
cell the parser only collects text (`feed_in_cell`), between the cells of a row it does nothing (`feed_quiet`), and a
row it closes has the cells of the row (`feed_in_row`, `feed_rows`).  The loop over the rows is described by what it does
to one row, given the rows before it (`foldl_add`).  `okr_table_parsed` puts the two together.
-/

namespace ProjectManager

open Markup (Forest)

/-- A tag that opens a row. -/
def isRowTag (tag : String) : Bool :=
  decide (tag = "tr")

/-! ### Specification -/

/-- The text of a cell: all text inside it. -/
def cellOf (inner : Forest String String) : String :=
  Text.strip (String.join inner.texts)

/-- The cells of a row. -/
def cellsOf (inner : Forest String String) : List String :=
  (inner.children isCellTag).map cellOf

/-- The rows of a page: the `tr` elements that are not inside a cell. -/
def rowsOf (page : Forest String String) : List (List String) :=
  (page.outside isCellTag isRowTag).map cellsOf

/-- What becomes of a row. -/
inductive RowOutcome where
  | dropped
  | problem (p : OkrProblem)
  | quad (q : OkrRow)
deriving DecidableEq, Repr

namespace RowOutcome

def quad? : RowOutcome → Option OkrRow
  | quad q => some q
  | _ => none

def problem? : RowOutcome → Option OkrProblem
  | problem p => some p
  | _ => none

end RowOutcome

section Rows

variable (py : PagePython)

/-- The objective of a row that is no header and has four cells, when it is not empty. -/
def ownObjective (cells : List String) : Option String :=
  if isHeaderRow py cells then
    none
  else
    match cells with
    | objective :: _ :: _ :: _ :: _ => if objective = "" then none else some objective
    | _ => none

/-- The nearest objective above a row. -/
def nearestObjective (earlier : List (List String)) : Option String :=
  (earlier.filterMap (ownObjective py)).getLast?

/-- What becomes of a row after the rows before it. -/
def rowOutcome (earlier : List (List String)) (cells : List String) : RowOutcome :=
  if isHeaderRow py cells then
    .dropped
  else
    match cells with
    | _ :: keyResult :: epicCell :: weightCell :: _ =>
        match (ownObjective py cells).or (nearestObjective py earlier) with
        | some o => .quad ⟨o, keyResult, epicCell, weightCell⟩
        | none => .problem (noObjectiveProblem keyResult)
    | cells => .problem (shortRowProblem cells)

/-- What becomes of each row of a list. -/
def rowOutcomes (earlier : List (List String)) : List (List String) → List RowOutcome
  | [] => []
  | cells :: rest => rowOutcome py earlier cells :: rowOutcomes (earlier ++ [cells]) rest

end Rows

/-! ### The parser -/

namespace OkrTableParser

variable {p : OkrTableParser} {f : Forest String String}

/-- Inside a cell the parser collects all texts, whatever is nested there. -/
theorem feed_in_cell (p : OkrTableParser) (f : Forest String String) (hcell : p.inCell = true) (hdepth : 1 ≤ p.cellDepth) :
    p.feed f.tokens = { p with cellParts := p.cellParts ++ f.texts } := by
  induction f generalizing p with
  | nil => simp [Forest.tokens, Forest.texts]
  | text s rest ih =>
      have hdata : p.handle (.data s) = { p with cellParts := p.cellParts ++ [s] } := if_pos hcell
      rw [Forest.tokens, feed_cons, hdata, ih { p with cellParts := p.cellParts ++ [s] } hcell hdepth]
      simp [Forest.texts]
  | elem tag inner rest ihInner ihRest =>
      by_cases htag : isCellTag tag = true
      · have hstart : p.handle (.startTag tag) = { p with cellDepth := p.cellDepth + 1 } := by
          simp [handle, handleStarttag, hcell, htag]
        have hend : ∀ parts, ({ p with cellDepth := p.cellDepth + 1, cellParts := parts } : OkrTableParser).handle
            (.endTag tag) = { p with cellParts := parts } := by
          intro parts
          have hne : p.cellDepth ≠ 0 := by omega
          simp only [handle, handleEndtag, hcell, htag, Bool.and_self, if_true, add_sub_cancel_right, if_neg hne]
          cases p.row <;> rfl
        have hdeeper : 1 ≤ p.cellDepth + 1 := by omega
        rw [Forest.tokens, feed_cons, hstart, feed_append,
          ihInner { p with cellDepth := p.cellDepth + 1 } hcell hdeeper, feed_cons, hend,
          ihRest { p with cellParts := p.cellParts ++ inner.texts } hcell hdepth]
        simp [Forest.texts]
      · have hstart : p.handle (.startTag tag) = p := by
          simp [handle, handleStarttag, hcell, htag]
        have hend : ∀ parts, ({ p with cellParts := parts } : OkrTableParser).handle (.endTag tag) =
            { p with cellParts := parts } := by
          intro parts
          simp [handle, handleEndtag, hcell, htag]
        rw [Forest.tokens, feed_cons, hstart, feed_append, ihInner p hcell hdepth, feed_cons, hend,
          ihRest { p with cellParts := p.cellParts ++ inner.texts } hcell hdepth]
        simp [Forest.texts]

/-- Outside the cells nothing happens where there is no row and no cell. -/
theorem feed_quiet (hcell : p.inCell = false) (hin : f.DirectlyIn isCellTag isRowTag false)
    (hapart : f.Apart isCellTag isRowTag true) : p.feed f.tokens = p := by
  induction f generalizing p with
  | nil => rfl
  | text s rest ih =>
      have hdata : p.handle (.data s) = p := by
        simp [handle, handleData, hcell]
      rw [Forest.tokens, feed_cons, hdata, ih hcell hin hapart]
  | elem tag inner rest ihInner ihRest =>
      obtain ⟨hnoCell, hinInner, hinRest⟩ := hin
      obtain ⟨hnoRow, hapartInner, hapartRest⟩ := hapart
      have hcellTag : isCellTag tag = false := by simpa using hnoCell
      have hrowTag : isRowTag tag = false := by simpa using hnoRow
      have htr : tag ≠ "tr" := by simpa [isRowTag] using hrowTag
      have hstart : p.handle (.startTag tag) = p := by
        simp [handle, handleStarttag, hcell, hcellTag, htr]
      have hend : p.handle (.endTag tag) = p := by
        simp [handle, handleEndtag, hcell, htr]
      rw [hrowTag] at hinInner
      rw [Forest.tokens, feed_cons, hstart, feed_append, ihInner hcell hinInner (hapartInner hcellTag), feed_cons, hend,
        ihRest hcell hinRest hapartRest]

/-- Between the cells of an open row. -/
structure InRow (p : OkrTableParser) (rows : List (List String)) (row : List String) : Prop where
  cell : p.inCell = false
  row : p.row = some row
  rows : p.rows = rows

/-- In an open row each cell is appended to the row. -/
theorem feed_in_row {rows : List (List String)} {row : List String} (h : p.InRow rows row)
    (hin : f.DirectlyIn isCellTag isRowTag true) (hapart : f.Apart isCellTag isRowTag true) :
    (p.feed f.tokens).InRow rows (row ++ cellsOf f) := by
  induction f generalizing p row with
  | nil => simpa [Forest.tokens, cellsOf, Forest.children] using h
  | text s rest ih =>
      have hdata : p.handle (.data s) = p := by
        simp [handle, handleData, h.cell]
      rw [Forest.tokens, feed_cons, hdata]
      exact ih h hin hapart
  | elem tag inner rest ihInner ihRest =>
      obtain ⟨-, hinInner, hinRest⟩ := hin
      obtain ⟨hnoRow, hapartInner, hapartRest⟩ := hapart
      have hrowTag : isRowTag tag = false := by simpa using hnoRow
      have htr : tag ≠ "tr" := by simpa [isRowTag] using hrowTag
      rw [Forest.tokens, feed_cons, feed_append, feed_cons]
      by_cases hcellTag : isCellTag tag = true
      · -- a cell: it is opened, filled and closed
        have hstart : p.handle (.startTag tag) = { p with inCell := true, cellDepth := 1, cellParts := [] } := by
          simp [handle, handleStarttag, h.cell, hcellTag, htr]
        rw [hstart, feed_in_cell _ inner rfl (Int.le_refl 1)]
        have hcells : row ++ cellsOf (.elem tag inner rest) = row ++ [cellOf inner] ++ cellsOf rest := by
          simp [cellsOf, Forest.children, hcellTag]
        rw [hcells]
        apply ihRest _ hinRest hapartRest
        constructor
        all_goals simp [handle, handleEndtag, hcellTag, h.row, h.rows, cellText, cellOf]
      · -- another element: nothing in it counts
        have hfalse : isCellTag tag = false := Bool.not_eq_true _ ▸ hcellTag
        have hstart : p.handle (.startTag tag) = p := by
          simp [handle, handleStarttag, h.cell, hfalse, htr]
        have hend : p.handle (.endTag tag) = p := by
          simp [handle, handleEndtag, h.cell, htr]
        rw [hrowTag] at hinInner
        rw [hstart, feed_quiet h.cell hinInner (hapartInner hfalse), hend]
        have hcells : cellsOf (.elem tag inner rest) = cellsOf rest := by
          simp [cellsOf, Forest.children, hfalse]
        rw [hcells]
        exact ihRest h hinRest hapartRest

/-- Outside all rows. -/
structure Between (p : OkrTableParser) (rows : List (List String)) : Prop where
  cell : p.inCell = false
  row : p.row = none
  rows : p.rows = rows

/-- Outside the rows each row is appended to the rows. -/
theorem feed_rows {rows : List (List String)} (h : p.Between rows) (hin : f.DirectlyIn isCellTag isRowTag false)
    (hapart : f.Apart isCellTag isRowTag false) : (p.feed f.tokens).Between (rows ++ rowsOf f) := by
  induction f generalizing p rows with
  | nil => simpa [Forest.tokens, rowsOf, Forest.outside] using h
  | text s rest ih =>
      have hdata : p.handle (.data s) = p := by
        simp [handle, handleData, h.cell]
      rw [Forest.tokens, feed_cons, hdata]
      exact ih h hin hapart
  | elem tag inner rest ihInner ihRest =>
      obtain ⟨hnoCell, hinInner, hinRest⟩ := hin
      obtain ⟨-, hapartInner, hapartRest⟩ := hapart
      have hcellTag : isCellTag tag = false := by simpa using hnoCell
      rw [Forest.tokens, feed_cons, feed_append, feed_cons]
      have hapartInner := hapartInner hcellTag
      by_cases hrowTag : isRowTag tag = true
      · -- a row: it is opened, filled and closed
        have htr : tag = "tr" := by simpa [isRowTag] using hrowTag
        rw [hrowTag] at hinInner hapartInner
        have hstart : (p.handle (.startTag tag)).InRow rows [] := by
          constructor
          all_goals simp [handle, handleStarttag, h.cell, h.rows, htr]
        have hrow := feed_in_row hstart hinInner hapartInner
        have hrowsOf : rows ++ rowsOf (.elem tag inner rest) = rows ++ [cellsOf inner] ++ rowsOf rest := by
          have hnone := Forest.outside_of_apart hapartInner
          simp [rowsOf, Forest.outside, hrowTag, hcellTag, hnone]
        rw [hrowsOf]
        apply ihRest _ hinRest hapartRest
        generalize (p.handle (.startTag tag)).feed inner.tokens = q at hrow ⊢
        constructor
        all_goals simp [handle, handleEndtag, hrow.cell, hrow.row, hrow.rows, htr]
      · -- another element: its rows count
        have hfalse : isRowTag tag = false := Bool.not_eq_true _ ▸ hrowTag
        have htr : tag ≠ "tr" := by simpa [isRowTag] using hfalse
        rw [hfalse] at hinInner hapartInner
        have hstart : p.handle (.startTag tag) = p := by
          simp [handle, handleStarttag, h.cell, hcellTag, htr]
        rw [hstart]
        have hinner := ihInner h hinInner hapartInner
        have hend : (p.feed inner.tokens).handle (.endTag tag) = p.feed inner.tokens := by
          simp [handle, handleEndtag, hinner.cell, htr]
        rw [hend]
        have hrowsOf : rows ++ rowsOf (.elem tag inner rest) = rows ++ rowsOf inner ++ rowsOf rest := by
          simp [rowsOf, Forest.outside, hfalse, hcellTag]
        rw [hrowsOf]
        exact ihRest hinner hinRest hapartRest

end OkrTableParser

/-! ### The loop over the rows -/

section Loop

variable {py : PagePython} {earlier rows : List (List String)} {cells : List String}

/-- Cells that stripping leaves as they are. -/
def Stripped (cells : List String) : Prop :=
  ∀ c ∈ cells, Text.strip c = c

theorem rowsOf_stripped {page : Forest String String} : ∀ cells ∈ rowsOf page, Stripped cells := by
  intro cells hcells c hc
  obtain ⟨row, -, rfl⟩ := List.mem_map.1 hcells
  obtain ⟨inner, -, rfl⟩ := List.mem_map.1 hc
  exact Text.strip_strip _

theorem nearestObjective_append : nearestObjective py (earlier ++ [cells]) =
    (ownObjective py cells).or (nearestObjective py earlier) := by
  unfold nearestObjective
  rw [List.filterMap_append, List.getLast?_append]
  cases h : ownObjective py cells with
  | none => rw [List.filterMap_cons_none h]; rfl
  | some o => rw [List.filterMap_cons_some h]; rfl

theorem nearestObjective_ne_empty {o : String} (h : nearestObjective py earlier = some o) : o ≠ "" := by
  obtain ⟨row, -, hrow⟩ := List.mem_filterMap.1 (List.mem_of_getLast? h)
  unfold ownObjective at hrow
  split at hrow
  · cases hrow
  · split at hrow
    · split at hrow
      · cases hrow
      case isFalse hne =>
        obtain rfl := Option.some.inj hrow
        exact hne
    · cases hrow

/-- The loop remembers the nearest objective. -/
def Remembers (py : PagePython) (earlier : List (List String)) (acc : OkrRows) : Prop :=
  acc.lastObjective = (nearestObjective py earlier).getD ""

/-- What the loop does to a row, in the words of its outcome. -/
structure Files (py : PagePython) (earlier : List (List String)) (cells : List String) (acc acc' : OkrRows) : Prop where
  quads : acc'.quads = acc.quads ++ (rowOutcome py earlier cells).quad?.toList
  problems : acc'.problems = acc.problems ++ (rowOutcome py earlier cells).problem?.toList
  remembers : Remembers py (earlier ++ [cells]) acc'

/-- A row with four cells that is no header. -/
theorem add_full_row {acc : OkrRows} {objective keyResult epicCell weightCell : String} {rest : List String}
    (h : Remembers py earlier acc) (hcells : Stripped (objective :: keyResult :: epicCell :: weightCell :: rest))
    (hheader : ¬ isHeaderRow py (objective :: keyResult :: epicCell :: weightCell :: rest) = true) :
    Files py earlier (objective :: keyResult :: epicCell :: weightCell :: rest) acc
      (acc.add py (objective :: keyResult :: epicCell :: weightCell :: rest)) := by
  have hstrip : Text.strip objective = objective ∧ Text.strip keyResult = keyResult ∧
      Text.strip epicCell = epicCell ∧ Text.strip weightCell = weightCell := by
    refine ⟨hcells _ ?_, hcells _ ?_, hcells _ ?_, hcells _ ?_⟩ <;> simp
  have hadd : acc.add py (objective :: keyResult :: epicCell :: weightCell :: rest) =
      if objective ≠ "" then
        ⟨acc.quads ++ [⟨objective, keyResult, epicCell, weightCell⟩], acc.problems, objective⟩
      else if acc.lastObjective ≠ "" then
        ⟨acc.quads ++ [⟨acc.lastObjective, keyResult, epicCell, weightCell⟩], acc.problems, acc.lastObjective⟩
      else
        ⟨acc.quads, acc.problems ++ [noObjectiveProblem keyResult], acc.lastObjective⟩ := by
    simp only [OkrRows.add, if_neg hheader, hstrip]
  have hown : ownObjective py (objective :: keyResult :: epicCell :: weightCell :: rest) =
      if objective = "" then none else some objective := if_neg hheader
  have hout : rowOutcome py earlier (objective :: keyResult :: epicCell :: weightCell :: rest) =
      match (if objective = "" then none else some objective).or (nearestObjective py earlier) with
      | some o => .quad ⟨o, keyResult, epicCell, weightCell⟩
      | none => .problem (noObjectiveProblem keyResult) := by
    rw [← hown]
    exact if_neg hheader
  have hlast : ∀ acc' : OkrRows, acc'.lastObjective = ((if objective = "" then none else some objective).or
      (nearestObjective py earlier)).getD "" →
        Remembers py (earlier ++ [objective :: keyResult :: epicCell :: weightCell :: rest]) acc' := by
    intro acc' h'
    rw [Remembers, nearestObjective_append, hown]
    exact h'
  by_cases hempty : objective = ""
  · have hnot : ¬ objective ≠ "" := not_not.2 hempty
    rw [if_pos hempty, Option.none_or] at hout hlast
    rw [hadd, if_neg hnot]
    cases hnear : nearestObjective py earlier with
    | none =>
        -- nothing above it either
        rw [hnear] at hout hlast
        have hzero : acc.lastObjective = "" := by rw [h, hnear]; rfl
        rw [if_neg (not_not.2 hzero)]
        constructor
        · rw [hout]; exact (List.append_nil _).symm
        · rw [hout]; rfl
        · exact hlast _ hzero
    | some o =>
        -- a continuation row
        rw [hnear] at hout hlast
        have ho : acc.lastObjective = o := by rw [h, hnear]; rfl
        have hne : acc.lastObjective ≠ "" := ho ▸ nearestObjective_ne_empty hnear
        rw [if_pos hne, ho]
        constructor
        · rw [hout]; rfl
        · rw [hout]; exact (List.append_nil _).symm
        · exact hlast _ rfl
  · rw [if_neg hempty, Option.some_or] at hout hlast
    rw [hadd, if_pos hempty]
    constructor
    · rw [hout]; rfl
    · rw [hout]; exact (List.append_nil _).symm
    · exact hlast _ rfl

/-- One round of the loop files the row as its outcome says. -/
theorem add_outcome {acc : OkrRows} (h : Remembers py earlier acc) (hcells : Stripped cells) :
    Files py earlier cells acc (acc.add py cells) := by
  have hkeeps : ∀ acc' : OkrRows, acc'.lastObjective = acc.lastObjective → ownObjective py cells = none →
      Remembers py (earlier ++ [cells]) acc' := by
    intro acc' hsame hown
    unfold Remembers
    rw [hsame, nearestObjective_append, hown, Option.none_or]
    exact h
  by_cases hheader : isHeaderRow py cells = true
  · have hadd : acc.add py cells = acc := if_pos hheader
    have hout : rowOutcome py earlier cells = .dropped := if_pos hheader
    rw [hadd]
    constructor
    · rw [hout]; exact (List.append_nil _).symm
    · rw [hout]; exact (List.append_nil _).symm
    · exact hkeeps acc rfl (if_pos hheader)
  · have hshort : acc.add py cells = { acc with problems := acc.problems ++ [shortRowProblem cells] } →
        rowOutcome py earlier cells = .problem (shortRowProblem cells) → ownObjective py cells = none →
        Files py earlier cells acc (acc.add py cells) := by
      intro hadd hout hown
      rw [hadd]
      constructor
      · rw [hout]; exact (List.append_nil _).symm
      · rw [hout]; rfl
      · exact hkeeps _ rfl hown
    match cells with
    | [] => exact hshort (if_neg hheader) (if_neg hheader) (if_neg hheader)
    | [_] => exact hshort (if_neg hheader) (if_neg hheader) (if_neg hheader)
    | [_, _] => exact hshort (if_neg hheader) (if_neg hheader) (if_neg hheader)
    | [_, _, _] => exact hshort (if_neg hheader) (if_neg hheader) (if_neg hheader)
    | _ :: _ :: _ :: _ :: _ => exact add_full_row h hcells hheader

/-- The loop files every row as its outcome says. -/
theorem foldl_add (rows : List (List String)) {acc : OkrRows} (h : Remembers py earlier acc) (hrows : ∀ cells ∈ rows, Stripped cells) :
    (rows.foldl (OkrRows.add py) acc).quads = acc.quads ++ (rowOutcomes py earlier rows).filterMap RowOutcome.quad? ∧
      (rows.foldl (OkrRows.add py) acc).problems =
        acc.problems ++ (rowOutcomes py earlier rows).filterMap RowOutcome.problem? := by
  induction rows generalizing earlier acc with
  | nil => simp [rowOutcomes]
  | cons cells rows ih =>
      rw [List.forall_mem_cons] at hrows
      have hfiles := add_outcome h hrows.1
      obtain ⟨hquads, hproblems⟩ := ih hfiles.remembers hrows.2
      have hcons : ∀ {β : Type} (g : RowOutcome → Option β), (rowOutcomes py earlier (cells :: rows)).filterMap g =
          (g (rowOutcome py earlier cells)).toList ++ (rowOutcomes py (earlier ++ [cells]) rows).filterMap g := by
        intro β g
        rw [rowOutcomes]
        cases h : g (rowOutcome py earlier cells) with
        | none => rw [List.filterMap_cons_none h]; rfl
        | some b => rw [List.filterMap_cons_some h]; rfl
      rw [List.foldl_cons, hquads, hproblems, hfiles.quads, hfiles.problems, hcons, hcons, List.append_assoc,
        List.append_assoc]
      exact ⟨rfl, rfl⟩

end Loop

/-- On a page without a row inside a row, the rows are those of the specification, and each of them is dropped, a
problem or a quad as its outcome says. -/
theorem okr_table_parsed (py : PagePython) (content : String) (page : Forest String String)
    (htokens : py.tokens content = page.tokens) (hcells : page.DirectlyIn isCellTag isRowTag false)
    (hrows : page.Apart isCellTag isRowTag false) :
    (OkrTableParser.init.feed (py.tokens content)).rows = rowsOf page ∧
      parseOkrTable py content = ((rowOutcomes py [] (rowsOf page)).filterMap RowOutcome.quad?,
        (rowOutcomes py [] (rowsOf page)).filterMap RowOutcome.problem?) := by
  have hparsed : (OkrTableParser.init.feed (py.tokens content)).rows = rowsOf page := by
    rw [htokens]
    exact (OkrTableParser.feed_rows ⟨rfl, rfl, rfl⟩ hcells hrows).rows
  refine ⟨hparsed, ?_⟩
  have hinit : Remembers py [] .init := rfl
  obtain ⟨hquads, hproblems⟩ := foldl_add (rowsOf page) hinit rowsOf_stripped
  unfold parseOkrTable
  rw [hparsed]
  exact Prod.ext hquads hproblems

/-! ### Sample pages -/

/-- A row with one cell. -/
def cellPage : Forest String String :=
  .elem "tr" (.elem "td" (.text "Grow" .nil) .nil) .nil

/-- A row directly inside a row. -/
def nestedRowPage : Forest String String :=
  .elem "tr" (.elem "tr" .nil .nil) .nil

/-- Library functions that agree with the real ones on the sample pages. -/
def samplePages : PagePython where
  tokens := fun content =>
    if content = "<tr><td>Grow</td></tr>" then cellPage.tokens
    else if content = "<tr><tr></tr></tr>" then nestedRowPage.tokens
    else []
  lower := id
  upper := id
  isDecimal := Char.isDigit
  parseFloat := fun _ => none
  repr := fun s => "'" ++ s ++ "'"

theorem okr_table_parsed_cell :
    (OkrTableParser.init.feed (samplePages.tokens "<tr><td>Grow</td></tr>")).rows = rowsOf cellPage ∧
      parseOkrTable samplePages "<tr><td>Grow</td></tr>" =
        ((rowOutcomes samplePages [] (rowsOf cellPage)).filterMap RowOutcome.quad?,
          (rowOutcomes samplePages [] (rowsOf cellPage)).filterMap RowOutcome.problem?) := by
  apply okr_table_parsed samplePages "<tr><td>Grow</td></tr>" cellPage
  · rfl
  · simp [cellPage, Forest.DirectlyIn, isCellTag, isRowTag]
  · simp [cellPage, Forest.Apart, isCellTag, isRowTag]

/-- The end of a row inside a row ends the outer one too: the parser has one row where the page has two. -/
theorem okr_table_nested_row :
    samplePages.tokens "<tr><tr></tr></tr>" = nestedRowPage.tokens ∧
      nestedRowPage.DirectlyIn isCellTag isRowTag false ∧
      (OkrTableParser.init.feed (samplePages.tokens "<tr><tr></tr></tr>")).rows = [[]] ∧
      rowsOf nestedRowPage = [[], []] := by
  refine ⟨rfl, ?_, ?_, ?_⟩
  · simp [nestedRowPage, Forest.DirectlyIn, isCellTag, isRowTag]
  · decide +kernel
  · decide +kernel

end ProjectManager
