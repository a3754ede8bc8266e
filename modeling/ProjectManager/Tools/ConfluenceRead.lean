import Mathlib.Algebra.Ring.Rat
import ProjectManager.Lib.Markup
import ProjectManager.Lib.Pattern
import ProjectManager.Lib.Text

/-!
# Reading the OKR table of a page

The parser of the page body, which collects the rows of the outermost table in four variables; `parse_okr_table`, which
sorts the rows into quads and problems; and the parsers of the epic key and weight cells.
-/

namespace ProjectManager

/-- A call that the HTML parser makes of its handlers; attributes are not looked at. -/
abbrev HtmlToken :=
  Markup.Token String String

/-- The library functions that a page is read with. -/
structure PagePython where
  /-- the handlers that `HTMLParser.feed` calls -/
  tokens : String → List HtmlToken
  /-- `str.lower` -/
  lower : String → String
  /-- `str.upper` -/
  upper : String → String
  /-- the class `\d` of patterns -/
  isDecimal : Char → Bool
  /-- `float` of a text; `none` is a `ValueError` -/
  parseFloat : String → Option ℚ
  /-- `repr` of a text -/
  repr : String → String

/-- A row or an epic that the rollup skips. -/
structure OkrProblem where
  row : String
  reason : String
deriving DecidableEq, Repr

/-- `(objective, key_result, epic_keys_cell, weight_cell)`. -/
structure OkrRow where
  objective : String
  keyResult : String
  epicCell : String
  weightCell : String
deriving DecidableEq, Repr

/-! ### The table parser -/

/-- A tag that opens a cell. -/
def isCellTag (tag : String) : Bool :=
  decide (tag = "td") || decide (tag = "th")

/-- `_OkrTableParser`. -/
structure OkrTableParser where
  rows : List (List String)
  inCell : Bool
  cellParts : List String
  row : Option (List String)
  cellDepth : ℤ
deriving DecidableEq, Repr

namespace OkrTableParser

/-- The parser before any text. -/
def init : OkrTableParser where
  rows := []
  inCell := false
  cellParts := []
  row := none
  cellDepth := 0

/-- `handle_starttag` -/
def handleStarttag (p : OkrTableParser) (tag : String) : OkrTableParser :=
  if p.inCell then
    if isCellTag tag then { p with cellDepth := p.cellDepth + 1 } else p
  else if tag = "tr" then
    { p with row := some [] }
  else if isCellTag tag then
    { p with inCell := true, cellDepth := 1, cellParts := [] }
  else
    p

/-- The text of the open cell. -/
def cellText (p : OkrTableParser) : String :=
  Text.strip (String.join p.cellParts)

/-- `handle_endtag` -/
def handleEndtag (p : OkrTableParser) (tag : String) : OkrTableParser :=
  if isCellTag tag && p.inCell then
    let p := { p with cellDepth := p.cellDepth - 1 }
    match p.row with
    | some row => if p.cellDepth = 0 then { p with row := some (row ++ [p.cellText]), inCell := false } else p
    | none => p
  else if tag = "tr" && !p.inCell then
    match p.row with
    | some row => { p with rows := p.rows ++ [row], row := none }
    | none => p
  else
    p

/-- `handle_data` -/
def handleData (p : OkrTableParser) (data : String) : OkrTableParser :=
  if p.inCell then { p with cellParts := p.cellParts ++ [data] } else p

/-- One call of a handler. -/
def handle (p : OkrTableParser) : HtmlToken → OkrTableParser
  | .startTag tag => p.handleStarttag tag
  | .endTag tag => p.handleEndtag tag
  | .data text => p.handleData text

/-- All calls of one `feed`. -/
def feed (p : OkrTableParser) (tokens : List HtmlToken) : OkrTableParser :=
  tokens.foldl handle p

@[simp] theorem feed_nil (p : OkrTableParser) : p.feed [] = p :=
  rfl

@[simp] theorem feed_cons (p : OkrTableParser) (t : HtmlToken) (ts : List HtmlToken) :
    p.feed (t :: ts) = (p.handle t).feed ts :=
  rfl

@[simp] theorem feed_append (p : OkrTableParser) (ts ts' : List HtmlToken) :
    p.feed (ts ++ ts') = (p.feed ts).feed ts' :=
  List.foldl_append

end OkrTableParser

/-! ### The rows -/

/-- `_HEADER_CELLS` -/
def headerCells : List String :=
  ["objective", "key result", "epic key(s)", "epic keys", "weight"]

/-- `_is_header_row` -/
def isHeaderRow (py : PagePython) (cells : List String) : Bool :=
  decide (2 ≤ (cells.map fun c => py.lower (Text.strip c)).countP headerCells.contains)

/-- What the loop over the rows has collected. -/
structure OkrRows where
  quads : List OkrRow
  problems : List OkrProblem
  lastObjective : String

/-- The loop before its first row. -/
def OkrRows.init : OkrRows where
  quads := []
  problems := []
  lastObjective := ""

/-- The problem of a row with too few cells. -/
def shortRowProblem (cells : List String) : OkrProblem where
  row := if cells.isEmpty then "(hàng rỗng)" else " | ".intercalate cells
  reason := "hàng thiếu cột (cần 4 cột)"

/-- The problem of a continuation row with nothing above it. -/
def noObjectiveProblem (keyResult : String) : OkrProblem where
  row := keyResult
  reason := "thiếu Objective ở hàng đầu"

/-- One round of the loop over the rows. -/
def OkrRows.add (py : PagePython) (acc : OkrRows) (cells : List String) : OkrRows :=
  if isHeaderRow py cells then
    acc
  else
    match cells with
    | a :: b :: c :: d :: _ =>
        let (objective, keyResult, epicCell, weightCell) := (Text.strip a, Text.strip b, Text.strip c, Text.strip d)
        if objective ≠ "" then
          { acc with
            quads := acc.quads ++ [⟨objective, keyResult, epicCell, weightCell⟩]
            lastObjective := objective }
        else if acc.lastObjective ≠ "" then
          { acc with quads := acc.quads ++ [⟨acc.lastObjective, keyResult, epicCell, weightCell⟩] }
        else
          { acc with problems := acc.problems ++ [noObjectiveProblem keyResult] }
    | cells => { acc with problems := acc.problems ++ [shortRowProblem cells] }

/-- `parse_okr_table` -/
def parseOkrTable (py : PagePython) (content : String) : List OkrRow × List OkrProblem :=
  let rows := (OkrTableParser.init.feed (py.tokens content)).rows
  let acc := rows.foldl (OkrRows.add py) .init
  (acc.quads, acc.problems)

/-! ### The cells -/

/-- `_EPIC_KEY_RE` without its anchors. -/
def epicKeyPattern (py : PagePython) : List Pattern.Part :=
  [Pattern.one Char.isUpper, Pattern.atLeast 0 fun c => c.isUpper || c.isDigit] ++ Pattern.lit "-" ++
    [Pattern.atLeast 1 py.isDecimal]

/-- `_EPIC_KEY_RE.match`; `$` also stands before a newline that ends the text. -/
def isEpicKey (py : PagePython) (key : String) : Bool :=
  match Pattern.matchAt (fun _ => false) (epicKeyPattern py) none key.toList with
  | some rest => decide (rest = []) || decide (rest = ['\n'])
  | none => false

/-- The words of a text, as `str.split` finds them. -/
def splitWords (text : List Char) : List String :=
  ((text.splitOnP Text.isSpace).filter fun word => !word.isEmpty).map String.ofList

/-- `parse_epic_keys` -/
def parseEpicKeys (py : PagePython) (cell : String) : List String :=
  let raw := splitWords (cell.toList.map fun c => if c = ',' then ' ' else c)
  raw.foldl
    (fun seen token =>
      let key := py.upper (Text.strip token)
      if isEpicKey py key && !seen.contains key then seen ++ [key] else seen)
    []

/-- `parse_weight`; `none` is a `ValueError`, `some none` an empty cell. -/
def parseWeight (py : PagePython) (cell : String) : Option (Option ℚ) :=
  let text := (Text.strip cell).toList
  if text = [] then
    some none
  else if text.getLast? = some '%' then
    (py.parseFloat (Text.strip (String.ofList text.dropLast))).map fun w => some (w / 100)
  else
    (py.parseFloat (String.ofList text)).map some

end ProjectManager
