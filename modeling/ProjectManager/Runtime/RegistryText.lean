import ProjectManager.Runtime.RegistryEdit

/-!
# Block-style registries

What a registry in block style looks like, line by line: blank lines and comments, the key `agents:`, the dashes of the
list items and the fields of their mappings, in any order and at any indentation.  `scanLine` reads one line, `readDoc`
the fields of the items, when the indentation is right, and `ReadsBlocks` says what the YAML library makes of such a
text.
-/

namespace ProjectManager

open Lines

/-! ### Lines -/

/-- A key of an entry. -/
inductive EntryKey where
  | id | enabled
deriving DecidableEq, Repr

/-- The key as it is written. -/
def EntryKey.text : EntryKey → String
  | id => "id"
  | enabled => "enabled"

/-- A value as it is written: a plain word, or a text in quotes. -/
inductive Scalar where
  | plain (word : List Char)
  | quoted (text : List Char)
deriving DecidableEq, Repr

/-- A key with its value. -/
structure Field where
  key : EntryKey
  value : Scalar
deriving DecidableEq, Repr

/-- A line of a registry. -/
inductive Line where
  /-- a blank line or a comment; `atMargin` for a comment in the first column -/
  | filler (atMargin : Bool)
  /-- the key of the list -/
  | agents
  /-- the dash of an item, perhaps with a first field and the blanks before it -/
  | dash (indent : ℕ) (first : Option (ℕ × Field))
  /-- a field on a line of its own -/
  | field (indent : ℕ) (f : Field)
  /-- a second field behind a first one -/
  | crowded
deriving DecidableEq, Repr

section Scan

/-- How many blanks a text begins with. -/
def blanks (l : List Char) : ℕ :=
  (l.takeWhile fun c => c == ' ').length

/-- The text behind its leading blanks. -/
def unindent (l : List Char) : List Char :=
  l.dropWhile fun c => c == ' '

/-- Nothing but blanks and a comment follows. -/
def isTrail (l : List Char) : Bool :=
  match unindent l with
  | [] => true
  | '#' :: _ => decide (blanks l ≠ 0)
  | _ => false

/-- A character of a plain word. -/
def isWordChar (c : Char) : Bool :=
  c.isAlphanum || c == '_' || c == '-' || c == '.'

/-- The key that a text begins with. -/
def readKey (l : List Char) : Option (EntryKey × List Char) :=
  if "id:".toList.isPrefixOf l then
    some (.id, l.drop 3)
  else if "enabled:".toList.isPrefixOf l then
    some (.enabled, l.drop 8)
  else
    none

/-- A quotation mark: 34 is the double and 39 the single one. -/
def isQuote (c : Char) : Bool :=
  c.toNat == 34 || c.toNat == 39

/-- The value that a text begins with. -/
def readScalar : List Char → Option (Scalar × List Char)
  | [] => none
  | c :: l =>
      if c.isAlphanum then
        some (.plain ((c :: l).takeWhile isWordChar), (c :: l).dropWhile isWordChar)
      else if isQuote c then
        let isInside := fun d => d != c && d != '\\'
        match l.dropWhile isInside with
        | d :: rest => if d = c then some (.quoted (l.takeWhile isInside), rest) else none
        | [] => none
      else
        none

/-- The field that a text begins with. -/
def readField (l : List Char) : Option (Field × List Char) :=
  match readKey l with
  | some (key, rest) =>
      if blanks rest = 0 then none else (readScalar (unindent rest)).map fun x => (⟨key, x.1⟩, x.2)
  | none => none

/-- A line that is `build` of the field it ends with. -/
def fieldLine (build : Field → Line) (l : List Char) : Option Line :=
  match readField l with
  | some (f, rest) =>
      if isTrail rest then
        some (build f)
      else if blanks rest ≠ 0 ∧ (readField (unindent rest)).isSome then
        some .crowded
      else
        none
  | none => none

/-- A character that a line may have. -/
def isPrintable (c : Char) : Bool :=
  let n := c.toNat
  (32 ≤ n && n ≤ 126) || (160 ≤ n && n != 0x2028 && n != 0x2029 && n != 0xFFFE && n != 0xFFFF)

/-- The line without its line feed. -/
def lineBody (l : List Char) : List Char :=
  if l.getLast? = some '\n' then l.dropLast else l

/-- What a line without line feed has behind its indentation. -/
def scanBody (indent : ℕ) : List Char → Option Line
  | [] => some (.filler false)
  | '#' :: _ => some (.filler (decide (indent = 0)))
  | '-' :: rest =>
      if isTrail rest then
        some (.dash indent none)
      else if blanks rest = 0 then
        none
      else
        fieldLine (fun f => .dash indent (some (blanks rest, f))) (unindent rest)
  | c :: rest =>
      if indent = 0 then
        if "agents:".toList.isPrefixOf (c :: rest) && isTrail ((c :: rest).drop 7) then some .agents else none
      else
        fieldLine (.field indent) (c :: rest)

/-- What stands on a line. -/
def scanLine (l : List Char) : Option Line :=
  if (lineBody l).all isPrintable then scanBody (blanks (lineBody l)) (unindent (lineBody l)) else none

end Scan

/-! ### Texts -/

/-- The lines of a text. -/
def BlockLines (text : List Char) (ls : List Line) : Prop :=
  (keepLines text).map scanLine = ls.map some

/-- The key of the list comes once, with nothing but fillers before it. -/
def HasHeader (ls : List Line) : Prop :=
  ∃ lead body, ls = lead ++ .agents :: body ∧ (∀ l ∈ lead, ∃ b, l = .filler b) ∧ .agents ∉ body

/-- An item of the list, as its lines have it: fields with the columns they stand in. -/
structure Item where
  indent : ℕ
  first : Option (ℕ × Field)
  tail : List (ℕ × Field)
deriving DecidableEq, Repr

/-- The fields before the first item, and the items. -/
def parseItems : List Line → List (ℕ × Field) × List Item
  | [] => ([], [])
  | .dash indent first :: ls => ([], ⟨indent, first, (parseItems ls).1⟩ :: (parseItems ls).2)
  | .field column f :: ls => ((column, f) :: (parseItems ls).1, (parseItems ls).2)
  | _ :: ls => parseItems ls

namespace Item

/-- The fields of an item. -/
def fields (item : Item) : List Field :=
  (item.first.map Prod.snd).toList ++ item.tail.map Prod.snd

/-- The column that the fields of an item stand in. -/
def column (item : Item) : Option ℕ :=
  match item.first with
  | some (gap, _) => some (item.indent + 1 + gap)
  | none => item.tail.head?.map Prod.fst

/-- The fields stand in one column, to the right of the dash. -/
def Aligned (item : Item) : Prop :=
  ∃ c, item.column = some c ∧ item.indent < c ∧ ∀ x ∈ item.tail, x.1 = c

instance (item : Item) : Decidable item.Aligned :=
  match h : item.column with
  | none => isFalse fun ⟨_, hc, _⟩ => by rw [h] at hc; cases hc
  | some c =>
      decidable_of_iff (item.indent < c ∧ ∀ x ∈ item.tail, x.1 = c)
        ⟨fun hc => ⟨c, h, hc⟩, fun ⟨c', hc', hrest⟩ => by rw [h] at hc'; obtain rfl := Option.some.inj hc'; exact hrest⟩

/-- The value of a key: the last one counts. -/
def value (item : Item) (key : EntryKey) : Option Scalar :=
  ((item.fields.filter fun f => decide (f.key = key)).getLast?).map Field.value

end Item

/-- The items of a list, all at the indentation of the first one. -/
def Level (items : List Item) : Prop :=
  ∀ first ∈ items.head?, ∀ item ∈ items, item.indent = first.indent ∧ item.Aligned

instance (items : List Item) : Decidable (Level items) :=
  inferInstanceAs (Decidable (∀ first ∈ items.head?, _))

/-- The items of a registry, when the indentation is right. -/
def readDoc (ls : List Line) : Option (List Item) :=
  let (lead, items) := parseItems ls
  if .crowded ∉ ls ∧ lead = [] ∧ items ≠ [] ∧ Level items then some items else none

/-! ### Values -/

section Values

variable (resolve : List Char → Val)

/-- The value of a scalar; `resolve` finds the type of a plain one. -/
def Scalar.val : Scalar → Val
  | plain word => resolve word
  | quoted text => .str (String.ofList text)

/-- The mapping of an item. -/
def Item.val (item : Item) : Val :=
  .dict ((item.fields.map Field.key).eraseDups.filterMap fun key =>
    (item.value key).map fun s => (key.text, s.val resolve))

/-- The document of a registry. -/
def docVal (items : List Item) : Val :=
  .dict [("agents", .list (items.map (Item.val resolve)))]

/-- A document whose `agents` is a list of mappings. -/
def HasMappings (doc : Val) : Prop :=
  ∃ entries agents, doc = .dict entries ∧ dictGet entries "agents" = .list agents ∧
    ∀ agent ∈ agents, ∃ raw, agent = .dict raw

/-- A dash without a field stands where the first dash does, so that it cannot continue a word of the line above. -/
def BareLevel (ls : List Line) : Prop :=
  ∀ n, .dash n none ∈ ls → ∀ item ∈ (parseItems ls).2.head?, n = item.indent

/-- What the YAML library does with texts in block style. -/
structure ReadsBlocks (safeLoad : List Char → Except String Val) : Prop where
  /-- items at one indentation, with their fields in one column, are a list of mappings -/
  reads : ∀ text ls items, BlockLines text ls → HasHeader ls → readDoc ls = some items →
    safeLoad text = .ok (docVal resolve items)
  /-- any other layout is an error, or no list of mappings -/
  rejects : ∀ text ls, BlockLines text ls → HasHeader ls → BareLevel ls → readDoc ls = none →
    ∀ doc, safeLoad text = .ok doc → ¬ HasMappings doc
  /-- a plain word that is a text is the word itself -/
  plain_str : ∀ word s, resolve word = .str s → s = String.ofList word
  plain_true : resolve "true".toList = .bool true
  plain_false : resolve "false".toList = .bool false

end Values

end ProjectManager
