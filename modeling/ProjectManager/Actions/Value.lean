import Mathlib.Data.Rat.Defs
import ProjectManager.Lib.Pattern
import ProjectManager.Lib.Text

/-!
# Values of actions

An action of the gateway is a dict of plain values.  `Python` collects the library functions that the
policy code rests on; the conversions that may raise return an `Except`.
-/

namespace ProjectManager

open Text

/-- A plain value; `list` stands for lists and tuples. -/
inductive Val where
  | none
  | bool (b : Bool)
  | int (n : ℤ)
  | float (q : ℚ)
  | str (s : String)
  | list (items : List Val)
  | dict (entries : List (String × Val))

/-- An action, in the order of its keys. -/
abbrev Action :=
  List (String × Val)

/-- The library functions that the policy code rests on. -/
structure Python where
  /-- `str.lower` -/
  lower : String → String
  /-- `str` of a value -/
  str : Val → String
  /-- `repr` of a value -/
  repr : Val → String
  /-- `int` of a text -/
  parseInt : String → Option ℤ
  /-- the class `\d` of patterns -/
  isDecimal : Char → Bool
  /-- the class `\w` of patterns -/
  isWord : Char → Bool
  /-- `json.dumps` with sorted keys -/
  dumps : Val → String
  /-- the hexadecimal digest of a text's UTF-8 bytes -/
  sha256 : String → String

namespace Val

/-- `type(value).__name__`. -/
def typeName : Val → String
  | none => "NoneType"
  | bool _ => "bool"
  | int _ => "int"
  | float _ => "float"
  | str _ => "str"
  | list _ => "list"
  | dict _ => "dict"

/-- The truth value. -/
def truthy : Val → Bool
  | none => false
  | bool b => b
  | int n => n != 0
  | float q => q != 0
  | str s => s != ""
  | list items => !items.isEmpty
  | dict entries => !entries.isEmpty

/-- `a or b`. -/
def orElse (a b : Val) : Val :=
  if a.truthy then a else b

/-- Iterating over a value. -/
def iterate : Val → Except String (List Val)
  | list items => .ok items
  | str s => .ok (s.toList.map fun c => .str (String.singleton c))
  | dict entries => .ok (entries.map fun e => .str e.1)
  | v => .error s!"'{v.typeName}' object is not iterable"

/-- `value[:n]`, joined as texts. -/
def slice (v : Val) (n : ℕ) : Except String (List Val) :=
  match v with
  | list items => .ok (items.take n)
  | str s => .ok ((s.toList.take n).map fun c => .str (String.singleton c))
  | v => .error s!"'{v.typeName}' object is not subscriptable"

/-- `value.get(key, default)`. -/
def getKey (v : Val) (key : String) (default : Val) : Except String Val :=
  match v with
  | dict entries => .ok ((entries.lookup key).getD default)
  | v => .error s!"'{v.typeName}' object has no attribute 'get'"

end Val

/-- `action.get(key, default)`. -/
def Action.get (a : Action) (key : String) (default : Val) : Val :=
  (a.lookup key).getD default

/-- `str(action.get(key, "")).lower()`. -/
def Action.lowered (py : Python) (a : Action) (key : String) : String :=
  py.lower (py.str (a.get key (.str "")))

/-- The type of the action, as every check reads it. -/
def Action.type (py : Python) (a : Action) : String :=
  a.lowered py "type"

end ProjectManager
