import ProjectManager.Actions.Value

/-!
# Secret detection and redaction

The patterns of vendor credentials, the key names that mark a value as secret, the walk that reports the
first secret of a nested value and the one that masks them all.
-/

namespace ProjectManager

open Pattern Text

/-- `REDACTED`. -/
def redacted : String := "***REDACTED***"

/-! ### Character classes -/

/-- A character of one of these ranges. -/
def inRanges (ranges : List (Char × Char)) (c : Char) : Bool :=
  ranges.any fun r => decide (r.1 ≤ c) && decide (c ≤ r.2)

/-- `[A-Za-z0-9]`. -/
def isAscii : Char → Bool :=
  inRanges [('A', 'Z'), ('a', 'z'), ('0', '9')]

/-- `[A-Za-z0-9]` and the characters of a text. -/
def isAsciiOr (more : String) (c : Char) : Bool :=
  isAscii c || more.toList.contains c

/-! ### Patterns -/

/-- A pattern with its source text. -/
structure SecretPattern where
  text : String
  parts : List Part

/-- `_SECRET_REGEXES`. -/
def secretRegexes (py : Python) : List SecretPattern :=
  [⟨"xox[baprs]-[A-Za-z0-9-]\x7b8,\x7d",
      lit "xox" ++ [one fun c => "baprs".toList.contains c] ++ lit "-" ++ [atLeast 8 (isAsciiOr "-")]⟩,
    ⟨"xoxc-[A-Za-z0-9-]\x7b8,\x7d", lit "xoxc-" ++ [atLeast 8 (isAsciiOr "-")]⟩,
    ⟨"xoxd-[A-Za-z0-9%-]\x7b8,\x7d", lit "xoxd-" ++ [atLeast 8 (isAsciiOr "%-")]⟩,
    ⟨"sk-or-[A-Za-z0-9-]\x7b8,\x7d", lit "sk-or-" ++ [atLeast 8 (isAsciiOr "-")]⟩,
    ⟨"sk-[A-Za-z0-9]\x7b20,\x7d", lit "sk-" ++ [atLeast 20 isAscii]⟩,
    ⟨"gh[pousr]_[A-Za-z0-9]\x7b20,\x7d",
      lit "gh" ++ [one fun c => "pousr".toList.contains c] ++ lit "_" ++ [atLeast 20 isAscii]⟩,
    ⟨"github_pat_[A-Za-z0-9_]\x7b20,\x7d", lit "github_pat_" ++ [atLeast 20 (isAsciiOr "_")]⟩,
    ⟨"AKIA[0-9A-Z]\x7b16\x7d", lit "AKIA" ++ [exactly 16 (inRanges [('0', '9'), ('A', 'Z')])]⟩,
    ⟨"AIza[0-9A-Za-z_-]\x7b30,\x7d", lit "AIza" ++ [atLeast 30 (isAsciiOr "_-")]⟩,
    ⟨"ya29\\.[0-9A-Za-z_-]\x7b20,\x7d", lit "ya29." ++ [atLeast 20 (isAsciiOr "_-")]⟩,
    ⟨"-----BEGIN [A-Z ]*PRIVATE KEY-----",
      lit "-----BEGIN " ++ [atLeast 0 (inRanges [('A', 'Z'), (' ', ' ')])] ++ lit "PRIVATE KEY-----"⟩,
    ⟨"eyJ[A-Za-z0-9_-]\x7b5,\x7d\\.[A-Za-z0-9_-]\x7b5,\x7d\\.[A-Za-z0-9_-]\x7b5,\x7d",
      lit "eyJ" ++ [atLeast 5 (isAsciiOr "_-")] ++ lit "." ++ [atLeast 5 (isAsciiOr "_-")] ++ lit "." ++
        [atLeast 5 (isAsciiOr "_-")]⟩,
    ⟨"glpat-[A-Za-z0-9_-]\x7b20,\x7d", lit "glpat-" ++ [atLeast 20 (isAsciiOr "_-")]⟩,
    ⟨"AC[0-9a-f]\x7b32\x7d", lit "AC" ++ [exactly 32 (inRanges [('0', '9'), ('a', 'f')])]⟩,
    ⟨"\\b\\d\x7b8,10\x7d:[A-Za-z0-9_-]\x7b35\x7d\\b",
      [.boundary, .run py.isDecimal 8 (some 10)] ++ lit ":" ++ [exactly 35 (isAsciiOr "_-"), .boundary]⟩]

/-- `_SECRET_KEY_MARKERS`. -/
def secretKeyMarkers : List String :=
  ["token", "secret", "password", "passwd", "api_key", "apikey", "api-key", "cookie", "authorization",
    "auth_token", "access_key", "private_key", "client_secret", "credential"]

/-- `find_secret`. -/
def findSecret (py : Python) (text : String) : Option String :=
  ((secretRegexes py).find? fun rx => search py.isWord rx.parts none text.toList).map fun rx => rx.text

/-- `key_is_secret`. -/
def keyIsSecret (py : Python) (key : String) : Bool :=
  secretKeyMarkers.any fun marker => contains (py.lower key) marker

/-! ### Walks -/

/-- A value that must not stand under a secret key. -/
def Val.isSecretValue : Val → Bool
  | .str s => s != "" && s != redacted
  | .none => false
  | .list _ => false
  | .dict _ => false
  | _ => true

mutual

/-- `contains_secret`: the first reason found. -/
def containsSecret (py : Python) : Val → Option String
  | .dict entries => entriesContainSecret py entries
  | .list items => itemsContainSecret py items
  | .str text => (findSecret py text).map fun p => s!"value matches secret pattern {py.repr (.str p)}"
  | _ => none

/-- The loop over the entries of a dict. -/
def entriesContainSecret (py : Python) : List (String × Val) → Option String
  | [] => none
  | (k, v) :: rest =>
      if keyIsSecret py k && v.isSecretValue then
        some s!"secret-bearing key {py.repr (.str k)}"
      else
        (containsSecret py v).or (entriesContainSecret py rest)

/-- The loop over the items of a list. -/
def itemsContainSecret (py : Python) : List Val → Option String
  | [] => none
  | v :: rest => (containsSecret py v).or (itemsContainSecret py rest)

end

/-- `_redact_text`. -/
def redactText (py : Python) (text : String) : String :=
  (secretRegexes py).foldl (fun masked rx => replaceAll py.isWord rx.parts redacted masked) text

mutual

/-- `redact`. -/
def redact (py : Python) : Val → Val
  | .dict entries => .dict (redactEntries py entries)
  | .list items => .list (redactItems py items)
  | .str text => .str (redactText py text)
  | v => v

/-- The entries of a dict, masked. -/
def redactEntries (py : Python) : List (String × Val) → List (String × Val)
  | [] => []
  | (k, v) :: rest =>
      (k, if keyIsSecret py k then .str redacted else redact py v) :: redactEntries py rest

/-- The items of a list, masked. -/
def redactItems (py : Python) : List Val → List Val
  | [] => []
  | v :: rest => redact py v :: redactItems py rest

end

end ProjectManager
