import FileDepot.Toml.Document
import FileDepot.Toml.Scalar

/-!
# Reading TOML documents

Readers for values of any depth and for the lines of a document.
-/

namespace FileDepot.Toml

namespace Reader

/-- Takes white space, comments and at most `bound` line ends between the items of a list. -/
def betweenItems : (bound : Nat) → Reader Unit
  | 0 => failure
  | bound + 1 => do
    blanks
    match ← peek? with
    | some c =>
      if c == '#' then
        comment
        newline
        betweenItems bound
      else if c == '\r' || c == '\n' then
        newline
        betweenItems bound
    | none => return

/-- Takes a value without brackets. -/
def scalar : Reader Toml := do
  match ← peek? with
  | none => failure
  | some c =>
    if c == '"' || c == singleQuote then return .text (← text)
    else if c == 't' then
      word "true"
      return .bool
    else if c == 'f' then
      word "false"
      return .bool
    else firstOf [do date; return .date, do decimal; return .real, do specialReal; return .real,
      do return .integer (← integer)]

mutual

/-- Takes a value within `depth` brackets. -/
def valueFrom : (bound : Nat) → (depth : Nat) → Reader Toml
  | 0, _ => failure
  | bound + 1, depth => do
    if ← take? '[' then
      if depthLimit ≤ depth + 1 then failure
      betweenItems (bound + 1)
      return .list (← itemsFrom bound (depth + 1))
    else if ← take? '\x7b' then
      if depthLimit ≤ depth + 1 then failure
      blanks
      let pairs ← if ← take? '\x7d' then pure [] else pairsFrom bound (depth + 1)
      match ofPairs pairs with
      | some value => return value
      | none => failure
    else scalar

/-- Takes the items of a list and its closing bracket. A comma may follow the last item. -/
def itemsFrom : (bound : Nat) → (depth : Nat) → Reader (List Toml)
  | 0, _ => failure
  | bound + 1, depth => do
    if ← take? ']' then return []
    let item ← valueFrom bound depth
    betweenItems (bound + 1)
    if ← take? ',' then
      betweenItems (bound + 1)
      return item :: (← itemsFrom bound depth)
    else
      expect ']'
      return [item]

/-- Takes the entries of a table in braces and its closing brace. -/
def pairsFrom : (bound : Nat) → (depth : Nat) → Reader (List (List String × String × Toml))
  | 0, _ => failure
  | bound + 1, depth => do
    let names ← path
    expect '='
    blanks
    let value ← valueFrom bound depth
    blanks
    let pair := (names.dropLast, names.getLastD "", value)
    if ← take? ',' then return pair :: (← pairsFrom bound depth)
    else
      expect '\x7d'
      return [pair]

end

/-- Takes a header: its path, and whether its table is one of several. -/
def header : Reader (Bool × List String) := do
  expect '['
  let several ← take? '['
  let names ← path
  expect ']'
  if several then expect ']'
  return (several, names)

/-- Takes a line and enters it into the document, of which at most `bound` characters are left. Every character
    belongs to at most two readers of values. -/
def line (bound : Nat) (d : Draft) : Reader Draft := do
  let c ← peek?
  let entered ←
    if c == some '[' then
      let (several, names) ← header
      pure (if several then d.openOneOfSeveral names else d.openTable names)
    else if c == some '#' || c == some '\r' || c == some '\n' || c == none then pure (some d)
    else
      let names ← path
      expect '='
      blanks
      let value ← valueFrom (2 * bound + 2) 0
      pure (d.add names.dropLast (names.getLastD "") value)
  lineEnd
  match entered with
  | some d => return d
  | none => failure

/-- Takes at most `bound` lines. Each of them has a character at least. -/
def lines : (bound : Nat) → Draft → Reader Draft
  | 0, _ => failure
  | bound + 1, d => do
    blanks
    if (← peek?).isNone then return d else lines bound (← line (bound + 1) d)

end Reader

/-- The entries of the document that a text is, if it is one. A byte order mark at its start is passed over. -/
def read? (text : String) : Option Entries := do
  let cs := text.toList
  let cs := if cs.head?.map Char.toNat = some 0xFEFF then cs.drop 1 else cs
  let (draft, _) ← (Reader.lines (cs.length + 1) .blank).run cs
  draft.close

end FileDepot.Toml
