import FileDepot.Json.Record

/-!
# Values that are kept

A JSON value as a whole, for a reader that can say only afterwards what the value had to be. Its strings must be
texts, its numbers within the range of 64-bit binary floating point, and its brackets not too deep.
-/

namespace FileDepot.Json

/-- A JSON value of any kind. The fields of a record keep their order and may share a name. -/
inductive Kept where
  | null
  | bool (b : Bool)
  | number (n : Reader.Number)
  | text (s : String)
  | list (items : List Kept)
  | record (fields : List (String × Kept))

namespace Kept

open Reader

/-- The greatest number of brackets around a value, those of the value that it is part of included. -/
def maxDepth : Nat := 127

/-- Reads at most `bound` fields of an object, each value by `read`. -/
def readFields (read : Reader Kept) : (bound : Nat) → (first : Bool) → Reader (List (String × Kept))
  | 0, _ => throw .truncated
  | bound + 1, first => do
    if !(← anotherField first) then return []
    let name ← string
    colon
    let value ← read
    return (name, value) :: (← readFields read bound false)

/-- Reads a value within which `depth` brackets may stand inside each other, in a text of which at most `bound`
    bytes are left. -/
def readWithin (bound depth : Nat) : Reader Kept := do
  let b ← afterBlanks
  if b == 0x2D || isDigit b then return .number (← Reader.number)
  else if b == 0x5B || b == 0x7B then
    match depth with
    | 0 => throw .malformed
    | depth + 1 =>
      skip
      if b == 0x5B then
        return .list (← within (items (readWithin bound depth) (bound + 1) true) endList)
      else
        return .record (← within (readFields (readWithin bound depth) (bound + 1) true) endRecord)
  else if b == 0x22 then
    skip
    return .text (← string)
  else if b == 0x6E then
    skip
    word "ull"
    return .null
  else if b == 0x74 then
    skip
    word "rue"
    return .bool true
  else if b == 0x66 then
    skip
    word "alse"
    return .bool false
  else throw .malformed

/-- Reads a value within which `depth` brackets may stand inside each other. -/
def read (depth : Nat) : Reader Kept := do readWithin (← get).length depth

/-- Whether a value is null. -/
def isNull : Kept → Bool
  | null => true
  | _ => false

/-- Whether a value is a text. -/
def isText : Kept → Bool
  | text _ => true
  | _ => false

/-- Whether a value is a list of texts. -/
def isTexts : Kept → Bool
  | list items => items.all isText
  | _ => false

/-- Whether a value is null or an object without fields. -/
def isVoid : Kept → Bool
  | null | record [] => true
  | _ => false

/-- Whether a value names one of the given words: as a text, or as an object with the word as the name of its
    only field, whose value says nothing more. -/
def isOneOf (words : List String) (saysNothing : Kept → Bool) : Kept → Bool
  | text s => words.contains s
  | record [(s, value)] => words.contains s && saysNothing value
  | _ => false

end Kept

end FileDepot.Json
