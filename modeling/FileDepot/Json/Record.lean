import FileDepot.Json.Reader
import FileDepot.Json.Value

/-!
# Reading records

Readers for values of a given kind and for records with known fields. A record is written as a JSON object,
whose unknown fields are passed over, or as a list of the values of its first fields.
-/

namespace FileDepot.Json

namespace Reader

/-- Fails at a value of another kind than the one that is read. A value that is a fault in itself is told as
    such; an opening bracket stays in place. -/
def mismatch {α : Type} : Reader α := do
  let b ← afterBlanks
  if b == 0x2D || isDigit b then
    let _ ← number
  else if b == 0x22 then
    skip
    let _ ← string
  else if b == 0x6E || b == 0x74 || b == 0x66 then
    skip
    word (if b == 0x6E then "ull" else if b == 0x74 then "rue" else "alse")
  else if b != 0x5B && b != 0x7B then throw .malformed
  throw .mismatched

/-- Reads a text. -/
def text : Reader Json := do
  if (← afterBlanks) == 0x22 then
    skip
    return .text (← string)
  else mismatch

/-- Reads an integer within the given bounds. -/
def integer (least greatest : Int) : Reader Json := do
  let b ← afterBlanks
  if b == 0x2D || isDigit b then
    match ← number with
    | .integer n => if least ≤ n && n ≤ greatest then return .number n else throw .mismatched
    | .other => throw .mismatched
  else mismatch

/-- Reads what `read` reads, or a null. -/
def orNull (read : Reader Json) : Reader Json := do
  if (← afterBlanks) == 0x6E then
    skip
    word "ull"
    return .null
  else read

end Reader

/-- A known field of a record: its name, how its value is read, and what stands for the field where it is
    missing from an object or from the end of a list; `none` where it must be present. -/
structure Field where
  name : String
  read : Reader Json
  absent : Option Json
  beyond : Option Json

namespace Field

/-- A field that must be present. -/
def required (name : String) (read : Reader Json) : Field := ⟨name, read, none, none⟩

/-- A field with a value that stands for it wherever it is missing. -/
def withDefault (name : String) (read : Reader Json) (value : Json) : Field :=
  ⟨name, read, some value, some value⟩

/-- A field that may be null, and that may be missing from an object. -/
def nullable (name : String) (read : Reader Json) : Field := ⟨name, Reader.orNull read, some .null, none⟩

end Field

namespace Reader

/-- Reads at most `bound` fields of an object, where `found` are the values already found. -/
def objectFields (fields : List Field) : (bound : Nat) → (first : Bool) → (found : List (String × Json)) →
    Reader (List (String × Json))
  | 0, _, _ => throw .truncated
  | bound + 1, first, found => do
    if !(← anotherField first) then return found
    let name ← string
    match fields.find? (·.name == name) with
    | none =>
      colon
      passValue bound
      objectFields fields bound false found
    | some field =>
      if (found.lookup name).isSome then throw .mismatched
      colon
      let value ← field.read
      objectFields fields bound false ((name, value) :: found)

/-- The values of the fields in their order, where those not found are filled in. -/
def complete (fields : List Field) (found : List (String × Json)) : Reader (List Json) :=
  fields.mapM fun field =>
    match (found.lookup field.name).or field.absent with
    | some value => return value
    | none => throw .mismatched

/-- Reads the values of a list for the fields of a record. -/
def listFields : (fields : List Field) → (first : Bool) → Reader (List Json)
  | [], _ => return []
  | field :: others, first => do
    if !(← anotherItem first) then
      match (field :: others).mapM Field.beyond with
      | some values => return values
      | none => throw .mismatched
    let value ← field.read
    return value :: (← listFields others false)

/-- Reads a record: the values of its fields in their order. -/
def record (fields : List Field) : Reader (List Json) := do
  let b ← afterBlanks
  if b == 0x7B then
    skip
    let length := (← get).length
    within (do complete fields (← objectFields fields (length + 1) true [])) endRecord
  else if b == 0x5B then
    skip
    within (listFields fields true) endList
  else mismatch

/-- Takes white space up to the end of the text. -/
def nothingElse : Reader Unit := do
  if (← afterBlanks?).isSome then throw .malformed

end Reader

/-- Reads a value from the start of a text and leaves the rest alone. -/
def readFirst {α : Type} (read : Reader α) (text : Bytes) : Except Fault α :=
  ((ExceptT.run read).run text).1

/-- Reads a text that consists of one value. -/
def readWhole {α : Type} (read : Reader α) (text : Bytes) : Except Fault α :=
  readFirst (do
    let value ← read
    Reader.nothingElse
    return value) text

end FileDepot.Json
