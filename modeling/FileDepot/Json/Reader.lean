import FileDepot.Bytes
import FileDepot.Number
import FileDepot.Text

/-!
# Reading JSON texts

Readers for the parts of a JSON text. A reader takes bytes from the front of the text and stops at the first
fault, so that of several faults the one that comes first is told. It stays where it stopped, so that reading
can go on from there where a fault is forgiven.
-/

namespace FileDepot.Json

/-- What can be wrong with a JSON text: it is no JSON, it ends too early, or it is not of the kind that is
    read. -/
inductive Fault where
  | malformed
  | truncated
  | mismatched
  deriving DecidableEq, Repr

/-- A computation on the rest of a text, which a fault leaves as it is. -/
abbrev Reader (α : Type) := ExceptT Fault (StateM Bytes) α

namespace Reader

/-- The white space of JSON. -/
def isBlank (b : UInt8) : Bool := b == 0x20 || b == 0x0A || b == 0x0D || b == 0x09

/-- The decimal digits. -/
def isDigit (b : UInt8) : Bool := 48 ≤ b && b ≤ 57

/-- The next byte, which stays in place. -/
def peek? : Reader (Option UInt8) := do return (← get).head?

/-- The next byte, which is taken; a text that ends here is truncated. -/
def next : Reader UInt8 := do
  match ← get with
  | [] => throw .truncated
  | b :: rest =>
    set rest
    return b

/-- Takes the next byte, which has been looked at. -/
def skip : Reader Unit := modify (List.drop 1)

/-- The first byte after white space, which stays in place. -/
def afterBlanks? : Reader (Option UInt8) := do
  modify (List.dropWhile isBlank)
  peek?

/-- The first byte after white space, which stays in place; a text that ends here is truncated. -/
def afterBlanks : Reader UInt8 := do
  match ← afterBlanks? with
  | none => throw .truncated
  | some b => return b

/-- Takes the given bytes. -/
def expect : Bytes → Reader Unit
  | [] => return
  | b :: rest => do
    if (← next) == b then expect rest else throw .malformed

/-- Takes the rest of a word whose first letter has been taken. -/
def word (rest : String) : Reader Unit := expect (Bytes.ofAscii rest)

/-- Takes one of the given bytes if it comes next. -/
def oneOf? (bytes : Bytes) : Reader (Option UInt8) := do
  match ← peek? with
  | some b =>
    if bytes.contains b then
      skip
      return some b
    else return none
  | none => return none

/-- Takes the digits that come next. -/
def digits : Reader Bytes := do
  let found := (← get).takeWhile isDigit
  modify (List.drop found.length)
  return found

/-! ## Strings -/

/-- Where a reader stands within a string. -/
inductive StringPlace where
  /-- between characters -/
  | plain
  /-- after a backslash -/
  | escape
  /-- within the digits of an escape, which may follow the first half of a surrogate pair -/
  | digits (lead : Option Nat) (found : List Char)
  /-- after the first half of a surrogate pair -/
  | pair (lead : Nat)
  /-- after the first half of a surrogate pair and a backslash -/
  | pairEscape (lead : Nat)

/-- The byte that an escape of one letter stands for. -/
def escapedByte? (b : UInt8) : Option UInt8 :=
  if b == 0x22 || b == 0x5C || b == 0x2F then some b
  else if b == 0x62 then some 0x08
  else if b == 0x66 then some 0x0C
  else if b == 0x6E then some 0x0A
  else if b == 0x72 then some 0x0D
  else if b == 0x74 then some 0x09
  else none

/-- The number that four hexadecimal digits denote. -/
def hexNumber? (digits : List Char) : Option Nat :=
  digits.foldl (fun n c => do return 16 * (← n) + (← Text.hexValue? c)) (some 0)

/-- The bytes of the character with a given number. -/
def charBytes (n : Nat) : Bytes := Bytes.ofText (String.singleton (Char.ofNat n))

/-- What follows from an escape with the number `n`: more bytes of the string, or that a second half of a
    surrogate pair has to come. -/
def endEscape (lead : Option Nat) (n : Nat) : Except Fault (Bytes × StringPlace) :=
  match lead with
  | none =>
    if 0xDC00 ≤ n ∧ n ≤ 0xDFFF then .error .malformed
    else if 0xD800 ≤ n ∧ n ≤ 0xDBFF then .ok ([], .pair n)
    else .ok (charBytes n, .plain)
  | some lead =>
    if 0xDC00 ≤ n ∧ n ≤ 0xDFFF then
      .ok (charBytes (0x10000 + (lead - 0xD800) * 0x400 + (n - 0xDC00)), .plain)
    else .error .malformed

/-- Reads a string up to the closing quote, with the bytes already found, last one first: its bytes or a fault,
    and the rest of the text. The byte at fault is taken. -/
def stringFrom (place : StringPlace) (found : Bytes) : Bytes → Except Fault Bytes × Bytes
  | [] => (.error .truncated, [])
  | b :: rest =>
    match place with
    | .plain =>
      if b == 0x22 then (.ok found.reverse, rest)
      else if b == 0x5C then stringFrom .escape found rest
      else if b < 0x20 then (.error .malformed, rest)
      else stringFrom .plain (b :: found) rest
    | .escape =>
      if b == 0x75 then stringFrom (.digits none []) found rest
      else
        match escapedByte? b with
        | some c => stringFrom .plain (c :: found) rest
        | none => (.error .malformed, rest)
    | .digits lead earlier =>
      let all := earlier ++ [Char.ofNat b.toNat]
      if all.length < 4 then stringFrom (.digits lead all) found rest
      else
        match hexNumber? all with
        | none => (.error .malformed, rest)
        | some n =>
          match endEscape lead n with
          | .error fault => (.error fault, rest)
          | .ok (bytes, place) => stringFrom place (bytes.reverse ++ found) rest
    | .pair lead =>
      if b == 0x5C then stringFrom (.pairEscape lead) found rest else (.error .malformed, rest)
    | .pairEscape lead =>
      if b == 0x75 then stringFrom (.digits (some lead) []) found rest else (.error .malformed, rest)

/-- Reads a string whose opening quote has been taken. -/
def string : Reader String := do
  let (outcome, rest) := stringFrom .plain [] (← get)
  set rest
  match outcome with
  | .error fault => throw fault
  | .ok bytes =>
    match bytes.text? with
    | some s => return s
    | none => throw .malformed

/-- Passes over a string whose opening quote has been taken. Its bytes need not be text, and an escape may
    name half of a surrogate pair. -/
def passStringFrom (place : StringPlace) : Bytes → Except Fault Bytes
  | [] => .error .truncated
  | b :: rest =>
    match place with
    | .escape =>
      if b == 0x75 then passStringFrom (.digits none []) rest
      else if (escapedByte? b).isSome then passStringFrom .plain rest
      else .error .malformed
    | .digits lead earlier =>
      let all := earlier ++ [Char.ofNat b.toNat]
      if all.length < 4 then passStringFrom (.digits lead all) rest
      else if (hexNumber? all).isSome then passStringFrom .plain rest
      else .error .malformed
    | _ =>
      if b == 0x22 then .ok rest
      else if b == 0x5C then passStringFrom .escape rest
      else if b < 0x20 then .error .malformed
      else passStringFrom .plain rest

/-- Passes over a string whose opening quote has been taken. -/
def passString : Reader Unit := do
  match passStringFrom .plain (← get) with
  | .error fault => throw fault
  | .ok rest => set rest

/-! ## Numbers -/

/-- A number of a JSON text. Only integers of 64 bits are told apart. -/
inductive Number where
  | integer (n : Int)
  | other
  deriving DecidableEq, Repr

/-- Extends `n` by digits as long as it does not exceed `greatest`, and gives the digits that are left. -/
def extend (greatest n : Nat) : Bytes → Nat × Bytes
  | [] => (n, [])
  | d :: rest =>
    let m := 10 * n + (d.toNat - 48)
    if m ≤ greatest then extend greatest m rest else (n, d :: rest)

/-- The number that digits denote. -/
def value (digits : Bytes) : Nat := digits.foldl (fun n d => 10 * n + (d.toNat - 48)) 0

/-- Whether a number with the given leading digits and power of ten is beyond the range of 64-bit binary
    floating point. -/
def isOutOfRange (leading : Nat) (power : Int) : Bool :=
  leading != 0 &&
    (308 < power ||
      (0 ≤ power &&
        Nat.pow 2 1024 - Nat.pow 2 970 ≤ roundTo53Bits leading * roundTo53Bits (Nat.pow 10 power.toNat)))

/-- The greatest exponent that is looked at. -/
def maxExponent : Nat := 2147483647

/-- The digits before the point: a zero, or digits that do not begin with one. -/
def wholeDigits : Reader Bytes := do
  let first ← next
  if !isDigit first then throw .malformed
  if first == 48 then
    if ((← peek?).map isDigit).getD false then throw .malformed
    return [first]
  return first :: (← digits)

/-- At least one digit, where other bytes are a fault and the end of the text is the fault `atEnd`. -/
def someDigits (atEnd : Fault) : Reader Bytes := do
  let found ← digits
  if found.isEmpty then
    match ← peek? with
    | some _ => throw .malformed
    | none => throw atEnd
  return found

/-- Reads a power of ten. One that exceeds what is looked at is a fault at the digit that makes it do so if it
    stands beside `significant` digits and is not negative. -/
def exponent (significant : Bool) : Reader Int := do
  let sign ← oneOf? [0x2B, 0x2D]
  let first ← next
  if !isDigit first then throw .malformed
  let others := (← get).takeWhile isDigit
  let beyond := (extend maxExponent 0 (first :: others)).2
  if significant && sign != some 0x2D && !beyond.isEmpty then
    modify (List.drop (others.length + 1 - beyond.length))
    throw .malformed
  modify (List.drop others.length)
  let n := value (first :: others)
  return if sign == some 0x2D then -(n : Int) else n

/-- Reads a number. -/
def number : Reader Number := do
  let negative := (← oneOf? [0x2D]).isSome
  let whole ← wholeDigits
  let (leading, left) := extend uint64Max 0 whole
  let point ← oneOf? [0x2E]
  let fraction ← if point.isSome then someDigits .truncated else pure []
  let (leading, unread) := extend uint64Max leading fraction
  let mark ← oneOf? [0x65, 0x45]
  let power ← if mark.isSome then exponent (leading != 0) else pure 0
  let n : Int := if negative then -(value whole : Int) else value whole
  if point.isSome || mark.isSome || (negative && n == 0) || n < int64Min || (uint64Max : Int) < n then
    let scale : Int := (left.length : Int) - ((fraction.length - unread.length : Nat) : Int)
    if isOutOfRange leading (power + scale) then throw .malformed
    return .other
  return .integer n

/-- Passes over a number of any size. One that breaks off is malformed. -/
def passNumber : Reader Unit := do
  let _ ← oneOf? [0x2D]
  if (← peek?).isNone then throw .malformed
  let _ ← wholeDigits
  if (← oneOf? [0x2E]).isSome then
    let _ ← someDigits .malformed
  if (← oneOf? [0x65, 0x45]).isSome then
    let _ ← oneOf? [0x2B, 0x2D]
    let _ ← someDigits .malformed

/-! ## Values that are passed over -/

/-- The brackets that enclose a value. -/
inductive Frame where
  | list
  | record
  deriving DecidableEq, Repr

/-- What comes next while a value is passed over. -/
inductive Passing where
  /-- a value within the given brackets, innermost first -/
  | value (frames : List Frame)
  /-- the first item or the end of the innermost brackets -/
  | opened (frame : Frame) (outer : List Frame)
  /-- what follows a value -/
  | closed (frames : List Frame)
  /-- the name of a field and its colon -/
  | name (outer : List Frame)

/-- The place in a value after an item has to come. -/
def Passing.item (frame : Frame) (outer : List Frame) : Passing :=
  match frame with
  | .list => .value (.list :: outer)
  | .record => .name outer

/-- The bracket that closes a frame. -/
def Frame.closing : Frame → UInt8
  | list => 0x5D
  | record => 0x7D

/-- Passes over one token of a value; `none` when the value is complete. -/
def passToken (place : Passing) : Reader (Option Passing) := do
  match place with
  | .closed [] => return none
  | .closed (frame :: outer) =>
    let b ← afterBlanks
    if b == 0x2C then
      skip
      return some (.item frame outer)
    else if b == frame.closing then
      skip
      return some (.closed outer)
    else throw .malformed
  | .opened frame outer =>
    let b ← afterBlanks
    if b == frame.closing then
      skip
      return some (.closed outer)
    else return some (.item frame outer)
  | .name outer =>
    if (← afterBlanks) != 0x22 then throw .malformed
    skip
    passString
    if (← afterBlanks) != 0x3A then throw .malformed
    skip
    return some (.value (.record :: outer))
  | .value frames =>
    let b ← afterBlanks
    if b == 0x2D || isDigit b then
      passNumber
      return some (.closed frames)
    skip
    if b == 0x5B || b == 0x7B then
      return some (.opened (if b == 0x5B then .list else .record) frames)
    if b == 0x22 then passString
    else if b == 0x6E then word "ull"
    else if b == 0x74 then word "rue"
    else if b == 0x66 then word "alse"
    else throw .malformed
    return some (.closed frames)

/-- Passes over at most `bound` tokens. -/
def passTokens : (bound : Nat) → Passing → Reader Unit
  | 0, _ => throw .truncated
  | bound + 1, place => do
    match ← passToken place with
    | none => return
    | some place => passTokens bound place

/-- Passes over a value that keeps the grammar, in a text of which at most `bound` bytes are left. A byte belongs
    to at most two tokens. -/
def passValue (bound : Nat) : Reader Unit := passTokens (2 * bound + 2) (.value [])

/-! ## Brackets -/

/-- Runs a reader; a fault is given as the result. -/
def outcome {α : Type} (read : Reader α) : Reader (Except Fault α) :=
  ExceptT.lift (ExceptT.run read)

/-- Reads what stands within brackets and then their end. After a fault within the brackets the end is read
    as well, and the fault is told then. -/
def within {α : Type} (read : Reader α) (close : Reader Unit) : Reader α := do
  match ← outcome read with
  | .ok value =>
    close
    return value
  | .error fault =>
    let _ ← outcome close
    throw fault

/-- Takes the closing bracket of a list. A comma before it is taken before it is a fault. -/
def endList : Reader Unit := do
  let b ← afterBlanks
  if b == 0x5D then skip
  else
    if b == 0x2C then
      skip
      let _ ← afterBlanks?
    throw .malformed

/-- Takes the closing bracket of an object. -/
def endRecord : Reader Unit := do
  if (← afterBlanks) == 0x7D then skip else throw .malformed

/-- Passes to the next item of a list: whether there is one. The closing bracket stays. -/
def anotherItem (first : Bool) : Reader Bool := do
  let b ← afterBlanks
  if b == 0x5D then return false
  if !first then
    if b != 0x2C then throw .malformed
    skip
    if (← afterBlanks) == 0x5D then throw .malformed
  return true

/-- Passes to the next field of an object: whether there is one. The closing bracket stays. -/
def anotherField (first : Bool) : Reader Bool := do
  let b ← afterBlanks
  if b == 0x7D then return false
  if !first then
    if b != 0x2C then throw .malformed
    skip
    if (← afterBlanks) != 0x22 then throw .malformed
  else if b != 0x22 then throw .malformed
  skip
  return true

/-- Takes a colon. -/
def colon : Reader Unit := do
  if (← afterBlanks) == 0x3A then skip else throw .malformed

/-- Reads at most `bound` items of a list. -/
def items {α : Type} (read : Reader α) : (bound : Nat) → (first : Bool) → Reader (List α)
  | 0, _ => throw .truncated
  | bound + 1, first => do
    if !(← anotherItem first) then return []
    let item ← read
    return item :: (← items read bound false)

/-- Reads the items of a list whose opening bracket has been taken, and its end. -/
def itemsToEnd {α : Type} (read : Reader α) : Reader (List α) := do
  within (items read ((← get).length + 1) true) endList

end Reader

end FileDepot.Json
