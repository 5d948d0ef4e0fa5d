import FileDepot.Bytes

/-!
# Part headers

The header block of a part of a multipart body, and the attributes of its `Content-Disposition`.
-/

namespace FileDepot.Multipart

/-- One header line. -/
structure Header where
  name : Bytes
  value : Bytes
  deriving DecidableEq, Repr

namespace Header

/-- The greatest number of headers in a block. -/
def maxCount : Nat := 32

/-- The greatest length of a header name in bytes. -/
def maxNameLength : Nat := 65535

/-- The bytes that a header name consists of. -/
def isNameByte (b : UInt8) : Bool :=
  (48 ≤ b && b ≤ 57) || (65 ≤ b && b ≤ 90) || (97 ≤ b && b ≤ 122) ||
    (Bytes.ofAscii "!#$%&'*+-.^_`|~").contains b

/-- The bytes that a header value consists of. -/
def isValueByte (b : UInt8) : Bool := b == 0x09 || (0x20 ≤ b && b != 0x7F)

/-- Space and tab. -/
def isPadding (b : UInt8) : Bool := b == 0x20 || b == 0x09

/-- What follows a line end at the start of `bytes`: a line feed, alone or after a carriage return. -/
def afterLineEnd : Bytes → Option Bytes
  | 0x0A :: rest => some rest
  | 0x0D :: 0x0A :: rest => some rest
  | _ => none

/-- Reads the header line at the start of `bytes`. -/
def readLine (bytes : Bytes) : Option (Header × Bytes) :=
  let name := bytes.takeWhile isNameByte
  match bytes.drop name.length with
  | 0x3A :: rest =>
    let rest := rest.dropWhile isPadding
    let value := rest.takeWhile isValueByte
    if name.isEmpty then none
    else
      (afterLineEnd (rest.drop value.length)).map fun rest =>
        (⟨name, (value.reverse.dropWhile isPadding).reverse⟩, rest)
  | _ => none

/-- Reads at most `count` header lines up to an empty one. What follows the empty line is not looked at. -/
def readBlock : (count : Nat) → Bytes → Option (List Header)
  | count, bytes =>
    match afterLineEnd bytes with
    | some _ => some []
    | none =>
      match count with
      | 0 => none
      | count + 1 =>
        match readLine bytes with
        | none => none
        | some (header, rest) => (readBlock count rest).map (header :: ·)

/-- The value of the last header with the given name, which is matched in any ASCII case. -/
def find? (headers : List Header) (name : String) : Option Bytes :=
  ((headers.filter fun h => h.name.map Bytes.lowerAscii == Bytes.ofAscii name).getLast?).map (·.value)

end Header

namespace Disposition

/-- The ASCII white space. -/
def isSpace (b : UInt8) : Bool := b == 0x20 || b == 0x09 || b == 0x0A || b == 0x0C || b == 0x0D

/-- What follows the first occurrence of `key` that comes after white space or a semicolon. An occurrence
    elsewhere is passed over, and one that directly follows it counts. -/
def afterKey (key : Bytes) (fresh : Bool) (bytes : Bytes) : Option Bytes :=
  match bytes with
  | [] => none
  | b :: rest =>
    if key.isPrefixOf (b :: rest) then
      if fresh then some (rest.drop (key.length - 1))
      else afterKey key true (rest.drop (key.length - 1))
    else afterKey key (isSpace b || b == 0x3B) rest
termination_by bytes.length
decreasing_by all_goals simp only [List.length_cons, List.length_drop]; omega

/-- The rest of a quoted text, whose opening quote has been read. A backslash before a quote keeps the quote
    in the text; every other backslash stands for itself. -/
def readQuoted : Bytes → Option Bytes
  | [] => none
  | 0x22 :: _ => some []
  | 0x5C :: 0x22 :: rest => (readQuoted rest).map (0x22 :: ·)
  | b :: rest => (readQuoted rest).map (b :: ·)

/-- The value of an attribute, which is quoted or ends at a semicolon or a space. -/
def attribute? (key : String) (value : Bytes) : Option String :=
  match afterKey (Bytes.ofAscii key) true value with
  | none => none
  | some rest =>
    match rest.dropWhile isSpace with
    | 0x3D :: rest =>
      match rest.dropWhile isSpace with
      | 0x22 :: rest => (readQuoted rest).bind Bytes.text?
      | rest => Bytes.text? (rest.takeWhile fun b => b != 0x3B && b != 0x20)
    | _ => none

end Disposition

end FileDepot.Multipart
