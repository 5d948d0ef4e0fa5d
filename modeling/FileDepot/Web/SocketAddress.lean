import FileDepot.Error

/-!
# Socket addresses

Where the web interface listens: an address of four numbers, or one of eight groups in brackets, and a port.
An address is read from any of its spellings and written in one.
-/

namespace FileDepot

/-- The four numbers of a short address. -/
structure Quad where
  a : Nat
  b : Nat
  c : Nat
  d : Nat
  deriving DecidableEq, Repr

/-- An address with a port. A long address has eight groups of 16 bits and a scope, 0 for none. -/
inductive SocketAddress where
  | short (quad : Quad) (port : Nat)
  | long (groups : List Nat) (scope port : Nat)
  deriving DecidableEq, Repr

namespace SocketAddress

/-! ### Reading -/

/-- A computation on the rest of a text. -/
abbrev Reader (α : Type) := StateT (List Char) Option α

/-- Takes the given character. -/
def expect (c : Char) : Reader Unit := do
  match ← get with
  | d :: rest => if c == d then set rest else failure
  | [] => failure

/-- What `read` reads; if it fails, nothing is taken. -/
def attempt {α : Type} (read : Reader α) : Reader (Option α) := fun s =>
  match read s with
  | some (a, rest) => some (some a, rest)
  | none => some (none, s)

/-- Takes a number up to a greatest one, with a limited number of digits or any. -/
def number (base greatest : Nat) (maxDigits : Option Nat) (mayBeginWithZero : Bool) : Reader Nat := do
  let isDigit (c : Char) : Bool := match Text.hexValue? c with
    | some digit => digit < base
    | none => false
  let digits := (← get).takeWhile isDigit
  modify (List.drop digits.length)
  if digits.isEmpty then failure
  if maxDigits.any fun count => count < digits.length then failure
  if !mayBeginWithZero && digits.head? == some '0' && 1 < digits.length then failure
  let n := digits.foldl (fun n c => base * n + (Text.hexValue? c).getD 0) 0
  if n ≤ greatest then return n else failure

/-- Takes four numbers with dots between them. -/
def quad : Reader Quad := do
  let part : Reader Nat := number 10 255 (some 3) false
  let a ← part
  expect '.'
  let b ← part
  expect '.'
  let c ← part
  expect '.'
  return ⟨a, b, c, ← part⟩

/-- Takes what `read` reads after a colon, which is missing before the first group. -/
def separated {α : Type} (isFirst : Bool) (read : Reader α) : Reader α := do
  if !isFirst then expect ':'
  read

/-- The two groups of a short address. -/
def Quad.groups (q : Quad) : List Nat := [q.a * 256 + q.b, q.c * 256 + q.d]

/-- Takes at most `room` groups with colons between them: the groups, and whether a short address ends
    them, which stands for two. -/
def groupsFrom : (room : Nat) → (isFirst : Bool) → Reader (List Nat × Bool)
  | 0, _ => return ([], false)
  | room + 1, isFirst => do
    match ← if room = 0 then pure none else attempt (separated isFirst quad) with
    | some q => return (Quad.groups q, true)
    | none =>
      match ← attempt (separated isFirst (number 16 65535 (some 4) true)) with
      | none => return ([], false)
      | some group =>
        let (others, endsShort) ← groupsFrom room false
        return (group :: others, endsShort)

/-- Takes the eight groups of a long address. Two colons stand for at least one group of zero. -/
def eightGroups : Reader (List Nat) := do
  let (front, endsShort) ← groupsFrom 8 true
  if front.length = 8 then return front
  if endsShort then failure
  expect ':'
  expect ':'
  let (back, _) ← groupsFrom (7 - front.length) true
  return front ++ List.replicate (8 - front.length - back.length) 0 ++ back

/-- Takes the port. -/
def portNumber : Reader Nat := do
  expect ':'
  number 10 65535 none true

/-- Takes a short address with a port. -/
def readShort : Reader SocketAddress := do
  let q ← quad
  return .short q (← portNumber)

/-- Takes a long address with a port. -/
def readLong : Reader SocketAddress := do
  expect '['
  let groups ← eightGroups
  let scope ← attempt do
    expect '%'
    number 10 4294967295 none true
  expect ']'
  return .long groups (scope.getD 0) (← portNumber)

/-- The address that a text denotes, if it denotes one. -/
def ofText? (text : String) : Option SocketAddress := do
  let (address, rest) ← ((do
    match ← attempt readShort with
    | some address => return address
    | none => readLong) : Reader SocketAddress).run text.toList
  if rest.isEmpty then return address else none

/-! ### Writing -/

/-- Four numbers with dots between them. -/
def Quad.text (q : Quad) : String :=
  String.intercalate "." [toString q.a, toString q.b, toString q.c, toString q.d]

/-- A group in hexadecimal. -/
def groupText (n : Nat) : String := String.ofList (Nat.toDigits 16 n)

/-- The length of the run of zeros that a list begins with. -/
def zerosAhead (groups : List Nat) : Nat := (groups.takeWhile (· == 0)).length

/-- Where the longest run of zeros begins, the first of several, and its length. -/
def longestZeros (groups : List Nat) : Nat × Nat :=
  (List.range groups.length).foldl (fun best n =>
    let length := zerosAhead (groups.drop n)
    if best.2 < length then (n, length) else best) (0, 0)

/-- Groups with colons between them. -/
def joined (groups : List Nat) : String := String.intercalate ":" (groups.map groupText)

/-- A long address: the longest run of at least two zeros is left out. The address that stands for a short
    one shows it. -/
def groupsText (groups : List Nat) : String :=
  match groups with
  | [0, 0, 0, 0, 0, 0xFFFF, high, low] =>
    "::ffff:" ++ Quad.text ⟨high / 256, high % 256, low / 256, low % 256⟩
  | groups =>
    let (start, length) := longestZeros groups
    if length < 2 then joined groups
    else joined (groups.take start) ++ "::" ++ joined (groups.drop (start + length))

/-- The text of an address. -/
def text : SocketAddress → String
  | short quad port => Quad.text quad ++ ":" ++ toString port
  | long groups scope port =>
    "[" ++ groupsText groups ++ (if scope = 0 then "" else "%" ++ toString scope) ++ "]:" ++ toString port

/-- The address at which a host and a port are served (`WebServer::new`). -/
def ofHost (host : String) (port : Nat) : Outcome SocketAddress :=
  let name := host ++ ":" ++ toString port
  match ofText? name with
  | some address => .ok address
  | none => .error (.config ("invalid web server address " ++ name ++ ": invalid socket address syntax"))

end SocketAddress

end FileDepot
