import FileDepot.Number
import FileDepot.Text

/-!
# TOML scalars

Readers for the texts, numbers, dates and names of a TOML document. A reader takes characters from the front
of the document, or fails.
-/

namespace FileDepot.Toml

/-- A computation on the rest of a document. -/
abbrev Reader (α : Type) := StateT (List Char) Option α

namespace Reader

/-! ## Characters -/

/-- The next character, which stays in place. -/
def peek? : Reader (Option Char) := do return (← get).head?

/-- Takes the next character. -/
def next : Reader Char := do
  match ← get with
  | [] => failure
  | c :: rest =>
    set rest
    return c

/-- Takes the given character if it comes next. -/
def take? (c : Char) : Reader Bool := do
  if (← peek?) == some c then
    modify (List.drop 1)
    return true
  else return false

/-- Takes the given character. -/
def expect (c : Char) : Reader Unit := do
  if !(← take? c) then failure

/-- Takes the given characters. -/
def word (s : String) : Reader Unit := s.toList.forM expect

/-- Takes one of the given characters if it comes next. -/
def oneOf? (cs : List Char) : Reader (Option Char) := do
  match ← peek? with
  | some c =>
    if cs.contains c then
      modify (List.drop 1)
      return some c
    else return none
  | none => return none

/-- Takes the characters of a class. -/
def takeWhile (p : Char → Bool) : Reader (List Char) := do
  let found := (← get).takeWhile p
  modify (List.drop found.length)
  return found

/-- What `read` reads; if it fails, nothing is taken. -/
def attempt {α : Type} (read : Reader α) : Reader (Option α) := fun s =>
  match read s with
  | some (a, rest) => some (some a, rest)
  | none => some (none, s)

/-- What the first of the readers reads that does not fail. -/
def firstOf {α : Type} : List (Reader α) → Reader α
  | [] => failure
  | read :: others => do
    match ← attempt read with
    | some a => return a
    | none => firstOf others

/-- Space and tab. -/
def isBlank (c : Char) : Bool := c == ' ' || c == '\t'

/-- Takes spaces and tabs. -/
def blanks : Reader Unit := do
  let _ ← takeWhile isBlank

/-- Whether a character may stand in a comment or a text: all but controls, of which the tab is allowed. -/
def isPlain (c : Char) : Bool := c == '\t' || (0x20 ≤ c.toNat && c.toNat != 0x7F)

/-- Takes a line end. -/
def newline : Reader Unit := do
  let _ ← take? '\r'
  expect '\n'

/-- Takes a comment if one comes next, up to the end of the line. -/
def comment : Reader Unit := do
  if ← take? '#' then
    let _ ← takeWhile isPlain

/-- Takes the rest of a line, which may have a comment. -/
def lineEnd : Reader Unit := do
  blanks
  comment
  if (← peek?).isSome then newline

/-! ## Texts -/

/-- Takes exactly `count` hexadecimal digits: the number they denote. -/
def hexNumber : (count : Nat) → (value : Nat) → Reader Nat
  | 0, value => return value
  | count + 1, value => do
    match Text.hexValue? (← next) with
    | some digit => hexNumber count (16 * value + digit)
    | none => failure

/-- Takes `count` hexadecimal digits that denote a character. -/
def hexChar (count : Nat) : Reader Char := do
  let n ← hexNumber count 0
  if n.isValidChar then return Char.ofNat n else failure

/-- Takes what follows the backslash of an escape. -/
def escape : Reader Char := do
  match ← next with
  | '"' => return '"'
  | '\\' => return '\\'
  | 'b' => return Char.ofNat 8
  | 't' => return '\t'
  | 'n' => return '\n'
  | 'f' => return Char.ofNat 12
  | 'r' => return '\r'
  | 'u' => hexChar 4
  | 'U' => hexChar 8
  | _ => failure

/-- Takes the rest of a text in double quotes on one line; `found` are its characters so far, last one
    first. -/
def basicFrom : (bound : Nat) → (found : List Char) → Reader String
  | 0, _ => failure
  | bound + 1, found => do
    let c ← next
    if c == '"' then return String.ofList found.reverse
    else if c == '\\' then basicFrom bound ((← escape) :: found)
    else if isPlain c then basicFrom bound (c :: found)
    else failure

/-- The single quote. -/
def singleQuote : Char := Char.ofNat 39

/-- Takes the rest of a text in single quotes on one line. -/
def literal : Reader String := do
  let found ← takeWhile fun c => isPlain c && c != singleQuote
  expect singleQuote
  return String.ofList found

/-- Takes a line end after a backslash, and the white space that follows. -/
def continuation : Reader Unit := do
  blanks
  newline
  skipBlankLines
where
  /-- Takes white space and line ends. -/
  skipBlankLines : Reader Unit := do
    let rest ← get
    let kept := skip rest
    set kept
  /-- The characters after white space and line ends. -/
  skip : List Char → List Char
    | '\r' :: '\n' :: rest => skip rest
    | c :: rest => if isBlank c || c == '\n' then skip rest else c :: rest
    | [] => []

/-- Takes the rest of a text over several lines, which three quotes end. One or two quotes belong to the text,
    also before the end. A line end is one character, and an escaped one is none. -/
def multilineFrom (quote : Char) (hasEscapes : Bool) :
    (bound : Nat) → (found : List Char) → Reader String
  | 0, _ => failure
  | bound + 1, found => do
    let quotes := (← takeWhile (· == quote)).length
    if 5 < quotes then failure
    else if 3 ≤ quotes then
      return String.ofList (List.replicate (quotes - 3) quote ++ found).reverse
    else
      let found := List.replicate quotes quote ++ found
      match ← peek? with
      | none => failure
      | some c =>
        if c == '\r' || c == '\n' then
          newline
          multilineFrom quote hasEscapes bound ('\n' :: found)
        else if c == '\\' && hasEscapes then
          expect '\\'
          match ← attempt continuation with
          | some () => multilineFrom quote hasEscapes bound found
          | none => multilineFrom quote hasEscapes bound ((← escape) :: found)
        else if isPlain c then
          multilineFrom quote hasEscapes bound ((← next) :: found)
        else failure

/-- Takes the rest of a text over several lines, whose first line end does not count. -/
def multiline (quote : Char) (hasEscapes : Bool) : Reader String := do
  let _ ← attempt newline
  multilineFrom quote hasEscapes ((← get).length + 1) []

/-- Takes a text on one line. -/
def lineText : Reader String := do
  if ← take? '"' then basicFrom ((← get).length + 1) []
  else
    expect singleQuote
    literal

/-- Takes a text. -/
def text : Reader String := do
  if (← attempt (word "\"\"\"")).isSome then multiline '"' true
  else if (← attempt (word "'''")).isSome then multiline singleQuote false
  else lineText

/-! ## Names -/

/-- Whether a character may stand in a name without quotes. -/
def isNameChar (c : Char) : Bool := c.isAlphanum || c == '_' || c == '-'

/-- Takes a name. -/
def simpleName : Reader String := do
  let c ← peek?
  if c == some '"' || c == some singleQuote then lineText
  else
    let found ← takeWhile isNameChar
    if found.isEmpty then failure else return String.ofList found

/-- The greatest number of names in a path, or of brackets around a value, is below this. -/
def depthLimit : Nat := 80

/-- Takes at most `bound` names with dots between them. -/
def names : (bound : Nat) → Reader (List String)
  | 0 => failure
  | bound + 1 => do
    blanks
    let name ← simpleName
    blanks
    if ← take? '.' then return name :: (← names bound) else return [name]

/-- Takes a path of names: the names on the way, and the last one. -/
def path : Reader (List String) := names (depthLimit - 1)

/-! ## Numbers -/

/-- Takes digits of a class, which may have single underscores between them. -/
def digitsFrom (isDigit : Char → Bool) : (bound : Nat) → Reader (List Char)
  | 0 => failure
  | bound + 1 => do
    let found ← takeWhile isDigit
    if found.isEmpty then failure
    if ← take? '_' then return found ++ (← digitsFrom isDigit bound) else return found

/-- Takes digits of a class, which may have single underscores between them. -/
def digits (isDigit : Char → Bool) : Reader (List Char) := do
  digitsFrom isDigit (((← get).takeWhile fun c => isDigit c || c == '_').length + 1)

/-- Takes a sign if one comes next: whether it is a minus. -/
def sign : Reader Bool := do return (← oneOf? ['+', '-']) == some '-'

/-- Takes decimal digits, of which the first is no zero unless it is the only one. -/
def wholeDigits : Reader (List Char) := do
  if ← take? '0' then return ['0']
  digits Char.isDigit

/-- The number that digits denote. -/
def value (base : Nat) (digits : List Char) : Nat :=
  digits.foldl (fun n c => base * n + (Text.hexValue? c).getD 0) 0

/-- Whether a positive number of the given digits and power of ten is beyond the range of 64-bit binary
    floating point. -/
def isInfinite (digits : List Char) (power : Int) : Bool :=
  let n := value 10 digits
  let size : Int := digits.length + power
  if n == 0 || size < 300 then false
  else if (digits.length : Int) + 400 < size then true
  else Nat.pow 2 1024 - Nat.pow 2 970 ≤ n * Nat.pow 10 power.toNat / Nat.pow 10 (-power).toNat

/-- Takes a number with a fraction or an exponent. It may not be too great; it may be too small. -/
def decimal : Reader Unit := do
  let negative ← sign
  let whole ← wholeDigits
  let fraction ← if ← take? '.' then digits Char.isDigit else pure []
  let exponent ← if (← oneOf? ['e', 'E']).isSome then
      let down ← sign
      let found ← digits Char.isDigit
      pure (some (if down then -(value 10 found : Int) else value 10 found))
    else pure none
  if fraction.isEmpty && exponent.isNone then failure
  if !negative && isInfinite (whole ++ fraction) (exponent.getD 0 - fraction.length) then failure

/-- Takes infinity or the number that is none. -/
def specialReal : Reader Unit := do
  let _ ← sign
  if (← attempt (word "inf")).isNone then word "nan"

/-- Takes an integer of 64 bits. -/
def integer : Reader Int := do
  let radix (mark : String) (base : Nat) (isDigit : Char → Bool) : Reader Int := do
    word mark
    return value base (← digits isDigit)
  let signed : Reader Int := do
    let negative ← sign
    let n := value 10 (← wholeDigits)
    return if negative then -(n : Int) else n
  let n ← firstOf [radix "0x" 16 fun c => (Text.hexValue? c).isSome,
    radix "0o" 8 fun c => '0' ≤ c && c ≤ '7', radix "0b" 2 fun c => c == '0' || c == '1', signed]
  if int64Min ≤ n && n ≤ int64Max then return n else failure

/-! ## Dates -/

/-- Takes a number of exactly `count` digits within bounds. -/
def part (count least greatest : Nat) : Reader Nat := do
  let found := (← get).take count
  if found.length < count || !found.all Char.isDigit then failure
  modify (List.drop count)
  let n := value 10 found
  if least ≤ n && n ≤ greatest then return n else failure

/-- The number of days of a month. -/
def daysOfMonth (year month : Nat) : Nat :=
  if month == 2 then
    if year % 4 == 0 && (year % 100 != 0 || year % 400 == 0) then 29 else 28
  else if month == 4 || month == 6 || month == 9 || month == 11 then 30
  else 31

/-- Takes a day. -/
def day : Reader Unit := do
  let year ← part 4 0 9999
  expect '-'
  let month ← part 2 1 12
  expect '-'
  let _ ← part 2 1 (daysOfMonth year month)

/-- Takes a time of day, which may have fractions of seconds. -/
def time : Reader Unit := do
  let _ ← part 2 0 23
  expect ':'
  let _ ← part 2 0 59
  expect ':'
  let _ ← part 2 0 60
  let _ ← attempt do
    expect '.'
    if (← takeWhile Char.isDigit).isEmpty then failure

/-- Takes the distance of a time zone. -/
def zone : Reader Unit := do
  if (← oneOf? ['Z', 'z']).isNone then
    if (← oneOf? ['+', '-']).isNone then failure
    let _ ← part 2 0 23
    expect ':'
    let _ ← part 2 0 59

/-- Takes a day, a time, or both. -/
def date : Reader Unit := do
  if (← attempt day).isSome then
    let _ ← attempt do
      if (← oneOf? ['T', 't', ' ']).isNone then failure
      time
      let _ ← attempt zone
  else time

end Reader

end FileDepot.Toml
