import FileDepot.Text.Percent

/-!
# Database addresses

The path of a database as the settings give it: the path of a file, or an address that begins with `file:` and
may have options, which say how the file is opened. Here it is told what such a path asks for; whether the file
can be opened is another matter.
-/

namespace FileDepot

/-- What a database is opened for. -/
inductive DatabaseAccess where
  /-- to be read -/
  | reading
  /-- to be read and changed -/
  | changing
  /-- to be read, changed, and made if it is missing -/
  | making
  /-- to be kept in memory -/
  | inMemory
  deriving DecidableEq, Repr

namespace DatabaseAccess

/-- The access that an option names. -/
def ofWord? : String → Option DatabaseAccess
  | "ro" => some reading
  | "rw" => some changing
  | "rwc" => some making
  | "memory" => some inMemory
  | _ => none

/-- How much an access allows. -/
def grant : DatabaseAccess → Nat
  | reading => 1
  | changing => 2
  | making => 6
  | inMemory => 128

/-- How much must be allowed for an access to be chosen. -/
def demand : DatabaseAccess → Nat
  | inMemory => 0
  | access => access.grant

/-- The access that an option names, where it may not ask for more than is allowed already. -/
def narrow? (access : DatabaseAccess) (word : String) : Option DatabaseAccess :=
  (ofWord? word).filter fun chosen => chosen.demand ≤ access.grant

end DatabaseAccess

/-- How the users of a database keep out of each other's way. -/
inductive DatabaseLocking where
  /-- by memory that they share -/
  | shared
  /-- there is only one -/
  | exclusive
  /-- without any log of changes beside the database -/
  | plain
  /-- the database is in memory -/
  | inMemory
  deriving DecidableEq, Repr

namespace DatabaseLocking

/-- The locking that an option names. -/
def ofWord? : String → Option DatabaseLocking
  | "unix" => some shared
  | "unix-excl" => some exclusive
  | "unix-none" => some plain
  | "unix-dotfile" => some plain
  | "memdb" => some inMemory
  | _ => none

/-- The endings of the files that lie beside an open database. -/
def companions : DatabaseLocking → List String
  | shared => ["-wal", "-shm"]
  | exclusive => ["-wal"]
  | plain => []
  | inMemory => []

end DatabaseLocking

/-- A file that is to take a new database: its path, whether it must be there, the endings of the files beside
    it, and another file that must be there, as its owner is taken for the new one. -/
structure DatabaseFile where
  path : String
  mustExist : Bool
  companions : List String
  model? : Option String
  deriving DecidableEq, Repr

/-- The path of a database and its options, in the order in which they stand. -/
structure DatabaseAddress where
  path : String
  options : List (String × String)
  deriving DecidableEq, Repr

namespace DatabaseAddress

/-- The bytes that a part of an address stands for. An escaped zero ends the part. -/
def decode : Bytes → Bytes
  | [] => []
  | 0x25 :: a :: b :: rest =>
    match Percent.hexByte? a, Percent.hexByte? b with
    | some high, some low => if high == 0 && low == 0 then [] else (16 * high + low).toUInt8 :: decode rest
    | _, _ => 0x25 :: decode (a :: b :: rest)
  | b :: rest => b :: decode rest

/-- The text that a part of an address stands for. A part that stands for no text is taken as it is. -/
def partText (cs : List Char) : String :=
  let part := String.ofList cs
  (decode (Bytes.ofText part)).text?.getD part

/-- What follows the authority of an address. The authority may be missing, empty or `localhost`. -/
def afterAuthority? : List Char → Option (List Char)
  | '/' :: '/' :: rest =>
    let authority := rest.takeWhile (· != '/')
    if authority.isEmpty || authority == "localhost".toList then some (rest.drop authority.length) else none
  | cs => some cs

/-- The name and the value of an option. -/
def optionOf (cs : List Char) : String × String :=
  let name := cs.takeWhile (· != '=')
  (partText name, partText (cs.drop (name.length + 1)))

/-- Reads the path of a database. A number sign ends an address, a question mark its path; options without a
    name count for nothing. -/
def ofText? (text : String) : Option DatabaseAddress :=
  if text.toList.contains (Char.ofNat 0) then none
  else
    match text.toList with
    | 'f' :: 'i' :: 'l' :: 'e' :: ':' :: rest =>
      (afterAuthority? rest).map fun rest =>
        let rest := rest.takeWhile (· != '#')
        let path := rest.takeWhile (· != '?')
        let options := (Text.splitAtChar '&' (rest.drop (path.length + 1))).map optionOf
        ⟨partText path, options.filter fun option => !option.1.isEmpty⟩
    | _ => some ⟨text, []⟩

/-- The greatest number that counts as one. -/
def maxNumber : Nat := 2147483647

/-- The number that a value begins with, in decimal or after `0x` in hexadecimal digits. One that is too large
    counts as zero. -/
def leadingNumber (cs : List Char) : Nat :=
  let number (base : Nat) (digits : List Char) : Nat :=
    let n := digits.foldl (fun n c => base * n + (Text.hexValue? c).getD 0) 0
    if n ≤ maxNumber then n else 0
  let hexDigits : List Char :=
    match cs with
    | '0' :: x :: rest => if x == 'x' || x == 'X' then rest.takeWhile fun c => (Text.hexValue? c).isSome else []
    | _ => []
  if hexDigits.isEmpty then number 10 (cs.takeWhile Char.isDigit) else number 16 hexDigits

/-- Whether the value of a switch turns it on: a word, or a number that differs from zero in its last byte. -/
def turnsOn (value : String) : Bool :=
  if (value.toList.head?.map Char.isDigit).getD false then leadingNumber value.toList % 256 != 0
  else ["on", "yes", "true"].contains (Text.lowerAscii value)

/-- Whether a switch is turned on. Its first option counts. -/
def isOn (a : DatabaseAddress) (name : String) : Bool := ((a.options.lookup name).map turnsOn).getD false

/-- The values of the options with a name. -/
def valuesOf (a : DatabaseAddress) (name : String) : List String :=
  (a.options.filter (·.1 == name)).map (·.2)

/-- The access that the options ask for, each narrowing the one before. -/
def access? (a : DatabaseAddress) : Option DatabaseAccess :=
  (a.valuesOf "mode").foldlM DatabaseAccess.narrow? .making

/-- The locking that the last option for it asks for. -/
def locking? (a : DatabaseAddress) : Option DatabaseLocking :=
  match (a.valuesOf "vfs").getLast? with
  | none => some .shared
  | some word => DatabaseLocking.ofWord? word

/-- Whether every option for the cache names a kind of cache. -/
def hasKnownCache (a : DatabaseAddress) : Bool :=
  (a.valuesOf "cache").all fun word => word == "shared" || word == "private"

/-- What is to be opened for a new database, if it can be changed at all: the file that takes it, or nothing,
    if it has none. -/
def target? (a : DatabaseAddress) : Option (Option DatabaseFile) := do
  let access ← a.access?
  let locking ← a.locking?
  if !a.hasKnownCache || access == .reading then none
  if access == .inMemory || a.path == "" || a.path == ":memory:" then return none
  if a.isOn "immutable" then none
  if locking == .inMemory then return none
  return some
    ⟨a.path, access == .changing, if a.isOn "nolock" then [] else locking.companions,
      a.options.lookup "modeof"⟩

end DatabaseAddress

end FileDepot
