import FileDepot.Bytes

/-!
# Base64

Bytes as text of 64 letters that need no escapes in addresses, without padding. Every byte string has one
text, and a text with other trailing bits than zeros is refused.
-/

namespace FileDepot.Base64

/-- The 64 letters. -/
def alphabet : List Char := "ABCDEFGHIJKLMNOPQRSTUVWXYZabcdefghijklmnopqrstuvwxyz0123456789-_".toList

/-- The letter with the given index. -/
def letter (n : Nat) : Char := alphabet.getD n 'A'

/-- The index of a letter. -/
def index? (c : Char) : Option Nat :=
  if 'A' ≤ c && c ≤ 'Z' then some (c.toNat - 65)
  else if 'a' ≤ c && c ≤ 'z' then some (c.toNat - 71)
  else if '0' ≤ c && c ≤ '9' then some (c.toNat + 4)
  else if c == '-' then some 62
  else if c == '_' then some 63
  else none

/-- The letters for bytes. -/
def encodeChars : Bytes → List Char
  | [] => []
  | [a] =>
    let n := a.toNat * 16
    [letter (n / 64), letter (n % 64)]
  | [a, b] =>
    let n := (a.toNat * 256 + b.toNat) * 4
    [letter (n / 4096), letter (n / 64 % 64), letter (n % 64)]
  | a :: b :: c :: rest =>
    let n := (a.toNat * 256 + b.toNat) * 256 + c.toNat
    letter (n / 262144) :: letter (n / 4096 % 64) :: letter (n / 64 % 64) :: letter (n % 64) ::
      encodeChars rest

/-- The text for bytes. -/
def encode (bytes : Bytes) : String := String.ofList (encodeChars bytes)

/-- The bytes for indices of letters. -/
def decodeIndices : List Nat → Option Bytes
  | [] => some []
  | [_] => none
  | [p, q] =>
    let n := p * 64 + q
    if n % 16 = 0 then some [(n / 16).toUInt8] else none
  | [p, q, r] =>
    let n := (p * 64 + q) * 64 + r
    if n % 4 = 0 then some [(n / 1024).toUInt8, (n / 4 % 256).toUInt8] else none
  | p :: q :: r :: s :: rest =>
    let n := ((p * 64 + q) * 64 + r) * 64 + s
    (decodeIndices rest).map fun bytes =>
      (n / 65536).toUInt8 :: (n / 256 % 256).toUInt8 :: (n % 256).toUInt8 :: bytes

/-- The bytes that a text stands for, if it is the text for some. -/
def decode? (text : String) : Option Bytes := (text.toList.mapM index?).bind decodeIndices

end FileDepot.Base64
