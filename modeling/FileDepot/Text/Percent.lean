import FileDepot.Text

/-!
# Percent encoding

Bytes written as a percent sign and two hexadecimal digits.
-/

namespace FileDepot.Percent

/-- The value of a byte that is a hexadecimal digit. -/
def hexByte? (b : UInt8) : Option Nat := Text.hexValue? (Char.ofNat b.toNat)

/-- The bytes that an encoded text stands for. A percent sign that starts no escape stands for itself. -/
def decode : Bytes → Bytes
  | [] => []
  | 0x25 :: a :: b :: rest =>
    match hexByte? a, hexByte? b with
    | some high, some low => (16 * high + low).toUInt8 :: decode rest
    | _, _ => 0x25 :: decode (a :: b :: rest)
  | b :: rest => b :: decode rest

/-- Whether a byte stands for itself: letters, digits, and four signs. -/
def isPlain (b : UInt8) : Bool :=
  (48 ≤ b && b ≤ 57) || (65 ≤ b && b ≤ 90) || (97 ≤ b && b ≤ 122) ||
    b == 0x2D || b == 0x2E || b == 0x5F || b == 0x7E

/-- A byte as it is written. -/
def encodeByte (b : UInt8) : List Char :=
  if isPlain b then [Char.ofNat b.toNat] else '%' :: Text.hexPair "0123456789ABCDEF" b

/-- A text in which every byte that does not stand for itself is escaped. -/
def encode (text : String) : String := String.ofList ((Bytes.ofText text).flatMap encodeByte)

end FileDepot.Percent
