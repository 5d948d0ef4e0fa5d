import FileDepot.Text

/-!
# Header values

What may stand in the value of a header, and what of it can be read as text.
-/

namespace FileDepot

/-- The value of a header: any bytes. -/
abbrev HeaderValue := Bytes

namespace HeaderValue

/-- Whether a byte may stand in a header value: all but controls, of which the tab is allowed. -/
def isLegalByte (b : UInt8) : Bool := (32 ≤ b && b != 127) || b == 9

/-- Whether a text may be the value of a header. -/
def isLegal (text : String) : Bool := (Bytes.ofText text).all isLegalByte

/-- Whether a byte of a header value can be read: printable ASCII and the tab. -/
def isReadableByte (b : UInt8) : Bool := (32 ≤ b && b < 127) || b == 9

/-- A header value as text; `none` if it has a byte that cannot be read. -/
def text? (value : HeaderValue) : Option String :=
  if value.all isReadableByte then some (String.ofList (value.map fun b => Char.ofNat b.toNat)) else none

/-- The characters of the names that have a meaning in header values. -/
def isTokenChar (c : Char) : Bool := c.isAlphanum || "!#$%&'*+-.^_|~".toList.contains c || c.toNat == 0x60

end HeaderValue

end FileDepot
