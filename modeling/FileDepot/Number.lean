/-!
# Numbers

The ranges of 64-bit numbers, cutting off at their ends, and rounding to 53 significant bits.
-/

namespace FileDepot

/-- The least 64-bit signed number. -/
def int64Min : Int := -9223372036854775808

/-- The greatest 64-bit signed number. -/
def int64Max : Int := 9223372036854775807

/-- The greatest 64-bit unsigned number. -/
def uint64Max : Nat := 18446744073709551615

/-- The number nearest to `n` among the 64-bit signed ones. -/
def saturate (n : Int) : Int := max int64Min (min int64Max n)

/-- The nearest number with at most 53 significant bits; of two equally near ones the even one. -/
def roundTo53Bits (n : Nat) : Nat :=
  if n < Nat.pow 2 53 then n
  else
    let unit := Nat.pow 2 (n.log2 - 52)
    let whole := n / unit
    let rest := n % unit
    if 2 * rest > unit || (2 * rest == unit && whole % 2 == 1) then (whole + 1) * unit
    else whole * unit

/-- The nearest number with at most 53 significant bits, for either sign. -/
def nearest53 (n : Int) : Int := if n < 0 then -(roundTo53Bits n.natAbs) else roundTo53Bits n.natAbs

end FileDepot
