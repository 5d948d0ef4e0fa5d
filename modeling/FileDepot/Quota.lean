import FileDepot.Number

/-!
# Quotas

The quota of a user, the bytes counted against it, and what follows for the next upload. Quotas and
counters are 64-bit signed numbers; a difference that leaves that range is cut off at its end.
-/

namespace FileDepot

/-- The quota of a user in bytes (0 for none) and the bytes used (`UserUsage`). -/
structure Usage where
  quota : Int
  spaceUsed : Int
  deriving DecidableEq, Repr

namespace Usage

/-- Whether every upload has to be refused (`UserUsage::is_exhausted`). -/
def isExhausted (u : Usage) : Bool := u.quota != 0 && u.quota ≤ u.spaceUsed

/-- The bytes left, or `none` without a quota (`UserUsage::remaining`). -/
def remaining (u : Usage) : Option Nat :=
  if u.quota = 0 then none else some (saturate (u.quota - u.spaceUsed)).toNat

/-- The most bytes that one upload may have, where no file may have more than `maxFileSize`
    (`UserUsage::upload_ceiling`). -/
def ceiling (u : Usage) (maxFileSize : Nat) : Nat :=
  match u.remaining with
  | some left => min left maxFileSize
  | none => maxFileSize

end Usage

end FileDepot
