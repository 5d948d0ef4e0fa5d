/-!
# Byte strings

Contents, request bodies and encoded texts are lists of bytes.
-/

namespace FileDepot

/-- A byte string. -/
abbrev Bytes := List UInt8

namespace Bytes

/-- The UTF-8 encoding of a text. -/
def ofText (text : String) : Bytes := text.toUTF8.data.toList

/-- The text that `bytes` encode in UTF-8, if they encode one. -/
def text? (bytes : Bytes) : Option String := String.fromUTF8? ⟨bytes.toArray⟩

/-- The bytes of an ASCII text. -/
def ofAscii (text : String) : Bytes := text.toList.map fun c => c.toNat.toUInt8

/-- Whether there are fewer than `n` bytes. Only so many are looked at. -/
def isShorter : (n : Nat) → Bytes → Bool
  | 0, _ => false
  | _ + 1, [] => true
  | n + 1, _ :: rest => isShorter n rest

theorem isShorter_iff {n : Nat} {bytes : Bytes} : isShorter n bytes = true ↔ bytes.length < n := by
  induction n generalizing bytes with
  | zero => simp [isShorter]
  | succ n ih => cases bytes <;> simp [isShorter, ih]

/-- Splits `bytes` where `pattern` first occurs, which then starts the second part. -/
def breakOn (pattern bytes : Bytes) : Option (Bytes × Bytes) :=
  scan [] bytes
where
  /-- Looks for the pattern with the bytes already passed, last one first, in `passed`. -/
  scan (passed : Bytes) : Bytes → Option (Bytes × Bytes)
    | [] => if pattern.isEmpty then some (passed.reverse, []) else none
    | b :: rest =>
      if pattern.isPrefixOf (b :: rest) then some (passed.reverse, b :: rest)
      else scan (b :: passed) rest

theorem breakOn_scan_eq {pattern passed bytes before after : Bytes}
    (h : breakOn.scan pattern passed bytes = some (before, after)) :
    before ++ after = passed.reverse ++ bytes ∧ pattern <+: after := by
  induction bytes generalizing passed with
  | nil =>
    simp only [breakOn.scan] at h
    split at h
    · next hp => cases h; simp_all
    · cases h
  | cons b rest ih =>
    simp only [breakOn.scan] at h
    split at h
    · next hp => cases h; exact ⟨rfl, List.isPrefixOf_iff_prefix.1 hp⟩
    · have := ih h
      simpa using this

/-- Nothing is lost by a split, and the second part starts with the pattern. -/
theorem breakOn_eq_some {pattern bytes before after : Bytes}
    (h : breakOn pattern bytes = some (before, after)) :
    before ++ after = bytes ∧ pattern <+: after := by
  simpa using @breakOn_scan_eq pattern [] bytes before after h

/-- Splits `bytes` before the longest tail that could be the beginning of `pattern`. -/
def holdBack (pattern bytes : Bytes) : Bytes × Bytes :=
  scan [] bytes
where
  /-- Looks for such a tail with the bytes already passed, last one first, in `passed`. -/
  scan (passed : Bytes) : Bytes → Bytes × Bytes
    | [] => (passed.reverse, [])
    | b :: rest =>
      if (b :: rest).isPrefixOf pattern then (passed.reverse, b :: rest)
      else scan (b :: passed) rest

theorem holdBack_scan_append (pattern passed bytes : Bytes) :
    (holdBack.scan pattern passed bytes).1 ++ (holdBack.scan pattern passed bytes).2 =
      passed.reverse ++ bytes := by
  induction bytes generalizing passed with
  | nil => simp [holdBack.scan]
  | cons b rest ih =>
    simp only [holdBack.scan]
    split
    · simp
    · simpa using ih (b :: passed)

/-- Nothing is lost by holding a tail back. -/
theorem holdBack_append (pattern bytes : Bytes) :
    (holdBack pattern bytes).1 ++ (holdBack pattern bytes).2 = bytes := by
  simpa [holdBack] using holdBack_scan_append pattern [] bytes

/-- The small letter of an ASCII capital; every other byte is left alone. -/
def lowerAscii (b : UInt8) : UInt8 := if 65 ≤ b && b ≤ 90 then b + 32 else b

end Bytes

end FileDepot
