import FileDepot.Proofs.Store.Adjustments
import FileDepot.Proofs.Traffic.Grants
import FileDepot.Proofs.Upload.Ceiling

/-!
# Quotas in words

Quotas and counters are words of 64 bits with a sign, sizes are words of 64 bits without one. What is computed with
the words is what the numbers say that they stand for: a difference that leaves the range is cut off and does not
wrap around, and no word loses its value when it is taken for one without a sign. So what is exhausted, what remains
and what is granted always agree, and a file that was admitted can be counted.
-/

namespace FileDepot

/-- A usage as it is kept in words of 64 bits. -/
structure UsageWords where
  quota : Int64
  spaceUsed : Int64
  deriving DecidableEq

/-- The difference of two words, which stops at the end of the range that it leaves. -/
def saturatingSub (a b : Int64) : Int64 :=
  if BitVec.ssubOverflow a.toBitVec b.toBitVec then if b < 0 then Int64.maxValue else Int64.minValue
  else a - b

namespace UsageWords

/-- The usage that the words stand for. -/
def usage (w : UsageWords) : Usage := ⟨w.quota.toInt, w.spaceUsed.toInt⟩

/-- Whether every upload has to be refused, told by comparing words. -/
def isExhausted (w : UsageWords) : Bool := w.quota != 0 && w.quota ≤ w.spaceUsed

/-- The bytes left, computed on words: a difference below zero counts as zero, and the rest is taken for a word
    without a sign. -/
def remaining (w : UsageWords) : Option UInt64 :=
  if w.quota = 0 then none else some (max (saturatingSub w.quota w.spaceUsed) 0).toUInt64

/-- The most bytes that one upload may have, as a word. -/
def ceiling (w : UsageWords) (maxFileSize : UInt64) : UInt64 :=
  match w.remaining with
  | some left => min left maxFileSize
  | none => maxFileSize

end UsageWords

/-! ## Words and numbers -/

theorem toInt_saturatingSub (a b : Int64) : (saturatingSub a b).toInt = saturate (a.toInt - b.toInt) := by
  have halow := a.le_toInt
  have hahigh := a.toInt_le
  have hblow := b.le_toInt
  have hbhigh := b.toInt_le
  rw [Int64.toInt_maxValue] at hahigh hbhigh
  have hzero : b < 0 ↔ b.toInt < 0 := Int64.lt_iff_toInt_lt
  unfold saturatingSub saturate int64Min int64Max
  split
  · next hover =>
    simp only [BitVec.ssubOverflow, Int64.toInt_toBitVec, Bool.or_eq_true, decide_eq_true_eq] at hover
    split
    · next hneg =>
      rw [hzero] at hneg
      rw [Int64.toInt_maxValue]
      omega
    · next hneg =>
      rw [hzero] at hneg
      rw [Int64.toInt_minValue]
      omega
  · next hfits =>
    have hsub : (a - b).toInt = a.toInt - b.toInt := by
      rw [← Int64.toInt_toBitVec, Int64.toBitVec_sub, BitVec.toInt_sub_of_not_ssubOverflow hfits,
        Int64.toInt_toBitVec, Int64.toInt_toBitVec]
    simp only [BitVec.ssubOverflow, Int64.toInt_toBitVec, Bool.or_eq_true, decide_eq_true_eq] at hfits
    rw [hsub]
    omega

/-- A word that is not negative keeps its value when it loses its sign. -/
theorem toNat_toUInt64_max (a : Int64) : (max a 0).toUInt64.toNat = a.toInt.toNat := by
  have hmax : max a 0 = if a ≤ 0 then 0 else a := rfl
  have hzero : a ≤ 0 ↔ a.toInt ≤ 0 := Int64.le_iff_toInt_le
  rw [hmax]
  split
  · next hle =>
    rw [hzero] at hle
    rw [Int.toNat_of_nonpos hle]
    rfl
  · next hlt =>
    have hpos : 0 ≤ a := by
      rw [hzero] at hlt
      rw [Int64.le_iff_toInt_le]
      exact Int.le_of_lt (Int.lt_of_not_ge hlt)
    exact Int64.toNat_toUInt64_of_le hpos

namespace UsageWords

variable (w : UsageWords)

theorem isExhausted_usage : w.usage.isExhausted = w.isExhausted := by
  have hzero : w.quota.toInt = 0 ↔ w.quota = 0 := Int64.toInt_inj (y := 0)
  have hle : w.quota.toInt ≤ w.spaceUsed.toInt ↔ w.quota ≤ w.spaceUsed := Int64.le_iff_toInt_le.symm
  rw [Bool.eq_iff_iff]
  simp only [Usage.isExhausted, isExhausted, usage, Bool.and_eq_true, bne_iff_ne, ne_eq, decide_eq_true_eq, hzero, hle]

theorem remaining_usage : w.usage.remaining = w.remaining.map UInt64.toNat := by
  have hzero : w.quota.toInt = 0 ↔ w.quota = 0 := Int64.toInt_inj (y := 0)
  by_cases hq : w.quota = 0
  · have hnumber : w.usage.remaining = none := if_pos (hzero.mpr hq)
    have hword : w.remaining = none := if_pos hq
    rw [hnumber, hword]
    rfl
  · have hnumber : w.usage.remaining = some (saturate (w.quota.toInt - w.spaceUsed.toInt)).toNat :=
      if_neg fun h => hq (hzero.mp h)
    have hword : w.remaining = some (max (saturatingSub w.quota w.spaceUsed) 0).toUInt64 := if_neg hq
    rw [hnumber, hword, Option.map_some, toNat_toUInt64_max, toInt_saturatingSub]

theorem ceiling_usage (maxFileSize : UInt64) :
    w.usage.ceiling maxFileSize.toNat = (w.ceiling maxFileSize).toNat := by
  rw [Usage.ceiling, remaining_usage, ceiling]
  cases w.remaining with
  | none => rfl
  | some left => exact (UInt64.toNat_min left maxFileSize).symm

theorem quota_le (w : UsageWords) : w.usage.quota ≤ int64Max := by
  have h := w.quota.toInt_le
  rwa [Int64.toInt_maxValue] at h

end UsageWords

/-! ## What is left -/

namespace Usage

variable {u : Usage} {maxFileSize left : Nat}

/-- Uploads are refused exactly when a quota leaves nothing. -/
theorem isExhausted_iff_remaining : u.isExhausted = true ↔ u.remaining = some 0 := by
  rw [isExhausted_iff]
  unfold remaining saturate int64Min int64Max
  split
  · next hq => simp [hq]
  · next hq =>
    rw [Option.some.injEq]
    omega

/-- An upload that is not refused may have at least one byte. -/
theorem ceiling_pos (h : u.isExhausted = false) (hmax : 1 ≤ maxFileSize) : 1 ≤ u.ceiling maxFileSize := by
  unfold ceiling
  split
  · next left hleft =>
    have hne : left ≠ 0 := by
      rintro rfl
      rw [isExhausted_iff_remaining.mpr hleft] at h
      cases h
    omega
  · exact hmax

theorem remaining_of_nonneg (hq : 0 < u.quota) (hmax : u.quota ≤ int64Max) (hused : 0 ≤ u.spaceUsed) :
    u.remaining = some (max (u.quota - u.spaceUsed) 0).toNat := by
  unfold int64Max at hmax
  have hne : u.quota ≠ 0 := by omega
  rw [remaining, if_neg hne, Option.some.injEq]
  unfold saturate int64Min int64Max
  omega

end Usage

/-! ## Admission and counting -/

namespace Depot

variable {d : Depot} {owner : Int} {u : Usage}

/-- An upload is refused for the quota exactly when nothing remains. -/
theorem uploadCeiling_eq_exceeded_iff (h : d.usage owner = .ok u) (maxFileSize : Nat) :
    d.uploadCeiling owner maxFileSize = .error (.upload .quotaExceeded) ↔ u.remaining = some 0 := by
  rw [← Usage.isExhausted_iff_remaining]
  simp only [uploadCeiling, h]
  split
  · next hfull => exact iff_of_true rfl hfull
  · next hfree => exact iff_of_false (by simp) hfree

/-- Bytes within a grant are counted exactly. -/
theorem adjustSpaceUsed_of_admitted {c n : Nat} {maxFileSize : Nat} (h : d.usage owner = .ok u)
    (hq : 0 < u.quota) (hmax : u.quota ≤ int64Max) (hused : 0 ≤ u.spaceUsed)
    (hc : d.uploadCeiling owner maxFileSize = .ok c) (hn : n ≤ c) :
    (d.db.adjustSpaceUsed owner n).1 = .ok (u.spaceUsed + n) := by
  simp only [uploadCeiling, h] at hc
  split at hc
  · cases hc
  · next hfree =>
    cases hc
    have hgrant := Usage.ceiling_le hq (by simpa using hfree) maxFileSize
    have hlow : int64Min ≤ u.spaceUsed + n := by
      unfold int64Min
      omega
    have hadd : (Counter.exact u.spaceUsed).add n = .exact (u.spaceUsed + n) := by
      rw [Counter.add_of_range hlow (by omega), Int.max_eq_right (by omega)]
    rw [Database.adjustSpaceUsed_eq (usage_eq_ok_iff.mp h).2, hadd]
    rfl

end Depot

namespace UsageWords

/-- Quotas are computed exactly, for all words. Nothing overflows, neither the difference nor the change of its
    type, and so the words say what the numbers say. An owner is out of quota exactly when nothing remains, and any
    other owner is granted at least a byte, never more than a file may have and never more than remains. If quota
    and counter are not negative and there is a quota, what remains is their difference, or nothing, and whatever
    is uploaded within a grant keeps the counter within the quota, so that it can be counted. -/
theorem quotas_are_exact (w : UsageWords) (maxFileSize : UInt64) :
    ((saturatingSub w.quota w.spaceUsed).toInt = saturate (w.usage.quota - w.usage.spaceUsed) ∧
        ((max (saturatingSub w.quota w.spaceUsed) 0).toUInt64.toNat : Int) =
          max (saturate (w.usage.quota - w.usage.spaceUsed)) 0 ∧
        w.usage.isExhausted = w.isExhausted ∧ w.usage.remaining = w.remaining.map UInt64.toNat ∧
        w.usage.ceiling maxFileSize.toNat = (w.ceiling maxFileSize).toNat) ∧
      (w.usage.isExhausted = true ↔ w.usage.remaining = some 0) ∧
      (w.usage.isExhausted = false → 1 ≤ maxFileSize.toNat → 1 ≤ w.usage.ceiling maxFileSize.toNat) ∧
      w.usage.ceiling maxFileSize.toNat ≤ maxFileSize.toNat ∧
      (∀ left, w.usage.remaining = some left → w.usage.ceiling maxFileSize.toNat ≤ left) ∧
      (0 < w.usage.quota → 0 ≤ w.usage.spaceUsed →
        w.usage.remaining = some (max (w.usage.quota - w.usage.spaceUsed) 0).toNat ∧
        (w.usage.isExhausted = false → ∀ n : Nat, n ≤ w.usage.ceiling maxFileSize.toNat →
          w.usage.spaceUsed + n ≤ w.usage.quota ∧ w.usage.quota ≤ int64Max)) ∧
      ∀ (d : Depot) (owner : Int), d.usage owner = .ok w.usage →
        (d.uploadCeiling owner maxFileSize.toNat = .error (.upload .quotaExceeded) ↔
          w.usage.remaining = some 0) ∧
        (0 < w.usage.quota → 0 ≤ w.usage.spaceUsed →
          ∀ c, d.uploadCeiling owner maxFileSize.toNat = .ok c → ∀ n : Nat, n ≤ c →
            (d.db.adjustSpaceUsed owner n).1 = .ok (w.usage.spaceUsed + n)) := by
  refine ⟨⟨toInt_saturatingSub _ _, ?_, w.isExhausted_usage, w.remaining_usage, w.ceiling_usage maxFileSize⟩,
    Usage.isExhausted_iff_remaining, Usage.ceiling_pos, Usage.ceiling_le_max _ _,
    fun left hleft => Usage.ceiling_le_remaining hleft _, ?_, ?_⟩
  · rw [toNat_toUInt64_max, toInt_saturatingSub, Int.ofNat_toNat]
    rfl
  · intro hq hused
    refine ⟨Usage.remaining_of_nonneg hq w.quota_le hused, fun hfree n hn => ?_⟩
    have hgrant := Usage.ceiling_le hq hfree maxFileSize.toNat
    exact ⟨by omega, w.quota_le⟩
  · intro d owner hd
    refine ⟨Depot.uploadCeiling_eq_exceeded_iff hd _, fun hq hused c hc n hn => ?_⟩
    exact Depot.adjustSpaceUsed_of_admitted hd hq w.quota_le hused hc hn

/-- A quota of 1000 bytes of which 900 are used. -/
def nearlyFull : UsageWords := ⟨1000, 900⟩

/-- A depot whose only user has this quota. -/
def nearlyFullDepot : Depot :=
  { Depot.fresh with db := Database.fresh.withUsers ⟨[⟨1, "alice", 1000, .exact 900, "t"⟩], 1⟩ }

/-- Of any size a file may have, 100 bytes are granted and can be counted. -/
theorem quotas_are_exact_of_nearlyFull :
    nearlyFullDepot.usage 1 = .ok nearlyFull.usage ∧ nearlyFull.usage.isExhausted = false ∧
      nearlyFull.usage.remaining = some 100 ∧ 1 ≤ nearlyFull.usage.ceiling uint64Max ∧
      nearlyFullDepot.uploadCeiling 1 uint64Max = .ok 100 ∧
      (nearlyFullDepot.db.adjustSpaceUsed 1 100).1 = .ok 1000 := by
  have husage : nearlyFullDepot.usage 1 = .ok nearlyFull.usage := by rfl
  have hfree : nearlyFull.usage.isExhausted = false := by decide
  have hceiling : nearlyFullDepot.uploadCeiling 1 uint64Max = .ok 100 := by rfl
  obtain ⟨-, -, hpos, -, -, hleft, hdepot⟩ := quotas_are_exact nearlyFull 18446744073709551615
  refine ⟨husage, hfree, (hleft (by decide) (by decide)).1, hpos hfree (by decide), hceiling, ?_⟩
  exact (hdepot nearlyFullDepot 1 husage).2 (by decide) (by decide) 100 hceiling 100 (by decide)

end UsageWords

end FileDepot
