import FileDepot.Depot
import FileDepot.Proofs.Store.Calls
import FileDepot.Proofs.Store.Counters

/-!
# Adjustments of counters

What a call that adds to the counter of a user stores and answers, for every counter that calls on a new database
can make and for every 64-bit number that is added. A sum within the 64-bit numbers is stored, cut off at zero.
A sum beyond them is stored too, but as a number that nobody can read.
-/

namespace FileDepot

/-! ## Rounding -/

section Rounding

variable {n m r k : Nat}

/-- Rounding goes down to a multiple of the unit or up to the next, whichever is not farther away. -/
theorem roundTo53Bits_cases (hn : 2 ^ 53 ≤ n) :
    (2 * (n % 2 ^ (n.log2 - 52)) ≤ 2 ^ (n.log2 - 52) ∧
        roundTo53Bits n = n / 2 ^ (n.log2 - 52) * 2 ^ (n.log2 - 52)) ∨
      roundTo53Bits n = (n / 2 ^ (n.log2 - 52) + 1) * 2 ^ (n.log2 - 52) := by
  have hlarge : ¬ n < Nat.pow 2 53 := Nat.not_lt.mpr hn
  rw [roundTo53Bits, if_neg hlarge]
  simp only [Nat.pow_eq]
  split
  · exact Or.inr rfl
  · next hdown =>
    simp only [Bool.or_eq_true, decide_eq_true_eq, not_or] at hdown
    exact Or.inl ⟨Nat.le_of_not_lt hdown.1, rfl⟩

/-- No number is rounded past a multiple of the unit. -/
theorem le_roundTo53Bits (hr : 2 ^ (n.log2 - 52) ∣ r) (hle : r ≤ n) : r ≤ roundTo53Bits n := by
  by_cases hsmall : n < 2 ^ 53
  · have hsame : roundTo53Bits n = n := if_pos hsmall
    rwa [hsame]
  · have hdown : r ≤ n / 2 ^ (n.log2 - 52) * 2 ^ (n.log2 - 52) := by
      obtain ⟨q, rfl⟩ := hr
      rw [Nat.mul_comm] at hle ⊢
      exact Nat.mul_le_mul_right _ ((Nat.le_div_iff_mul_le (Nat.two_pow_pos _)).mpr hle)
    rcases roundTo53Bits_cases (Nat.le_of_not_lt hsmall) with ⟨-, heq⟩ | heq
    · rwa [heq]
    · rw [heq]
      exact Nat.le_trans hdown (Nat.mul_le_mul_right _ (Nat.le_succ _))

theorem log2_lt_of_lt (hn : n < 2 ^ (53 + k)) : n.log2 < 53 + k := by
  by_cases hzero : n = 0
  · subst hzero
    exact Nat.lt_of_lt_of_le (by decide) (Nat.le_add_right 53 k)
  · exact (Nat.log2_lt hzero).mpr hn

/-- A multiple of a power of two that has no more than 53 bits above it needs no rounding. -/
theorem le_roundTo53Bits_of_lt (hn : n < 2 ^ (53 + k)) (hr : 2 ^ k ∣ r) (hle : r ≤ n) :
    r ≤ roundTo53Bits n := by
  have hlog := log2_lt_of_lt hn
  exact le_roundTo53Bits ((Nat.pow_dvd_pow 2 (by omega)).trans hr) hle

/-- From `2 ^ 63` on rounding never comes to less. -/
theorem le_roundTo53Bits_of_ge (hn : 2 ^ 63 ≤ n) : 2 ^ 63 ≤ roundTo53Bits n := by
  have hpos : n ≠ 0 := by omega
  have hlog : 63 ≤ n.log2 := (Nat.le_log2 hpos).mpr hn
  have hpower : 2 ^ n.log2 ≤ roundTo53Bits n :=
    le_roundTo53Bits (Nat.pow_dvd_pow 2 (Nat.sub_le _ _)) (Nat.log2_self_le hpos)
  exact Nat.le_trans (Nat.pow_le_pow_right (by decide) hlog) hpower

theorem log2_of_upper_half (hlow : 2 ^ 62 ≤ n) (hhigh : n < 2 ^ 63) : n.log2 = 62 := by
  have hpos : n ≠ 0 := by omega
  exact (Nat.log2_eq_iff hpos).mpr ⟨hlow, hhigh⟩

/-- The greatest 64-bit numbers are rounded to multiples of 1024. -/
theorem roundTo53Bits_near (hlow : 2 ^ 62 ≤ n) (hhigh : n < 2 ^ 63) :
    2 ^ 10 ∣ roundTo53Bits n ∧ n ≤ roundTo53Bits n + 512 := by
  have hlog := log2_of_upper_half hlow hhigh
  rcases roundTo53Bits_cases (Nat.le_trans (by decide) hlow) with ⟨hnear, heq⟩ | heq
  · rw [hlog] at hnear heq
    rw [heq]
    exact ⟨Nat.dvd_mul_left _ _, by omega⟩
  · rw [hlog] at heq
    rw [heq]
    exact ⟨Nat.dvd_mul_left _ _, by omega⟩

/-- Half a unit below `2 ^ 63` is enough for rounding to come to it. -/
theorem roundTo53Bits_of_near_top (hn : 2 ^ 63 - 512 ≤ n) : 2 ^ 63 ≤ roundTo53Bits n := by
  by_cases hlarge : 2 ^ 63 ≤ n
  · exact le_roundTo53Bits_of_ge hlarge
  · by_cases htie : n = 2 ^ 63 - 512
    · rw [htie]
      decide
    · have hlog : n.log2 = 62 := log2_of_upper_half (by omega) (by omega)
      rcases roundTo53Bits_cases (n := n) (by omega) with ⟨hnear, -⟩ | heq
      · rw [hlog] at hnear
        omega
      · rw [hlog] at heq
        omega

/-- A sum of which one number is at least half the range comes to the end of the range, but for half a unit. -/
theorem le_roundTo53Bits_add (hn : 2 ^ 62 ≤ n) (hn' : n < 2 ^ 63) (hm : m < 2 ^ 63)
    (hsum : 2 ^ 63 ≤ n + m) : 2 ^ 63 - 512 ≤ roundTo53Bits n + roundTo53Bits m := by
  obtain ⟨⟨q, hq⟩, hnear⟩ := roundTo53Bits_near hn hn'
  by_cases hmlarge : 2 ^ 62 ≤ m
  · have hnhalf : 2 ^ 62 ≤ roundTo53Bits n := le_roundTo53Bits_of_lt (k := 10) hn' (by decide) hn
    have hmhalf : 2 ^ 62 ≤ roundTo53Bits m := le_roundTo53Bits_of_lt (k := 10) hm (by decide) hmlarge
    omega
  · by_cases hend : 2 ^ 63 ≤ roundTo53Bits n + 512
    · omega
    · -- What is missing is a multiple of 512 and less than `2 ^ 62`: it needs no rounding.
      have hmissing : 2 ^ 63 - 512 - roundTo53Bits n ≤ roundTo53Bits m := by
        refine le_roundTo53Bits_of_lt (k := 9) (by omega) ?_ (by omega)
        rw [hq]
        omega
      omega

/-- Rounding the parts and then the sum does not bring a sum beyond the range back into it. -/
theorem le_roundTo53Bits_sum (hn : n < 2 ^ 63) (hm : m < 2 ^ 63) (hsum : 2 ^ 63 ≤ n + m) :
    2 ^ 63 ≤ roundTo53Bits (roundTo53Bits n + roundTo53Bits m) := by
  refine roundTo53Bits_of_near_top ?_
  by_cases hlarge : 2 ^ 62 ≤ n
  · exact le_roundTo53Bits_add hlarge hn hm hsum
  · rw [Nat.add_comm]
    exact le_roundTo53Bits_add (by omega) hm hn (by omega)

/-- Below `2 ^ 63` rounding never comes to more. -/
theorem roundTo53Bits_le_of_lt (hn : n < 2 ^ 63) : roundTo53Bits n ≤ 2 ^ 63 := by
  by_cases hsmall : n < 2 ^ 53
  · have hsame : roundTo53Bits n = n := if_pos hsmall
    omega
  · have hlog : n.log2 < 63 := log2_lt_of_lt (k := 10) hn
    have hdvd : 2 ^ (n.log2 - 52) ∣ 2 ^ 63 := Nat.pow_dvd_pow 2 (by omega)
    have hup : (n / 2 ^ (n.log2 - 52) + 1) * 2 ^ (n.log2 - 52) ≤ 2 ^ 63 := by
      have hquotient : n / 2 ^ (n.log2 - 52) < 2 ^ 63 / 2 ^ (n.log2 - 52) :=
        Nat.div_lt_div_of_lt_of_dvd hdvd hn
      calc (n / 2 ^ (n.log2 - 52) + 1) * 2 ^ (n.log2 - 52)
          ≤ 2 ^ 63 / 2 ^ (n.log2 - 52) * 2 ^ (n.log2 - 52) := Nat.mul_le_mul_right _ hquotient
        _ = 2 ^ 63 := Nat.div_mul_cancel hdvd
    rcases roundTo53Bits_cases (Nat.le_of_not_lt hsmall) with ⟨-, heq⟩ | heq
    · rw [heq]
      exact Nat.le_trans (Nat.mul_le_mul_right _ (Nat.le_succ _)) hup
    · rwa [heq]

end Rounding

theorem nearest53_natCast (n : Nat) : nearest53 n = roundTo53Bits n := by
  have hnot : ¬ (n : Int) < 0 := by omega
  rw [nearest53, if_neg hnot, Int.natAbs_natCast]

theorem nearest53_nonpos {n : Int} (h : n ≤ 0) : nearest53 n ≤ 0 := by
  rcases Int.lt_or_eq_of_le h with hneg | rfl
  · rw [nearest53, if_pos hneg]
    omega
  · decide

theorem nearest53_neg (n : Nat) : nearest53 (-n) = -(roundTo53Bits n) := by
  rcases Nat.eq_zero_or_pos n with rfl | hpos
  · decide
  · have hneg : (-(n : Int)) < 0 := by omega
    rw [nearest53, if_pos hneg, Int.natAbs_neg, Int.natAbs_natCast]

/-! ## Sums -/

namespace Counter

/-- What calls can store: a 64-bit number that is not negative, or a number beyond the 64-bit numbers. -/
def IsStored : Counter → Prop
  | exact n => 0 ≤ n ∧ n ≤ int64Max
  | overflowed n => int64Max < n

theorem isStored_zero : (exact 0).IsStored := by
  constructor <;> decide

theorem isStored_add (c : Counter) (delta : Int) : (c.add delta).IsStored := by
  have hsettle : ∀ m n, add.settle m = overflowed n → int64Max < n := by
    intro m n hm
    unfold add.settle at hm
    split at hm
    · cases hm
    · next hnot =>
      cases hm
      exact Int.lt_of_not_ge hnot
  cases hc : c.add delta with
  | exact n => exact add_eq_exact hc
  | overflowed n =>
    show int64Max < n
    cases c with
    | exact m =>
      simp only [add] at hc
      split at hc
      · cases hc
      · exact hsettle _ _ hc
    | overflowed m => exact hsettle _ _ hc

variable {n delta : Int}

/-- A sum beyond the 64-bit numbers is stored as a number that is beyond them, too. -/
theorem add_of_gt (hn : 0 ≤ n) (hmax : n ≤ int64Max) (hdelta : delta ≤ int64Max)
    (hsum : int64Max < n + delta) : ∃ m, int64Max < m ∧ (exact n).add delta = overflowed m := by
  obtain ⟨a, rfl⟩ := Int.eq_ofNat_of_zero_le hn
  have hpos : 0 ≤ delta := by omega
  obtain ⟨b, rfl⟩ := Int.eq_ofNat_of_zero_le hpos
  have hround : 2 ^ 63 ≤ roundTo53Bits (roundTo53Bits a + roundTo53Bits b) := by
    simp only [int64Max] at hmax hdelta hsum
    exact le_roundTo53Bits_sum (by omega) (by omega) (by omega)
  have hover : int64Max < (roundTo53Bits (roundTo53Bits a + roundTo53Bits b) : Int) := by
    simp only [int64Max]
    omega
  refine ⟨_, hover, ?_⟩
  have hbeyond : ¬(int64Min ≤ (a : Int) + b ∧ (a : Int) + b ≤ int64Max) := fun h => by omega
  rw [add, if_neg hbeyond, nearest53_natCast, nearest53_natCast, ← Int.natCast_add, nearest53_natCast,
    add.settle, if_neg (Int.not_le.mpr hover)]

/-- An approximate sum of which one part is beyond the 64-bit numbers cannot be read. -/
theorem settle_of_ge {a b : Nat} (h : 2 ^ 63 ≤ a ∨ 2 ^ 63 ≤ b) :
    ∃ k, add.settle (nearest53 (a + b)) = overflowed k := by
  have hround : 2 ^ 63 ≤ roundTo53Bits (a + b) := le_roundTo53Bits_of_ge (by omega)
  have hover : ¬ (roundTo53Bits (a + b) : Int) ≤ int64Max := by
    simp only [int64Max]
    omega
  exact ⟨_, by rw [← Int.natCast_add, nearest53_natCast, add.settle, if_neg hover]⟩

/-- What cannot be read does not become readable when more is added, and neither does anything to which more is
    added than can be read. -/
theorem not_exact_of_add {c : Counter} {m : Int} (hc : c.IsStored) (hdelta : 0 ≤ delta)
    (h : (∃ k, c = overflowed k) ∨ int64Max < delta) : c.add delta ≠ exact m := by
  obtain ⟨b, rfl⟩ := Int.eq_ofNat_of_zero_le hdelta
  have hmax : (0 : Int) ≤ int64Max := by decide
  have hbeyond : ∀ a : Nat, 2 ^ 63 ≤ a ∨ 2 ^ 63 ≤ roundTo53Bits b →
      add.settle (nearest53 (a + nearest53 b)) ≠ exact m := by
    intro a hge heq
    rw [nearest53_natCast] at heq
    obtain ⟨k, hk⟩ := settle_of_ge hge
    rw [hk] at heq
    cases heq
  cases c with
  | overflowed k =>
    have hk : int64Max < k := hc
    obtain ⟨a, rfl⟩ := Int.eq_ofNat_of_zero_le (Int.le_of_lt (Int.lt_of_le_of_lt hmax hk))
    refine hbeyond a (Or.inl ?_)
    simp only [int64Max] at hk
    omega
  | exact n =>
    have hlarge : int64Max < (b : Int) := h.resolve_left (by rintro ⟨k, hk⟩; cases hk)
    obtain ⟨hn, -⟩ := hc
    obtain ⟨a, rfl⟩ := Int.eq_ofNat_of_zero_le hn
    have hbig : 2 ^ 63 ≤ b := by
      simp only [int64Max] at hlarge
      omega
    have hnot : ¬(int64Min ≤ (a : Int) + b ∧ (a : Int) + b ≤ int64Max) := by omega
    rw [add, if_neg hnot, nearest53_natCast a]
    exact hbeyond _ (Or.inr (le_roundTo53Bits_of_ge hbig))

/-- If a sum can be read after something was added, nothing was lost on the way. -/
theorem eq_exact_of_add {c : Counter} {m : Int} (hc : c.IsStored) (hdelta : 0 ≤ delta)
    (h : c.add delta = exact m) : ∃ n, c = exact n ∧ 0 ≤ n ∧ m = n + delta := by
  cases c with
  | overflowed k => exact absurd h (not_exact_of_add hc hdelta (Or.inl ⟨k, rfl⟩))
  | exact n =>
    have hrange : 0 ≤ n ∧ n ≤ int64Max := hc
    refine ⟨n, rfl, hrange.1, ?_⟩
    by_cases hsum : n + delta ≤ int64Max
    · have hlow : int64Min ≤ n + delta := by
        simp only [int64Min]
        omega
      rw [add_of_range hlow hsum] at h
      have hvalue := exact.inj h
      omega
    · exfalso
      by_cases hlarge : delta ≤ int64Max
      · obtain ⟨k, -, hover⟩ := add_of_gt hrange.1 hrange.2 hlarge (Int.lt_of_not_ge hsum)
        rw [hover] at h
        cases h
      · exact not_exact_of_add hc hdelta (Or.inr (Int.lt_of_not_ge hlarge)) h

/-- What is given back is subtracted, down to zero. -/
theorem add_neg {size : Int} (hmax : n ≤ int64Max) (hsize : 0 ≤ size) :
    (exact n).add (-size) = exact (max 0 (n - size)) := by
  by_cases hlow : int64Min ≤ n + -size
  · rw [add_of_range hlow (by omega), Int.sub_eq_add_neg]
  · have hsum : nearest53 n + nearest53 (-size) ≤ 0 := by
      by_cases hneg : n ≤ 0
      · have hn := nearest53_nonpos hneg
        have hs := nearest53_nonpos (n := -size) (by omega)
        omega
      · -- What is subtracted then has at least 63 bits, and what it is subtracted from not more.
        obtain ⟨a, rfl⟩ := Int.eq_ofNat_of_zero_le (Int.le_of_lt (Int.lt_of_not_ge hneg))
        obtain ⟨b, rfl⟩ := Int.eq_ofNat_of_zero_le hsize
        simp only [int64Max, int64Min] at hmax hlow
        have ha := roundTo53Bits_le_of_lt (n := a) (by omega)
        have hb := le_roundTo53Bits_of_ge (n := b) (by omega)
        rw [nearest53_natCast, nearest53_neg]
        omega
    have hsettled := nearest53_nonpos hsum
    have hfits : nearest53 (nearest53 n + nearest53 (-size)) ≤ int64Max := by
      simp only [int64Max]
      omega
    have hzero : max 0 (nearest53 (nearest53 n + nearest53 (-size))) = max 0 (n - size) := by
      simp only [int64Min] at hlow
      omega
    rw [add, if_neg fun h => hlow h.1, add.settle, if_pos hfits, hzero]

end Counter

namespace Database

variable {db : Database} {owner : Int} {c c' : Counter}

/-! ## Changing one counter -/

/-- The database with another value in the counter of a user. -/
def withCounter (db : Database) (owner : Int) (c : Counter) : Database :=
  { db with users := db.users.map fun table => { table with
      rows := table.rows.map fun u => if u.id = owner then { u with spaceUsed := c } else u } }

@[simp] theorem fileRows_withCounter (db : Database) (owner : Int) (c : Counter) :
    (db.withCounter owner c).fileRows = db.fileRows := rfl

@[simp] theorem withFiles_withCounter (db : Database) (owner : Int) (c : Counter) (rows : List File) :
    (db.withCounter owner c).withFiles rows = (db.withFiles rows).withCounter owner c := rfl

theorem IsWhole.withCounter (h : db.IsWhole) (owner : Int) (c : Counter) : (db.withCounter owner c).IsWhole := by
  obtain ⟨table, hu, -⟩ := h.userTable
  exact ⟨by simp [Database.withCounter, hu], h.folders, h.files⟩

/-- The last value stays. -/
@[simp] theorem withCounter_withCounter (db : Database) (owner : Int) (c c' : Counter) :
    (db.withCounter owner c).withCounter owner c' = db.withCounter owner c' := by
  simp only [withCounter, Option.map_map, Database.mk.injEq, true_and, and_true]
  congr 1
  funext table
  simp only [Function.comp, UserTable.mk.injEq, and_true, List.map_map]
  refine List.map_congr_left fun u _ => ?_
  simp only [Function.comp]
  by_cases h : u.id = owner <;> simp [h]

theorem withCounter_self (hl : db.Lawful) (hc : db.counter? owner = some c) : db.withCounter owner c = db := by
  rw [counter?_eq, Option.map_eq_some_iff] at hc
  obtain ⟨v, hv, rfl⟩ := hc
  obtain ⟨table, hu, -⟩ := hl.whole.userTable
  have hids := hl.userIds
  rw [Database.userIds, userRows_of_users hu] at hids
  have hmem : v ∈ table.rows := by
    simp only [user?, hu, Option.bind_some] at hv
    exact List.mem_of_find?_eq_some hv
  have hrows : (table.rows.map fun u => if u.id = owner then { u with spaceUsed := v.spaceUsed } else u) =
      table.rows := by
    refine (List.map_congr_left fun u hmem' => ?_).trans (List.map_id' _)
    by_cases h : u.id = owner
    · obtain rfl : u = v := List.inj_on_of_nodup_map hids hmem' hmem (h.trans (id_of_user? hv).symm)
      rw [if_pos h]
    · rw [if_neg h]
  cases db
  cases hu
  simp only [withCounter, Option.map_some, hrows]

theorem counter?_withCounter (h : db.counter? owner = some c) (c' : Counter) :
    (db.withCounter owner c').counter? owner = some c' := by
  rw [counter?_eq, Option.map_eq_some_iff] at h
  obtain ⟨v, hv, -⟩ := h
  cases ht : db.users with
  | none => simp [user?, ht] at hv
  | some table =>
    simp only [user?, ht, Option.bind_some] at hv
    simp only [counter?, withCounter, ht, Option.map_some, Option.bind_some]
    rw [findUser_map _ _ (fun u => by split <;> rfl), hv]
    have hid : v.id = owner := by simpa using List.find?_some hv
    simp [hid]

/-- A call on a counter that is there sets it to the sum. -/
theorem adjustSpaceUsed_eq (h : db.counter? owner = some c) (delta : Int) :
    db.adjustSpaceUsed owner delta = ((c.add delta).read, db.withCounter owner (c.add delta)) := by
  rw [counter?_eq, Option.map_eq_some_iff] at h
  obtain ⟨v, hv, rfl⟩ := h
  cases ht : db.users with
  | none => simp [user?, ht] at hv
  | some table =>
    simp only [user?, ht, Option.bind_some] at hv
    simp only [adjustSpaceUsed, userTable, ht, hv, withCounter, Option.map_some]
    rfl

/-! ## Counters after calls -/

/-- What a statement does to the counter of a user. -/
inductive CounterAfter (db : Database) (st : Statement) (owner : Int) : Prop
  | kept (h : (st.apply db).counter? owner = db.counter? owner)
  | made (hnone : db.counter? owner = none) (h : (st.apply db).counter? owner = some (.exact 0))
  | adjusted (delta : Int) (hst : st = .adjustSpaceUsed owner delta)
      (h : (st.apply db).counter? owner = (db.counter? owner).map (·.add delta))

theorem CounterAfter.of_isOnTrees {st : Statement} (hw : db.IsWhole) (hst : st.IsOnTrees) (owner : Int) :
    CounterAfter db st owner :=
  .kept (counter?_congr (Statement.users_apply_of_isOnTrees hw hst) owner)

theorem counter?_createUser_of_none (h : db.counter? owner = none) (username : String) (quota : Int)
    (createdAt : String) :
    (db.createUser username quota createdAt).2.counter? owner = none ∨
      (db.createUser username quota createdAt).2.counter? owner = some (.exact 0) := by
  rcases createUser_cases db username quota createdAt with ⟨e, he⟩ | ⟨table, hu, hok⟩
  · rw [he]
    exact Or.inl h
  · have hold : findUser table owner = none := by simpa [counter?, hu] using h
    rw [hok]
    simp only [counter?, withUsers, findUser, Option.bind_some, List.find?_append] at hold ⊢
    rw [hold]
    by_cases hid : table.lastId + 1 = owner
    · right
      simp [hid]
    · left
      simp [hid]

theorem counter?_apply (hw : db.IsWhole) (st : Statement) (owner : Int) : CounterAfter db st owner := by
  cases st with
  | createUser username quota createdAt =>
    cases hc : db.counter? owner with
    | some c => exact .kept ((counter?_createUser hc username quota createdAt).trans hc.symm)
    | none =>
      rcases counter?_createUser_of_none hc username quota createdAt with hnone | hzero
      · exact .kept (hnone.trans hc.symm)
      · exact .made hc hzero
  | setQuota id quota => exact .kept (counter?_setQuota db id quota owner)
  | adjustSpaceUsed id delta =>
    by_cases hid : id = owner
    · subst hid
      exact .adjusted delta rfl (counter?_adjustSpaceUsed_self db id delta)
    · exact .kept (counter?_adjustSpaceUsed_of_ne db hid delta)
  | insertFolder f => exact .of_isOnTrees hw (by trivial) owner
  | deleteFolderIfEmpty id o => exact .of_isOnTrees hw (by trivial) owner
  | insertFile f => exact .of_isOnTrees hw (by trivial) owner
  | updateFile id o u => exact .of_isOnTrees hw (by trivial) owner
  | deleteFile id o => exact .of_isOnTrees hw (by trivial) owner

/-- A database as calls leave it: its constraints hold, and so does the range of every counter. -/
structure Accounted (db : Database) : Prop where
  lawful : db.Lawful
  numbered : db.Numbered
  counters : ∀ id c, db.counter? id = some c → c.IsStored

theorem accounted_fresh : fresh.Accounted where
  lawful := lawful_fresh
  numbered := numbered_fresh
  counters id c h := by cases h

namespace Accounted

theorem apply (h : db.Accounted) (st : Statement) : (st.apply db).Accounted where
  lawful := st.lawful_apply h.lawful fun _ => h.numbered
  numbered := st.numbered_apply h.lawful.whole h.numbered
  counters := by
    intro id c hc
    rcases counter?_apply h.lawful.whole st id with hkept | ⟨-, hmade⟩ | ⟨delta, -, hadjusted⟩
    · exact h.counters id c (hkept ▸ hc)
    · rw [hmade] at hc
      cases hc
      exact Counter.isStored_zero
    · rw [hadjusted, Option.map_eq_some_iff] at hc
      obtain ⟨c', -, rfl⟩ := hc
      exact c'.isStored_add delta

theorem afterAll (h : db.Accounted) (sts : List Statement) : (db.afterAll sts).Accounted := by
  induction sts generalizing db with
  | nil => exact h
  | cons st rest ih => exact ih (h.apply st)

end Accounted

/-! ## Counters that nobody can read -/

/-- Nothing that needs the counter of a user is answered any more: neither the counter nor the user, nor the
    usage, nor whether the user may upload. -/
structure LockedOut (db : Database) (owner : Int) : Prop where
  spaceUsed : db.spaceUsed owner = .error (.database "the counter holds no integer")
  userById : db.userById owner = .error (.database "the counter holds no integer")
  usageOf : db.usageOf owner = .error (.database "the counter holds no integer")
  uploads : ∀ blobs maxFileSize,
    Depot.uploadCeiling ⟨db, blobs⟩ owner maxFileSize = .error (.database "the counter holds no integer")

theorem lockedOut_of_overflowed {m : Int} (h : db.counter? owner = some (.overflowed m)) :
    db.LockedOut owner := by
  obtain ⟨table, ht, hu⟩ := Option.bind_eq_some_iff.mp h
  obtain ⟨u, hfound, hcounter⟩ := Option.map_eq_some_iff.mp hu
  have htable : db.userTable = .ok table := by rw [userTable, ht]
  have hread : u.read = .error (.database "the counter holds no integer") := by
    rw [User.read, hcounter]
    rfl
  have huser : db.userById owner = .error (.database "the counter holds no integer") := by
    simp only [userById, htable, hfound, hread]
    rfl
  have husage : db.usageOf owner = .error (.database "the counter holds no integer") := by
    rw [usageOf, huser]
    rfl
  refine ⟨?_, huser, husage, ?_⟩
  · simp only [spaceUsed, htable, hfound, hcounter]
    rfl
  · intro blobs maxFileSize
    simp only [Depot.uploadCeiling, Depot.usage, husage]

/-- Only a call that adds to an overflowed counter changes it. -/
theorem overflowed_afterAll {m : Int} (ha : db.Accounted) (h : db.counter? owner = some (.overflowed m))
    {sts : List Statement} (hsts : ∀ delta, Statement.adjustSpaceUsed owner delta ∉ sts) :
    (db.afterAll sts).counter? owner = some (.overflowed m) := by
  induction sts generalizing db with
  | nil => exact h
  | cons st rest ih =>
    refine ih (ha.apply st) ?_ fun delta hmem => hsts delta (List.mem_cons_of_mem _ hmem)
    rcases counter?_apply ha.lawful.whole st owner with hkept | ⟨hnone, -⟩ | ⟨delta, rfl, -⟩
    · exact hkept.trans h
    · rw [h] at hnone
      cases hnone
    · exact absurd List.mem_cons_self (hsts delta)

/-! ## Safe calls -/

/-- A call answers with the sum, cut off at zero, and stores just that, or it fails and changes nothing. -/
def AdjustsSafely (db : Database) (owner delta : Int) : Prop :=
  (∃ n, db.spaceUsed owner = .ok n ∧ db.adjustSpaceUsed owner delta =
      (.ok (max 0 (n + delta)), db.withCounter owner (.exact (max 0 (n + delta))))) ∨
    ∃ e, db.adjustSpaceUsed owner delta = (.error e, db)

theorem adjustSpaceUsed_of_none (hw : db.IsWhole) (h : db.counter? owner = none) (delta : Int) :
    db.adjustSpaceUsed owner delta = (.error (.notFound "user"), db) := by
  obtain ⟨table, ht, htable⟩ := hw.userTable
  have hnone : findUser table owner = none := by simpa [counter?, ht] using h
  simp only [adjustSpaceUsed, htable, hnone]

namespace Accounted

variable {n delta : Int}

theorem adjustsSafely_of_le (ha : db.Accounted) (hc : db.counter? owner = some (.exact n))
    (hlow : int64Min ≤ delta) (hsum : n + delta ≤ int64Max) : db.AdjustsSafely owner delta := by
  have hrange : 0 ≤ n ∧ n ≤ int64Max := ha.counters owner _ hc
  have hadd : (Counter.exact n).add delta = .exact (max 0 (n + delta)) :=
    Counter.add_of_range (by omega) hsum
  refine Or.inl ⟨n, spaceUsed_eq_ok_iff.mpr hc, ?_⟩
  rw [adjustSpaceUsed_eq hc, hadd]
  rfl

/-- A sum beyond the 64-bit numbers fails, but not without effect. -/
theorem overflows_of_gt (ha : db.Accounted) (hc : db.counter? owner = some (.exact n))
    (hhigh : delta ≤ int64Max) (hsum : int64Max < n + delta) :
    ∃ m, int64Max < m ∧ db.adjustSpaceUsed owner delta =
      (.error (.database "the counter holds no integer"), db.withCounter owner (.overflowed m)) := by
  have hrange : 0 ≤ n ∧ n ≤ int64Max := ha.counters owner _ hc
  obtain ⟨m, hm, hadd⟩ := Counter.add_of_gt hrange.1 hrange.2 hhigh hsum
  refine ⟨m, hm, ?_⟩
  rw [adjustSpaceUsed_eq hc, hadd]
  rfl

theorem not_adjustsSafely_of_gt (ha : db.Accounted) (hc : db.counter? owner = some (.exact n))
    (hhigh : delta ≤ int64Max) (hsum : int64Max < n + delta) : ¬ db.AdjustsSafely owner delta := by
  obtain ⟨m, -, hcall⟩ := ha.overflows_of_gt hc hhigh hsum
  rintro (⟨k, -, hok⟩ | ⟨e, hfail⟩)
  · rw [hcall] at hok
    cases congrArg Prod.fst hok
  · rw [hcall] at hfail
    have hsame : db.withCounter owner (.overflowed m) = db := congrArg Prod.snd hfail
    have hafter := counter?_withCounter hc (.overflowed m)
    rw [hsame, hc] at hafter
    cases hafter

end Accounted

/-- After any calls on a new database, a call that adds to a counter which can still be read is safe exactly if
    the sum is at most the greatest 64-bit number. Beyond that it fails after it has stored the sum, and until
    the counter is adjusted again the user is locked out, whatever else is called. -/
theorem adjusts_safely_iff (sts : List Statement) (owner delta : Int) (hlow : int64Min ≤ delta)
    (hhigh : delta ≤ int64Max) (hread : ∀ m, (fresh.afterAll sts).counter? owner ≠ some (.overflowed m)) :
    ((fresh.afterAll sts).AdjustsSafely owner delta ↔
        ∀ n, (fresh.afterAll sts).spaceUsed owner = .ok n → n + delta ≤ int64Max) ∧
      ∀ n, (fresh.afterAll sts).spaceUsed owner = .ok n → int64Max < n + delta →
        ((fresh.afterAll sts).adjustSpaceUsed owner delta).1 =
            .error (.database "the counter holds no integer") ∧
          ∀ later, (∀ d, Statement.adjustSpaceUsed owner d ∉ later) →
            (((fresh.afterAll sts).adjustSpaceUsed owner delta).2.afterAll later).LockedOut owner := by
  have ha := accounted_fresh.afterAll sts
  have hstep := ha.apply (.adjustSpaceUsed owner delta)
  generalize fresh.afterAll sts = db at ha hread hstep ⊢
  refine ⟨⟨?_, ?_⟩, ?_⟩
  · intro hsafe n hn
    by_contra hnot
    exact ha.not_adjustsSafely_of_gt (spaceUsed_eq_ok_iff.mp hn) hhigh (Int.lt_of_not_ge hnot) hsafe
  · intro hsum
    cases hc : db.counter? owner with
    | none => exact Or.inr ⟨_, adjustSpaceUsed_of_none ha.lawful.whole hc delta⟩
    | some c =>
      cases c with
      | exact n => exact ha.adjustsSafely_of_le hc hlow (hsum n (spaceUsed_eq_ok_iff.mpr hc))
      | overflowed m => exact absurd hc (hread m)
  · intro n hn hsum
    have hc := spaceUsed_eq_ok_iff.mp hn
    obtain ⟨m, -, hcall⟩ := ha.overflows_of_gt hc hhigh hsum
    refine ⟨by rw [hcall], fun later hlater => ?_⟩
    have hafter : (db.adjustSpaceUsed owner delta).2.counter? owner = some (.overflowed m) := by
      rw [hcall]
      exact counter?_withCounter hc _
    exact lockedOut_of_overflowed (overflowed_afterAll hstep hafter hlater)

/-- A user whose counter stands at the greatest 64-bit number. -/
def callsToTheTop : List Statement := [.createUser "alice" 0 "t", .adjustSpaceUsed 1 int64Max]

theorem adjusts_safely_iff_at_the_top :
    (fresh.afterAll callsToTheTop).spaceUsed 1 = .ok int64Max ∧
      (fresh.afterAll callsToTheTop).AdjustsSafely 1 (-5) ∧
      ((fresh.afterAll callsToTheTop).adjustSpaceUsed 1 1).2.LockedOut 1 := by
  have hspace : (fresh.afterAll callsToTheTop).spaceUsed 1 = .ok int64Max := by rfl
  have hread : ∀ m, (fresh.afterAll callsToTheTop).counter? 1 ≠ some (.overflowed m) := by
    intro m h
    rw [spaceUsed_eq_ok_iff.mp hspace] at h
    cases h
  obtain ⟨hsafe, -⟩ := adjusts_safely_iff callsToTheTop 1 (-5) (by decide) (by decide) hread
  obtain ⟨-, hlocked⟩ := adjusts_safely_iff callsToTheTop 1 1 (by decide) (by decide) hread
  refine ⟨hspace, hsafe.mpr ?_, (hlocked int64Max hspace (by decide)).2 [] fun d h => by cases h⟩
  intro n hn
  rw [hspace] at hn
  cases hn
  decide

/-- One byte more than the counter can show locks the user out: the call fails and the row is another. -/
theorem overflow_is_not_undone :
    ¬ (fresh.afterAll callsToTheTop).AdjustsSafely 1 1 ∧
      (fresh.afterAll callsToTheTop).spaceUsed 1 = .ok int64Max ∧
      ((fresh.afterAll callsToTheTop).adjustSpaceUsed 1 1).1 =
        .error (.database "the counter holds no integer") ∧
      ((fresh.afterAll callsToTheTop).adjustSpaceUsed 1 1).2.spaceUsed 1 =
        .error (.database "the counter holds no integer") := by
  refine ⟨?_, by rfl, by rfl, by rfl⟩
  rintro (⟨n, -, hok⟩ | ⟨e, hfail⟩)
  · cases congrArg Prod.fst hok
  · have hafter := congrArg (fun p => p.2.spaceUsed 1) hfail
    cases hafter

end Database

end FileDepot
