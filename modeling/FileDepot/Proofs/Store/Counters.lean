import FileDepot.Proofs.Store.Rows
import Mathlib.Algebra.Order.BigOperators.Group.List
import Mathlib.Algebra.Order.Group.Int
import Mathlib.Algebra.Ring.Int.Defs

/-!
# Counters and bytes

The quota and the counter of a user as they are stored, and the bytes of the finished files that the counter is
meant to show. Each statement is said once with what it does to each of them.
-/

namespace FileDepot

namespace File

/-- The bytes for which a file has to be counted against an owner. -/
def counted (owner : Int) (f : File) : Int :=
  if f.ownerId = owner ∧ f.state = .complete then f.size else 0

variable {owner : Int} {f : File}

theorem counted_of_pending (hs : f.state ≠ .complete) : f.counted owner = 0 :=
  if_neg fun hh => hs hh.2

end File

namespace Counter

/-- A sum that is a 64-bit number is kept, cut off at zero. -/
theorem add_of_range {n delta : Int} (hlow : int64Min ≤ n + delta) (hhigh : n + delta ≤ int64Max) :
    (exact n).add delta = exact (max 0 (n + delta)) := by
  rw [add, if_pos ⟨hlow, hhigh⟩]

/-- A sum that can be read is a 64-bit number, and not negative. -/
theorem add_eq_exact {c : Counter} {delta n : Int} (h : c.add delta = exact n) : 0 ≤ n ∧ n ≤ int64Max := by
  have hsettle : ∀ m, add.settle m = exact n → 0 ≤ n ∧ n ≤ int64Max := by
    intro m hm
    unfold add.settle at hm
    split at hm
    · next hle =>
      cases hm
      have hmax : (0 : Int) ≤ int64Max := by decide
      omega
    · cases hm
  cases c with
  | exact m =>
    simp only [add] at h
    split at h
    · next hrange =>
      cases h
      have hmax : (0 : Int) ≤ int64Max := by decide
      omega
    · exact hsettle _ h
  | overflowed m => exact hsettle _ h

/-- Together with what is reserved, a counter does not exceed a limit; or the limit lies beyond the 64-bit
    numbers, and the counter can be anything. -/
def Fits (limit : Int) (reserved : Nat) (c : Counter) : Prop :=
  (∃ n, c = exact n ∧ 0 ≤ n ∧ n + reserved ≤ limit) ∨
    (int64Max < limit ∧ ∀ n, c = exact n → 0 ≤ n ∧ n ≤ int64Max)

namespace Fits

variable {limit delta : Int} {reserved reserved' : Nat} {c : Counter}

theorem mono (h : Fits limit reserved c) (hr : reserved' ≤ reserved) : Fits limit reserved' c := by
  rcases h with ⟨n, hc, hn, hle⟩ | hover
  · refine Or.inl ⟨n, hc, hn, ?_⟩
    omega
  · exact Or.inr hover

theorem le (h : Fits limit reserved c) {n : Int} (hc : c = exact n) : 0 ≤ n ∧ n ≤ limit := by
  rcases h with ⟨m, hm, hnonneg, hle⟩ | ⟨hlimit, hover⟩
  · rw [hc] at hm
    cases hm
    omega
  · have hn := hover n hc
    omega

/-- Bytes for which there was a reservation are counted, or bytes are given back. -/
theorem add (h : Fits limit reserved c) (hlow : -int64Max ≤ delta) (hr : reserved' ≤ reserved)
    (hdelta : reserved' + delta ≤ reserved) : Fits limit reserved' (c.add delta) := by
  rcases h with ⟨n, rfl, hn, hle⟩ | ⟨hlimit, -⟩
  · by_cases hmax : n + delta ≤ int64Max
    · have hmin : int64Min ≤ n + delta := by
        simp only [int64Min, int64Max] at *
        omega
      rw [add_of_range hmin hmax]
      refine Or.inl ⟨_, rfl, ?_, ?_⟩
      · omega
      · omega
    · refine Or.inr ⟨?_, fun m hm => add_eq_exact hm⟩
      omega
  · exact Or.inr ⟨hlimit, fun m hm => add_eq_exact hm⟩

end Fits

end Counter

namespace Database

variable {db db' : Database} {id : String} {owner : Int} {u : FileUpdate} {f : File} {rows : List File}

/-- The counter of a user. -/
def counter? (db : Database) (owner : Int) : Option Counter :=
  db.users.bind fun table => (findUser table owner).map User.spaceUsed

/-- The row of a user. -/
def user? (db : Database) (owner : Int) : Option User := db.users.bind fun table => findUser table owner

/-- The quota of a user. -/
def quota? (db : Database) (owner : Int) : Option Int := (db.user? owner).map User.quota

/-- The bytes of the finished files of an owner. -/
def storedBytes (rows : List File) (owner : Int) : Int := (rows.map (File.counted owner)).sum

/-! ## Users -/

theorem counter?_eq (db : Database) (owner : Int) : db.counter? owner = (db.user? owner).map User.spaceUsed := by
  rw [counter?, user?]
  cases db.users <;> rfl

theorem counter?_congr (h : db'.users = db.users) (owner : Int) : db'.counter? owner = db.counter? owner := by
  rw [counter?, counter?, h]

/-- A counter can be read if it is exact. -/
theorem spaceUsed_eq_ok_iff {n : Int} : db.spaceUsed owner = .ok n ↔ db.counter? owner = some (.exact n) := by
  unfold spaceUsed counter? userTable
  cases db.users with
  | none => simp
  | some table =>
    simp only [Option.bind_some]
    cases findUser table owner with
    | none => simp
    | some u => cases hu : u.spaceUsed <;> simp [Counter.read, hu]

/-- A change that leaves ids alone changes the user that is found. -/
theorem findUser_map (rows : List User) (g : User → User) (hg : ∀ u, (g u).id = u.id) (last id : Int) :
    findUser ⟨rows.map g, last⟩ id = (findUser ⟨rows, last⟩ id).map g := by
  simp only [findUser, List.find?_map]
  congr 2
  funext u
  simp [hg u]

/-- A user stays as it was when another one is created. -/
theorem user?_createUser {v : User} (h : db.user? owner = some v) (username : String) (quota : Int)
    (createdAt : String) : (db.createUser username quota createdAt).2.user? owner = some v := by
  unfold createUser
  split
  · exact h
  · unfold userTable
    cases ht : db.users with
    | none => exact h
    | some table =>
      simp only
      split
      · exact h
      · have hv : table.rows.find? (·.id == owner) = some v := by simpa [user?, ht, findUser] using h
        simp [user?, withUsers, findUser, hv]

/-- A quota that is set is the quota of that user, unless it is refused. -/
theorem user?_setQuota (db : Database) (id quota owner : Int) :
    (db.setQuota id quota).2.user? owner =
      (db.user? owner).map fun v => if 0 ≤ quota ∧ v.id = id then { v with quota := quota } else v := by
  unfold setQuota
  split
  · next hneg =>
    have hnot : ¬ 0 ≤ quota := by omega
    simp [hnot]
  · next hpos =>
    have hle : 0 ≤ quota := by omega
    unfold userTable
    cases ht : db.users with
    | none => simp [user?, ht]
    | some table =>
      simp only [user?, withUsers, ht, Option.bind_some]
      rw [findUser_map _ _ (fun v => by split <;> rfl)]
      simp [hle]

/-- A call adds to the counter of its user. -/
theorem user?_adjustSpaceUsed (db : Database) (id delta owner : Int) :
    (db.adjustSpaceUsed id delta).2.user? owner =
      (db.user? owner).map fun v =>
        if v.id = id then { v with spaceUsed := v.spaceUsed.add delta } else v := by
  unfold adjustSpaceUsed userTable
  cases ht : db.users with
  | none => simp [user?, ht]
  | some table =>
    simp only
    cases hid : findUser table id with
    | none =>
      simp only [user?, ht, Option.bind_some]
      cases hv : findUser table owner with
      | none => rfl
      | some v =>
        have hne : v.id ≠ id := by
          intro heq
          simpa [heq] using List.find?_eq_none.mp hid v (List.mem_of_find?_eq_some hv)
        rw [Option.map_some, if_neg hne]
    | some u =>
      simp only [user?, withUsers, ht, Option.bind_some]
      rw [findUser_map _ _ (fun v => by split <;> rfl)]
      cases hv : findUser table owner with
      | none => rfl
      | some v =>
        simp only [Option.map_some]
        by_cases heq : v.id = id
        · -- The user is the one who was found.
          have howner : v.id = owner := by simpa using List.find?_some hv
          rw [← howner, heq, hid] at hv
          cases hv
          rfl
        · rw [if_neg heq, if_neg heq]

theorem id_of_user? {v : User} (h : db.user? owner = some v) : v.id = owner := by
  simp only [user?, Option.bind_eq_some_iff] at h
  obtain ⟨table, -, hv⟩ := h
  simpa using List.find?_some hv

theorem counter?_createUser {c : Counter} (h : db.counter? owner = some c) (username : String) (quota : Int)
    (createdAt : String) : (db.createUser username quota createdAt).2.counter? owner = some c := by
  rw [counter?_eq, Option.map_eq_some_iff] at h ⊢
  obtain ⟨v, hv, hc⟩ := h
  exact ⟨v, user?_createUser hv username quota createdAt, hc⟩

theorem counter?_setQuota (db : Database) (id quota owner : Int) :
    (db.setQuota id quota).2.counter? owner = db.counter? owner := by
  rw [counter?_eq, counter?_eq, user?_setQuota, Option.map_map]
  congr 1
  funext v
  simp only [Function.comp]
  split <;> rfl

/-- A call adds to the counter, if there is one. -/
theorem counter?_adjustSpaceUsed_self (db : Database) (owner delta : Int) :
    (db.adjustSpaceUsed owner delta).2.counter? owner = (db.counter? owner).map (·.add delta) := by
  rw [counter?_eq, counter?_eq, user?_adjustSpaceUsed]
  cases hv : db.user? owner with
  | none => rfl
  | some v => simp [id_of_user? hv]

theorem counter?_adjustSpaceUsed {c : Counter} (h : db.counter? owner = some c) (delta : Int) :
    (db.adjustSpaceUsed owner delta).2.counter? owner = some (c.add delta) := by
  rw [counter?_adjustSpaceUsed_self, h, Option.map_some]

theorem counter?_adjustSpaceUsed_of_ne (db : Database) {id : Int} (h : id ≠ owner) (delta : Int) :
    (db.adjustSpaceUsed id delta).2.counter? owner = db.counter? owner := by
  rw [counter?_eq, counter?_eq, user?_adjustSpaceUsed]
  cases hv : db.user? owner with
  | none => rfl
  | some v =>
    have hne : v.id ≠ id := by
      rw [id_of_user? hv]
      exact h.symm
    simp [hne]

theorem quota?_createUser {q : Int} (h : db.quota? owner = some q) (username : String) (quota : Int)
    (createdAt : String) : (db.createUser username quota createdAt).2.quota? owner = some q := by
  rw [quota?, Option.map_eq_some_iff] at h ⊢
  obtain ⟨v, hv, hq⟩ := h
  exact ⟨v, user?_createUser hv username quota createdAt, hq⟩

/-- A quota stays as it is if none but the same is set. -/
theorem quota?_setQuota {q : Int} (h : db.quota? owner = some q) {id quota : Int}
    (hsame : id = owner → quota = q) : (db.setQuota id quota).2.quota? owner = some q := by
  rw [quota?, Option.map_eq_some_iff] at h
  obtain ⟨v, hv, hq⟩ := h
  rw [quota?, user?_setQuota, hv, Option.map_some, Option.map_some, Option.some.injEq]
  split
  · next hset => exact hsame (hset.2.symm.trans (id_of_user? hv))
  · exact hq

/-! ## Stored bytes -/

theorem storedBytes_append (rows : List File) (f : File) (owner : Int) :
    storedBytes (rows ++ [f]) owner = storedBytes rows owner + f.counted owner := by
  simp [storedBytes]

/-- Finished files count no less than nothing, and so do all of them together. -/
theorem storedBytes_nonneg (h : ∀ f ∈ rows, f.ownerId = owner → f.state = .complete → 0 ≤ f.size) :
    0 ≤ storedBytes rows owner := by
  refine List.sum_nonneg fun n hn => ?_
  obtain ⟨f, hf, rfl⟩ := List.mem_map.mp hn
  unfold File.counted
  split
  · next hc => exact h f hf hc.1 hc.2
  · exact Int.le_refl 0

theorem storedBytes_eq_zero (h : ∀ f ∈ rows, f.ownerId ≠ owner) : storedBytes rows owner = 0 := by
  refine List.sum_eq_zero fun n hn => ?_
  obtain ⟨f, hf, rfl⟩ := List.mem_map.mp hn
  exact if_neg fun hc => h f hf hc.1

/-- Rows that count the same one by one count the same together. -/
theorem storedBytes_map (rows : List File) {g : File → File} (owner : Int)
    (hg : ∀ f ∈ rows, (g f).counted owner = f.counted owner) :
    storedBytes (rows.map g) owner = storedBytes rows owner := by
  rw [storedBytes, storedBytes, List.map_map]
  congr 1
  exact List.map_congr_left hg

/-- The removal of unfinished files takes nothing away. -/
theorem storedBytes_filter_of_pending (owner : Int) {p : File → Bool}
    (hp : ∀ f ∈ rows, p f = false → f.state ≠ .complete) :
    storedBytes (rows.filter p) owner = storedBytes rows owner := by
  induction rows with
  | nil => rfl
  | cons f rest ih =>
    have hrest := ih fun g hg => hp g (List.mem_cons_of_mem f hg)
    simp only [storedBytes] at hrest ⊢
    cases hpf : p f with
    | true => rw [List.filter_cons_of_pos hpf, List.map_cons, List.map_cons, List.sum_cons, List.sum_cons, hrest]
    | false =>
      have hzero : f.counted owner = 0 := File.counted_of_pending (hp f List.mem_cons_self hpf)
      rw [List.filter_cons_of_neg (by simp [hpf]), List.map_cons, List.sum_cons, hrest, hzero, Int.zero_add]

/-- An update of one row changes the bytes by what the row counted before and counts now. -/
theorem storedBytes_updatedRows (hn : (rows.map File.id).Nodup) (hf : f ∈ rows) (u : FileUpdate)
    (owner : Int) :
    storedBytes (updatedRows rows f.id f.ownerId u) owner =
      storedBytes rows owner - f.counted owner + (u.apply f).counted owner := by
  obtain ⟨before, after, hrows, hupdate, -⟩ := rows_around hn hf
  rw [hupdate, hrows]
  simp only [storedBytes, List.map_append, List.map_cons, List.sum_append, List.sum_cons]
  omega

/-- The removal of one row takes away what it counted. -/
theorem storedBytes_filter (hn : (rows.map File.id).Nodup) (hf : f ∈ rows) (owner : Int) :
    storedBytes (rows.filter fun g => !isFile f.id f.ownerId g) owner =
      storedBytes rows owner - f.counted owner := by
  obtain ⟨before, after, hrows, -, hfilter⟩ := rows_around hn hf
  rw [hfilter, hrows]
  simp only [storedBytes, List.map_append, List.map_cons, List.sum_append, List.sum_cons]
  omega

end Database

end FileDepot
