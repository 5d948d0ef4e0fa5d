import FileDepot.Proofs.Session.Contents
import FileDepot.Proofs.Session.Statements
import FileDepot.Proofs.Upload.Booking
import Mathlib.Data.List.Infix

/-!
# The accounts of a session

The counter of every user shows the bytes of the finished files of the user whenever no request is half-way,
in whatever order operations and deliveries have come, and whether they succeeded or failed.
-/

namespace FileDepot

open BlobPath Database Depot Upload

namespace Database

variable {db db' : Database} {owner : Int} {u : User}

theorem findUser_of_mem {table : UserTable} (hn : (table.rows.map User.id).Nodup) (hu : u ∈ table.rows) :
    findUser table u.id = some u := by
  cases hf : findUser table u.id with
  | none => simpa using List.find?_eq_none.mp hf u hu
  | some v =>
    have hid : v.id = u.id := by simpa using List.find?_some hf
    rw [List.inj_on_of_nodup_map hn (List.mem_of_find?_eq_some hf) hu hid]

theorem Lawful.findUser (h : db.Lawful) (hu : u ∈ db.userRows) :
    ∃ table, db.users = some table ∧ findUser table u.id = some u := by
  obtain ⟨table, ht, -⟩ := h.whole.userTable
  have hids := h.userIds
  rw [Database.userIds, userRows_of_users ht] at hids
  rw [userRows_of_users ht] at hu
  exact ⟨table, ht, findUser_of_mem hids hu⟩

theorem Lawful.counter?_of_mem (h : db.Lawful) (hu : u ∈ db.userRows) :
    db.counter? u.id = some u.spaceUsed := by
  obtain ⟨table, ht, hf⟩ := h.findUser hu
  simp [counter?, ht, hf]

/-- Behind every counter there is a user. -/
theorem user_of_counter? {c : Counter} (h : db.counter? owner = some c) :
    ∃ u ∈ db.userRows, u.id = owner ∧ u.spaceUsed = c := by
  simp only [counter?, Option.bind_eq_some_iff, Option.map_eq_some_iff] at h
  obtain ⟨table, ht, u, hu, rfl⟩ := h
  rw [userRows_of_users ht]
  exact ⟨u, List.mem_of_find?_eq_some hu, by simpa using List.find?_some hu, rfl⟩

/-- Whether every counter shows exactly the bytes of the finished files of its user. -/
def IsExact (db : Database) : Prop :=
  ∀ owner c, db.counter? owner = some c → c = .exact (storedBytes db.fileRows owner)

/-- Counters that follow the stored bytes stay exact as long as the bytes are 64-bit numbers. -/
theorem IsExact.of_follows (h : db.IsExact) (hf : ∀ owner, Follows owner db db')
    (hlow : ∀ owner, 0 ≤ storedBytes db'.fileRows owner)
    (hhigh : ∀ u ∈ db'.userRows, storedBytes db'.fileRows u.id ≤ int64Max) : db'.IsExact := by
  intro owner c hc
  cases hf owner with
  | same hcount hbytes =>
    rw [hbytes]
    exact h owner c (hcount.symm.trans hc)
  | called hcount =>
    rw [hcount, Option.map_eq_some_iff] at hc
    obtain ⟨before, hbefore, rfl⟩ := hc
    have hle : storedBytes db'.fileRows owner ≤ int64Max := by
      obtain ⟨u, hu, rfl, -⟩ := user_of_counter? (hcount.trans (by rw [hbefore]; rfl))
      exact hhigh u hu
    have hsum : storedBytes db.fileRows owner +
        (storedBytes db'.fileRows owner - storedBytes db.fileRows owner) =
          storedBytes db'.fileRows owner := by omega
    have hge := hlow owner
    rw [h owner before hbefore, Counter.add_of_range, hsum, max_eq_right hge]
    · rw [hsum, int64Min]
      omega
    · rw [hsum]
      exact hle
  | created hcount hbytes =>
    rw [hcount, Option.some.injEq] at hc
    rw [← hc, hbytes]

/-- A new user starts with nothing: no file belongs to an id that was not given yet. -/
theorem follows_createUser (hl : db.Lawful) (hn : db.Numbered) (username : String) (quota : Int)
    (createdAt : String) (owner : Int) :
    Follows owner db (db.createUser username quota createdAt).2 := by
  rcases createUser_cases db username quota createdAt with ⟨e, he⟩ | ⟨table, hu, hok⟩
  · rw [he]
    exact .same rfl rfl
  · rw [hok]
    have hids : ∀ id ∈ db.userIds, id ≠ table.lastId + 1 := by
      intro id hid
      rw [userIds, userRows_of_users hu] at hid
      obtain ⟨u, hmem, rfl⟩ := List.mem_map.mp hid
      have hle := hn table hu u hmem
      omega
    by_cases ho : owner = table.lastId + 1
    · rw [ho]
      refine .created ?_ ?_
      · have hnone : table.rows.find? (·.id == table.lastId + 1) = none := by
          rw [List.find?_eq_none]
          intro u hmem
          have hid : u.id ∈ db.userIds := by
            rw [userIds, userRows_of_users hu]
            exact List.mem_map_of_mem hmem
          simpa using hids u.id hid
        simp [counter?, Database.withUsers, findUser, hnone]
      · refine storedBytes_eq_zero fun f hf => ?_
        exact hids f.ownerId (hl.fileOwners f hf)
    · refine .same ?_ rfl
      have hne : ¬ table.lastId + 1 = owner := fun heq => ho heq.symm
      simp [counter?, Database.withUsers, findUser, hu, hne]

end Database

namespace Operation

variable {d : Depot} {owner : Int}

/-- Whatever an operation does, counters follow the stored bytes. A file is deleted together with its bytes. -/
theorem follows_run (ho : d.Orderly) (hc : d.Contentful) (hl : d.db.Lawful) (hn : d.db.Numbered)
    (hsizes : ∀ f ∈ d.db.fileRows, f.state = .complete → 0 ≤ f.size) (op : Operation) (owner : Int) :
    Follows owner d.db (op.run d).2.db := by
  cases op with
  | createUser username quota createdAt => exact follows_createUser hl hn username quota createdAt owner
  | setQuota id quota =>
    refine .same (counter?_setQuota d.db id quota owner) ?_
    simp only [run, (onlyUsers_setQuota d.db id quota).fileRows]
  | createFolder o name parent id createdAt =>
    simp only [run]
    have hsame := onlyFolders_createFolder d.db o name parent id createdAt
    exact .of_sameRecords (.of_onlyFolders hsame) owner
  | deleteFolder o ref =>
    simp only [run]
    have hsame := onlyFolders_deleteFolder d.db o ref
    exact .of_sameRecords (.of_onlyFolders hsame) owner
  | rename o id name =>
    rcases db_rename d o id name with hsame | ⟨name', hupdate⟩
    · simp only [run, hsame]
      exact .of_sameRecords (.refl d.db) owner
    · simp only [run, hupdate]
      exact .of_sameRecords (.updateFile_name ho.whole id o name') owner
  | delete o id =>
    simp only [run]
    cases hfile : d.file o id with
    | error e =>
      rw [delete_of_error hfile]
      exact .of_sameRecords (.refl d.db) owner
    | ok f =>
      obtain ⟨hf, rfl, rfl, hs⟩ := file_some ho.whole hfile
      have hsize := hsizes f hf hs
      have hopposite : Deletion.opposite f.size = -f.size := Deletion.opposite_of_nonneg hsize
      rw [delete_of_file ho hc hfile]
      simp only
      have hrest : ∀ delta, storedBytes ((d.db.withFiles (d.db.fileRows.filter fun g =>
          !isFile f.id f.ownerId g)).adjustSpaceUsed f.ownerId delta).2.fileRows owner =
            storedBytes d.db.fileRows owner - f.counted owner := by
        intro delta
        rw [(onlyUsers_adjustSpaceUsed _ _ _).fileRows, fileRows_withFiles, storedBytes_filter ho.unique hf]
      by_cases howner : f.ownerId = owner
      · have hcounted : f.counted owner = f.size := if_pos ⟨howner, hs⟩
        refine .of_call (-f.size) ?_ ?_
        · rw [hopposite, ← howner, counter?_adjustSpaceUsed_self]
          rfl
        · rw [hrest, hcounted]
          omega
      · have hcounted : f.counted owner = 0 := if_neg fun hh => howner hh.1
        refine .same ?_ ?_
        · rw [counter?_adjustSpaceUsed_of_ne _ howner]
          rfl
        · rw [hrest, hcounted, Int.sub_zero]
  | _ => exact .of_sameRecords (.refl d.db) owner

end Operation

namespace Session

variable {s : Session} {turn : Turn} {turns done : List Turn}

/-- The bytes of the finished files of an owner. -/
def stored (s : Session) (owner : Int) : Int := storedBytes s.depot.db.fileRows owner

/-- Files of a session have the size of their content. -/
theorem Reached.size_nonneg (h : s.Reached) {f : File} (hf : f ∈ s.depot.db.fileRows)
    (hs : f.state = .complete) : 0 ≤ f.size := by
  obtain ⟨a, -, -, -, hsize, -⟩ := h.holds hf hs
  rw [hsize]
  exact Int.natCast_nonneg _

/-- In every turn the counters follow the stored bytes. -/
theorem Reached.follows_step (h : s.Reached) (ha : s.Admits turn) (owner : Int) :
    Follows owner s.depot.db (s.step turn).depot.db := by
  have hc := h.custody
  have ho := hc.orderly
  cases turn with
  | operate op =>
    obtain ⟨hl, hn⟩ := h.lawful_numbered
    exact op.follows_run ho hc.contentful hl hn (fun f hf hs => h.size_nonneg hf hs) owner
  | start t boundary limit => exact follows_start ha.1 ho (hc.vacant ha.2) owner
  | deliver n x =>
    simp only [Session.step]
    cases hn : s.uploads[n]? with
    | none => exact .of_sameRecords (.refl s.depot.db) owner
    | some a =>
      have hmem := List.mem_of_getElem? hn
      have hfeed := follows_feed (hc.segments a hmem) ho (hc.owned hmem) (hc.waiting a hmem)
        (hc.tracks a hmem) (x.events a.intake) owner
      rw [← a.feed_of_take] at hfeed
      exact hfeed

theorem isExact_fresh : fresh.depot.db.IsExact := by
  intro owner c hc
  cases hc

/-- Counters that are exact stay so over several turns in which the stored bytes are 64-bit numbers. -/
theorem Reached.isExact_run (h : s.Reached) (he : s.depot.db.IsExact) (ha : s.AdmitsAll turns)
    (hfits : ∀ done, done <+: turns → ∀ u ∈ (s.run done).depot.db.userRows,
      (s.run done).stored u.id ≤ int64Max) :
    (s.run turns).Reached ∧ (s.run turns).depot.db.IsExact := by
  induction turns generalizing s with
  | nil => exact ⟨h, he⟩
  | cons turn rest ih =>
    have hnext := h.step ha.1
    have hexact : (s.step turn).depot.db.IsExact := by
      refine he.of_follows (h.follows_step ha.1) ?_ ?_
      · intro owner
        exact storedBytes_nonneg fun f hf _ hs => hnext.size_nonneg hf hs
      · exact hfits [turn] ⟨rest, rfl⟩
    refine ih hnext hexact ha.2 fun done hdone => ?_
    exact hfits (turn :: done) (List.cons_prefix_cons.mpr ⟨rfl, hdone⟩)

theorem AdmitsAll.of_prefix (h : s.AdmitsAll turns) (hp : done <+: turns) : s.AdmitsAll done := by
  induction done generalizing s turns with
  | nil => trivial
  | cons turn rest ih =>
    obtain ⟨after, rfl⟩ := hp
    exact ⟨h.1, ih h.2 ⟨after, rfl⟩⟩

/-- An exact counter is what the owner is told. -/
theorem usage_of_exact {d : Depot} (hl : d.db.Lawful) {u : User} (hu : u ∈ d.db.userRows) {n : Int}
    (hn : u.spaceUsed = .exact n) : d.usage u.id = .ok ⟨u.quota, n⟩ := by
  obtain ⟨table, ht, hf⟩ := hl.findUser hu
  simp [Depot.usage, usageOf, userById, userTable, ht, hf, User.read, Counter.read, hn, Except.map,
    Account.usage]

/-- After every turn of every session that starts with nothing, the counter of each user shows the bytes of
    the finished files of the user, and so does the usage that the user is told. That holds as long as the
    bytes of a user are a 64-bit number. -/
theorem counters_are_exact (ha : fresh.AdmitsAll turns)
    (hfits : ∀ done, done <+: turns → ∀ u ∈ (fresh.run done).depot.db.userRows,
      (fresh.run done).stored u.id ≤ int64Max) :
    ∀ done, done <+: turns → ∀ u ∈ (fresh.run done).depot.db.userRows,
      u.spaceUsed = .exact ((fresh.run done).stored u.id) ∧
        (fresh.run done).depot.usage u.id = .ok ⟨u.quota, (fresh.run done).stored u.id⟩ := by
  intro done hdone u hu
  have hrun := Reached.fresh.isExact_run isExact_fresh (ha.of_prefix hdone) fun first hfirst =>
    hfits first (hfirst.trans hdone)
  have hl := hrun.1.lawful_numbered.1
  have hexact := hrun.2 u.id u.spaceUsed (hl.counter?_of_mem hu)
  exact ⟨hexact, usage_of_exact hl hu hexact⟩

theorem counters_are_exact_of_hi :
    fresh.AdmitsAll uploadOfHi ∧
      (∀ done, done <+: uploadOfHi → ∀ u ∈ (fresh.run done).depot.db.userRows,
        (fresh.run done).stored u.id ≤ int64Max) ∧
      (fresh.run uploadOfHi).depot.db.userRows = [⟨1, "alice", 0, .exact 2, "2026"⟩] ∧
      (fresh.run uploadOfHi).depot.usage 1 = .ok ⟨0, 2⟩ := by
  have hfits : ∀ done ∈ uploadOfHi.inits, ∀ u ∈ (fresh.run done).depot.db.userRows,
      (fresh.run done).stored u.id ≤ int64Max := by decide +kernel
  have hprefix : ∀ done, done <+: uploadOfHi → ∀ u ∈ (fresh.run done).depot.db.userRows,
      (fresh.run done).stored u.id ≤ int64Max := by
    intro done hdone
    exact hfits done ((List.mem_inits done uploadOfHi).mpr hdone)
  have hrows : (fresh.run uploadOfHi).depot.db.userRows = [⟨1, "alice", 0, .exact 2, "2026"⟩] := by
    decide +kernel
  have hstored : (fresh.run uploadOfHi).stored 1 = 2 := by decide +kernel
  have halice := (counters_are_exact admitsAll_uploadOfHi hprefix uploadOfHi List.prefix_rfl
    ⟨1, "alice", 0, .exact 2, "2026"⟩ (by rw [hrows]; exact List.mem_singleton_self _)).2
  rw [hstored] at halice
  exact ⟨admitsAll_uploadOfHi, hprefix, hrows, halice⟩

end Session

end FileDepot
