import FileDepot.Proofs.Store.Statements

/-!
# Calls on the tables

Runs of any length of the calls that make, change and remove users, folders and files, with any arguments and
from a new database. The rows keep all constraints, users are numbered in the order in which they were made, and
a call that fails or finds nothing to write leaves every table as it was.
-/

namespace FileDepot

open Database

namespace Statement

/-- What a statement answers that did not fail. -/
inductive Result where
  | user (a : Account)
  | used (bytes : Int)
  | folder (f : Folder)
  | file (f : Option File)
  | found (b : Bool)
  deriving DecidableEq, Repr

namespace Result

/-- Whether a statement failed or tells that there was nothing to write. -/
def IsNegative : Outcome Result → Prop
  | .error _ => True
  | .ok (.file none) => True
  | .ok (.found false) => True
  | .ok _ => False

end Result

/-- The answer of a statement. -/
def answer (db : Database) : Statement → Outcome Result
  | createUser username quota createdAt => (db.createUser username quota createdAt).1.map .user
  | setQuota id quota => (db.setQuota id quota).1.map .found
  | adjustSpaceUsed id delta => (db.adjustSpaceUsed id delta).1.map .used
  | insertFolder f => (db.insertFolder f).1.map .folder
  | deleteFolderIfEmpty id owner => (db.deleteFolderIfEmpty id owner).1.map .found
  | insertFile f => (db.insertFile f).1.map fun f => .file (some f)
  | updateFile id owner u => (db.updateFile id owner u).1.map .file
  | deleteFile id owner => (db.deleteFile id owner).1.map .found

/-- The account that a statement makes. -/
def account? (db : Database) (st : Statement) : Option Account :=
  match st.answer db with
  | .ok (.user a) => some a
  | _ => none

/-- A call that leaves the counters alone: a file is inserted as the stub of an upload, and the state that an
    update sets is one that can be read. The arguments are arbitrary. -/
def IsCall : Statement → Prop
  | adjustSpaceUsed _ _ => False
  | insertFile f => f.state = .pending
  | updateFile _ _ u => ∀ text, u.state ≠ some (.unknown text)
  | _ => True

end Statement

namespace Database

/-- The database after statements, one after the other. -/
def afterAll (db : Database) : List Statement → Database
  | [] => db
  | st :: rest => (st.apply db).afterAll rest

/-- The accounts that the statements make, in order. -/
def accountsOf (db : Database) : List Statement → List Account
  | [] => []
  | st :: rest => (st.account? db).toList ++ (st.apply db).accountsOf rest

/-- All constraints on the rows: ids and usernames are unique, folders and files belong to users, and no quota is
    below zero. -/
structure WellFormed (db : Database) : Prop extends Lawful db where
  usernames : (db.userRows.map User.username).Nodup
  quotas : ∀ u ∈ db.userRows, 0 ≤ u.quota

/-- The states of all files can be read. -/
def Readable (db : Database) : Prop := ∀ f ∈ db.fileRows, ∀ text, f.state ≠ .unknown text

/-- The accounts that were made are the users, numbered from 1 on. -/
structure Enrolled (db : Database) (made : List Account) : Prop where
  ids : made.map Account.id = (List.range made.length).map fun k : Nat => (k : Int) + 1
  rows : db.userRows.map (fun u => (u.id, u.username)) = made.map fun a => (a.id, a.username)
  lastId : ∀ table, db.users = some table → table.lastId = made.length

variable {db : Database} {st : Statement} {made : List Account}

/-! ## Users -/

/-- A user is made only with a quota that is not negative and under a new name. -/
theorem of_createUser_ok {username createdAt : String} {quota : Int} {a : Account}
    (h : (db.createUser username quota createdAt).1 = .ok a) :
    0 ≤ quota ∧ ∀ u ∈ db.userRows, u.username ≠ username := by
  unfold createUser at h
  split at h
  · cases h
  · next hquota =>
    cases hu : db.users with
    | none =>
      simp only [userTable, hu] at h
      cases h
    | some table =>
      simp only [userTable, hu] at h
      split at h
      · cases h
      · next hname =>
        refine ⟨by omega, ?_⟩
        rw [userRows_of_users hu]
        simpa using hname

/-- What a change of rows of users leaves as it is: ids and names, and that no quota is negative. -/
structure KeepsUsers (g : User → User) : Prop where
  id : ∀ u, (g u).id = u.id
  username : ∀ u, (g u).username = u.username
  quota : ∀ u, 0 ≤ u.quota → 0 ≤ (g u).quota

theorem KeepsUsers.refl : KeepsUsers fun u => u := ⟨fun _ => rfl, fun _ => rfl, fun _ h => h⟩

theorem keepsUsers_quota (id : Int) {quota : Int} (h : 0 ≤ quota) :
    KeepsUsers fun u => if u.id = id then { u with quota := quota } else u where
  id u := by split <;> rfl
  username u := by split <;> rfl
  quota u hu := by
    show 0 ≤ (if u.id = id then { u with quota := quota } else u).quota
    split
    · exact h
    · exact hu

theorem keepsUsers_spaceUsed (id : Int) (c : Counter) :
    KeepsUsers fun u => if u.id = id then { u with spaceUsed := c } else u where
  id u := by split <;> rfl
  username u := by split <;> rfl
  quota u hu := by
    show 0 ≤ (if u.id = id then { u with spaceUsed := c } else u).quota
    split <;> exact hu

/-- What a statement does to the table of users: it adds one with the next id, under a new name and with a quota
    that is not negative, or changes quotas and counters only. -/
inductive UsersAfter (db : Database) (st : Statement) (table : UserTable) : Prop
  | added (a : Account) (u : User) (hmade : st.account? db = some a) (hid : u.id = table.lastId + 1)
      (hsame : (a.id, a.username) = (u.id, u.username)) (hquota : 0 ≤ u.quota)
      (hname : ∀ v ∈ table.rows, v.username ≠ u.username)
      (hafter : (st.apply db).users = some ⟨table.rows ++ [u], table.lastId + 1⟩)
  | kept (g : User → User) (hmade : st.account? db = none) (hg : KeepsUsers g)
      (hafter : (st.apply db).users = some ⟨table.rows.map g, table.lastId⟩)

/-- A statement that is not about users leaves their table as it is. -/
theorem UsersAfter.of_users {table : UserTable} (hu : db.users = some table)
    (hmade : st.account? db = none) (hafter : (st.apply db).users = db.users) : UsersAfter db st table := by
  refine .kept (fun u => u) hmade .refl ?_
  rw [hafter, hu, List.map_id']

theorem users_apply (hw : db.IsWhole) {table : UserTable} (hu : db.users = some table) (st : Statement) :
    UsersAfter db st table := by
  cases st with
  | createUser username quota createdAt =>
    rcases createUser_cases db username quota createdAt with ⟨e, he⟩ | ⟨table', hu', hok⟩
    · exact .of_users hu (by simp [Statement.account?, Statement.answer, he, Except.map])
        (by rw [Statement.apply, he])
    · obtain rfl : table = table' := Option.some.inj (hu.symm.trans hu')
      obtain ⟨hquota, hname⟩ := of_createUser_ok (congrArg Prod.fst hok)
      refine .added ⟨table.lastId + 1, username, quota, 0, createdAt⟩
        ⟨table.lastId + 1, username, quota, .exact 0, createdAt⟩ ?_ rfl rfl hquota ?_ ?_
      · simp [Statement.account?, Statement.answer, hok, Except.map]
      · rwa [userRows_of_users hu] at hname
      · rw [Statement.apply, hok]
        rfl
  | setQuota id quota =>
    rcases setQuota_cases db id quota with ⟨e, he⟩ | ⟨table', hu', hok⟩
    · exact .of_users hu (by simp [Statement.account?, Statement.answer, he, Except.map])
        (by rw [Statement.apply, he])
    · obtain rfl : table = table' := Option.some.inj (hu.symm.trans hu')
      have hquota : 0 ≤ quota := by
        by_contra hneg
        rw [setQuota, if_pos (by omega)] at hok
        cases congrArg Prod.fst hok
      refine .kept _ ?_ (keepsUsers_quota id hquota) ?_
      · simp [Statement.account?, Statement.answer, hok, Except.map]
      · rw [Statement.apply, hok]
        rfl
  | adjustSpaceUsed id delta =>
    have hmade : (Statement.adjustSpaceUsed id delta).account? db = none := by
      simp only [Statement.account?, Statement.answer]
      cases (db.adjustSpaceUsed id delta).1 <;> rfl
    rcases adjustSpaceUsed_cases db id delta with ⟨e, he⟩ | ⟨table', u, hu', -, hok⟩
    · exact .of_users hu hmade (by rw [Statement.apply, he])
    · obtain rfl : table = table' := Option.some.inj (hu.symm.trans hu')
      refine .kept _ hmade (keepsUsers_spaceUsed id (u.spaceUsed.add delta)) ?_
      rw [Statement.apply, hok]
      rfl
  | insertFolder f =>
    refine .of_users hu ?_ (Statement.users_apply_of_isOnTrees hw trivial)
    simp only [Statement.account?, Statement.answer]
    cases (db.insertFolder f).1 <;> rfl
  | deleteFolderIfEmpty id owner =>
    refine .of_users hu ?_ (Statement.users_apply_of_isOnTrees hw trivial)
    simp only [Statement.account?, Statement.answer]
    cases (db.deleteFolderIfEmpty id owner).1 <;> rfl
  | insertFile f =>
    refine .of_users hu ?_ (Statement.users_apply_of_isOnTrees hw trivial)
    simp only [Statement.account?, Statement.answer]
    cases (db.insertFile f).1 <;> rfl
  | updateFile id owner u =>
    refine .of_users hu ?_ (Statement.users_apply_of_isOnTrees hw trivial)
    simp only [Statement.account?, Statement.answer]
    cases (db.updateFile id owner u).1 <;> rfl
  | deleteFile id owner =>
    refine .of_users hu ?_ (Statement.users_apply_of_isOnTrees hw trivial)
    simp only [Statement.account?, Statement.answer]
    cases (db.deleteFile id owner).1 <;> rfl

namespace Enrolled

theorem numbered (h : db.Enrolled made) : db.Numbered := by
  intro table ht u hu
  have hmem : u.id ∈ made.map Account.id := by
    have hids := congrArg (List.map Prod.fst) h.rows
    simp only [List.map_map, Function.comp_def] at hids
    rw [← hids, userRows_of_users ht]
    exact List.mem_map_of_mem hu
  rw [h.ids] at hmem
  obtain ⟨k, hk, hid⟩ := List.mem_map.mp hmem
  have := List.mem_range.mp hk
  rw [h.lastId table ht]
  omega

/-- The next account takes the next number, and no statement but its creation gives a number. -/
theorem apply (h : db.Enrolled made) (hw : db.IsWhole) (st : Statement) :
    (st.apply db).Enrolled (made ++ (st.account? db).toList) := by
  obtain ⟨table, hu, -⟩ := hw.userTable
  have hrows := h.rows
  rw [userRows_of_users hu] at hrows
  rcases users_apply hw hu st with ⟨a, u, hmade, hid, hsame, -, -, hafter⟩ | ⟨g, hmade, hg, hafter⟩
  · rw [hmade, Option.toList_some]
    have hlast : a.id = (made.length : Int) + 1 := by
      rw [← h.lastId table hu, ← hid]
      exact congrArg Prod.fst hsame
    refine ⟨?_, ?_, ?_⟩
    · rw [List.map_append, h.ids, List.length_append, List.length_singleton, List.range_succ, List.map_append,
        List.map_singleton, List.map_singleton, hlast]
    · rw [userRows_of_users hafter, List.map_append, List.map_append, hrows, List.map_singleton,
        List.map_singleton, hsame]
    · intro table' ht'
      obtain rfl := Option.some.inj (hafter.symm.trans ht')
      rw [h.lastId table hu, List.length_append]
      rfl
  · rw [hmade, Option.toList_none, List.append_nil]
    refine ⟨h.ids, ?_, ?_⟩
    · rw [userRows_of_users hafter, List.map_map, ← hrows]
      exact List.map_congr_left fun u _ => by simp only [Function.comp, hg.id, hg.username]
    · intro table' ht'
      obtain rfl := Option.some.inj (hafter.symm.trans ht')
      exact h.lastId table hu

end Enrolled

/-- Every statement keeps all constraints. -/
theorem WellFormed.apply (h : db.WellFormed) (hn : db.Numbered) (st : Statement) :
    (st.apply db).WellFormed := by
  obtain ⟨table, hu, -⟩ := h.whole.userTable
  have hnames := h.usernames
  have hquotas := h.quotas
  rw [userRows_of_users hu] at hnames hquotas
  refine ⟨st.lawful_apply h.toLawful fun _ => hn, ?_, ?_⟩
  · rcases users_apply h.whole hu st with ⟨a, u, -, -, -, -, hname, hafter⟩ | ⟨g, -, hg, hafter⟩
    · rw [userRows_of_users hafter]
      exact nodup_ids_append hnames hname
    · rw [userRows_of_users hafter, List.map_map]
      rwa [List.map_congr_left fun u _ => show (User.username ∘ g) u = u.username from hg.username u]
  · rcases users_apply h.whole hu st with ⟨a, u, -, -, -, hquota, -, hafter⟩ | ⟨g, -, hg, hafter⟩
    · intro v hv
      rw [userRows_of_users hafter] at hv
      rcases List.mem_append.mp hv with hv | hv
      · exact hquotas v hv
      · rwa [List.mem_singleton.mp hv]
    · intro v hv
      rw [userRows_of_users hafter] at hv
      obtain ⟨u, hmem, rfl⟩ := List.mem_map.mp hv
      exact hg.quota u (hquotas u hmem)

/-! ## Calls that write nothing -/

theorem withUsers_self {table : UserTable} (h : db.users = some table) : db.withUsers table = db := by
  cases db
  cases h
  rfl

/-- An update of a user that does not exist writes nothing. -/
theorem map_eq_self_of_hasUser {table : UserTable} {id : Int} (h : hasUser table id = false) (g : User → User) :
    (table.rows.map fun u => if u.id = id then g u else u) = table.rows := by
  have hne : ∀ u ∈ table.rows, u.id ≠ id := by simpa [hasUser] using h
  calc (table.rows.map fun u => if u.id = id then g u else u)
      = table.rows.map fun u => u := List.map_congr_left fun u hu => if_neg (hne u hu)
    _ = table.rows := List.map_id' _

/-- A row that an update leaves readable can be read. -/
theorem read_apply {u : FileUpdate} {f : File} (hu : ∀ text, u.state ≠ some (.unknown text))
    (hf : ∀ text, f.state ≠ .unknown text) : (u.apply f).read = .ok (u.apply f) := by
  have hstate : ∀ text, (u.apply f).state ≠ .unknown text := by
    intro text
    rw [u.apply_eq]
    show u.state.getD f.state ≠ .unknown text
    cases hs : u.state with
    | none => exact hf text
    | some s =>
      intro heq
      exact hu text (hs.trans (congrArg some heq))
  unfold File.read
  split
  · next text htext => exact absurd htext (hstate text)
  · rfl

namespace Readable

theorem apply (h : db.Readable) (hw : db.IsWhole) (hc : st.IsCall) : (st.apply db).Readable := by
  cases st with
  | createUser username quota createdAt =>
    rw [Readable, Statement.apply, (onlyUsers_createUser db username quota createdAt).fileRows]
    exact h
  | setQuota id quota =>
    rw [Readable, Statement.apply, (onlyUsers_setQuota db id quota).fileRows]
    exact h
  | adjustSpaceUsed id delta => exact hc.elim
  | insertFolder f =>
    rcases insertFolder_cases hw f with ⟨e, he⟩ | ⟨hok, -⟩
    · rw [Statement.apply, he]
      exact h
    · rw [Statement.apply, hok]
      exact h
  | deleteFolderIfEmpty id owner =>
    rw [Readable, Statement.apply, (onlyFolders_deleteFolderIfEmpty db id owner).fileRows]
    exact h
  | insertFile f =>
    rcases insertFile_cases hw f with ⟨e, he⟩ | ⟨hok, -⟩
    · rw [Statement.apply, he]
      exact h
    · rw [Statement.apply, hok]
      intro g hg text
      rcases List.mem_append.mp hg with hg | hg
      · exact h g hg text
      · rw [List.mem_singleton.mp hg, show f.state = .pending from hc]
        exact FileState.noConfusion
  | updateFile id owner u =>
    by_cases hu : u.isEmpty = true
    · rw [Statement.apply, updateFile, if_pos hu]
      exact h
    · rcases updateFile_cases hw id owner (by simpa using hu) with ⟨f, -, -, hok⟩ | ⟨hsame, -⟩
      · rw [Statement.apply, hok]
        intro g hg text
        obtain ⟨g', hg', ⟨-, -, rfl⟩ | ⟨-, rfl⟩⟩ := mem_updatedRows.mp hg
        · intro heq
          have hread := read_apply hc (h g' hg')
          rw [File.read, heq] at hread
          cases hread
        · exact h g hg' text
      · rw [Statement.apply, hsame]
        exact h
  | deleteFile id owner =>
    rw [Statement.apply, deleteFile_eq hw]
    intro g hg
    exact h g (List.mem_filter.mp hg).1

/-- A call that fails or finds nothing to write leaves the database as it was. -/
theorem apply_of_negative (h : db.Readable) (hw : db.IsWhole) (hc : st.IsCall)
    (hneg : Statement.Result.IsNegative (st.answer db)) : st.apply db = db := by
  cases st with
  | createUser username quota createdAt =>
    rcases createUser_cases db username quota createdAt with ⟨e, he⟩ | ⟨table, -, hok⟩
    · rw [Statement.apply, he]
    · rw [Statement.answer, hok] at hneg
      exact hneg.elim
  | setQuota id quota =>
    rcases setQuota_cases db id quota with ⟨e, he⟩ | ⟨table, hu, hok⟩
    · rw [Statement.apply, he]
    · rw [Statement.answer, hok] at hneg
      cases hfound : hasUser table id with
      | false =>
        rw [Statement.apply, hok, map_eq_self_of_hasUser hfound fun u => { u with quota := quota }]
        exact withUsers_self hu
      | true =>
        rw [hfound] at hneg
        exact hneg.elim
  | adjustSpaceUsed id delta => exact hc.elim
  | insertFolder f =>
    rcases insertFolder_cases hw f with ⟨e, he⟩ | ⟨hok, -⟩
    · rw [Statement.apply, he]
    · rw [Statement.answer, hok] at hneg
      exact hneg.elim
  | deleteFolderIfEmpty id owner =>
    rw [Statement.answer, deleteFolderIfEmpty_eq hw] at hneg
    rw [Statement.apply, deleteFolderIfEmpty_eq hw]
    split at hneg
    · exact hneg.elim
    · next hocc => rw [if_neg hocc]
  | insertFile f =>
    rcases insertFile_cases hw f with ⟨e, he⟩ | ⟨hok, -⟩
    · rw [Statement.apply, he]
    · rw [Statement.answer, hok] at hneg
      exact hneg.elim
  | updateFile id owner u =>
    by_cases hu : u.isEmpty = true
    · rw [Statement.apply, updateFile, if_pos hu]
    · rcases updateFile_cases hw id owner (by simpa using hu) with ⟨f, hf, -, hok⟩ | ⟨hsame, -⟩
      · rw [Statement.answer, hok, read_apply hc (h f (findFile_some hf).1)] at hneg
        exact hneg.elim
      · rw [Statement.apply, hsame]
  | deleteFile id owner =>
    rw [Statement.answer, deleteFile_eq hw] at hneg
    rw [Statement.apply, deleteFile_eq hw]
    have hnone : db.fileRows.any (isFile id owner) = false := by
      cases hany : db.fileRows.any (isFile id owner) with
      | false => rfl
      | true =>
        rw [hany] at hneg
        exact hneg.elim
    rw [List.filter_eq_self.mpr fun f hf => by simpa using List.any_eq_false.mp hnone f hf]
    exact withFiles_self hw

end Readable

/-! ## Runs -/

/-- What a run of calls keeps: the constraints, the numbering of the users, and that states can be read. -/
structure Upheld (db : Database) (made : List Account) : Prop where
  wellFormed : db.WellFormed
  enrolled : db.Enrolled made
  readable : db.Readable

theorem upheld_fresh : fresh.Upheld [] where
  wellFormed := ⟨lawful_fresh, List.nodup_nil, fun u hu => by cases hu⟩
  enrolled := ⟨rfl, rfl, fun table ht => by cases ht; rfl⟩
  readable f hf := by cases hf

theorem Upheld.apply (h : db.Upheld made) (hc : st.IsCall) :
    (st.apply db).Upheld (made ++ (st.account? db).toList) where
  wellFormed := h.wellFormed.apply h.enrolled.numbered st
  enrolled := h.enrolled.apply h.wellFormed.whole st
  readable := h.readable.apply h.wellFormed.whole hc

theorem Upheld.afterAll {calls : List Statement} (h : db.Upheld made) (hc : ∀ st ∈ calls, st.IsCall) :
    (db.afterAll calls).Upheld (made ++ db.accountsOf calls) := by
  induction calls generalizing db made with
  | nil =>
    rw [accountsOf, List.append_nil]
    exact h
  | cons st rest ih =>
    rw [Database.afterAll, accountsOf, ← List.append_assoc]
    exact ih (h.apply (hc st List.mem_cons_self)) fun st' hst' => hc st' (List.mem_cons_of_mem _ hst')

/-- After any calls on a new database all constraints hold, the users are those that were made with success and
    the one that was made as the k-th has the id k, and every call that fails or finds nothing to write leaves
    the database as it is. -/
theorem tables_stay_well_formed (calls : List Statement) (hcalls : ∀ st ∈ calls, st.IsCall) :
    (fresh.afterAll calls).WellFormed ∧
      (fresh.accountsOf calls).map Account.id =
        (List.range (fresh.accountsOf calls).length).map (fun k : Nat => (k : Int) + 1) ∧
      ((fresh.afterAll calls).userRows.map fun u => (u.id, u.username)) =
        (fresh.accountsOf calls).map (fun a => (a.id, a.username)) ∧
      ∀ st : Statement, st.IsCall → Statement.Result.IsNegative (st.answer (fresh.afterAll calls)) →
        st.apply (fresh.afterAll calls) = fresh.afterAll calls := by
  have h := upheld_fresh.afterAll hcalls
  rw [List.nil_append] at h
  refine ⟨h.wellFormed, h.enrolled.ids, h.enrolled.rows, ?_⟩
  intro st hst hneg
  exact h.readable.apply_of_negative h.wellFormed.whole hst hneg

/-- Two users are made among calls that fail: a name that is taken, a quota below zero, an owner that does not
    exist, a parent of another owner, and an id that is taken. -/
def callsWithFaults : List Statement :=
  [.createUser "alice" 10 "t", .createUser "alice" 5 "t", .createUser "carol" (-1) "t",
    .insertFolder ⟨"d", "docs", "", 7, "t"⟩, .createUser "bob" 0 "t", .insertFolder ⟨"d", "docs", "", 1, "t"⟩,
    .insertFolder ⟨"e", "notes", "d", 2, "t"⟩, .insertFolder ⟨"d", "docs", "", 2, "t"⟩, .setQuota 3 8]

theorem tables_stay_well_formed_of_faults :
    (∀ st ∈ callsWithFaults, st.IsCall) ∧ (fresh.accountsOf callsWithFaults).map Account.id = [1, 2] ∧
      (fresh.afterAll callsWithFaults).WellFormed ∧
      (fresh.afterAll callsWithFaults).folderRows = [⟨"d", "docs", "", 1, "t"⟩] ∧
      (Statement.setQuota 3 8).apply (fresh.afterAll callsWithFaults) = fresh.afterAll callsWithFaults := by
  have hcalls : ∀ st ∈ callsWithFaults, st.IsCall := by simp [callsWithFaults, Statement.IsCall]
  obtain ⟨hformed, -, -, hsame⟩ := tables_stay_well_formed callsWithFaults hcalls
  have hneg : (Statement.setQuota 3 8).answer (fresh.afterAll callsWithFaults) = .ok (.found false) := by rfl
  exact ⟨hcalls, by rfl, hformed, by rfl, hsame _ trivial (by rw [hneg]; trivial)⟩

end Database

end FileDepot
