import FileDepot.Proofs.Store.Forest
import Mathlib.Logic.Relation

/-!
# Statements and the schema

The statements that write to the database, as data, and the constraints that the schema puts on the rows: ids
are unique in each table, and folders and files belong to users that exist. Every statement keeps the
constraints, whatever it is told to write.
-/

namespace FileDepot

open Database

/-- A statement that writes to the database. -/
inductive Statement where
  | createUser (username : String) (quota : Int) (createdAt : String)
  | setQuota (id quota : Int)
  | adjustSpaceUsed (id delta : Int)
  | insertFolder (f : Folder)
  | deleteFolderIfEmpty (id : String) (owner : Int)
  | insertFile (f : File)
  | updateFile (id : String) (owner : Int) (u : FileUpdate)
  | deleteFile (id : String) (owner : Int)
  deriving DecidableEq, Repr

namespace Database

variable {db db' : Database} {id owner : Int}

/-- The rows of the table of users. -/
def userRows (db : Database) : List User := (db.users.map UserTable.rows).getD []

/-- The ids of the users. -/
def userIds (db : Database) : List Int := db.userRows.map User.id

/-- The constraints that the schema puts on the rows. -/
structure Lawful (db : Database) : Prop where
  whole : db.IsWhole
  userIds : db.userIds.Nodup
  folderIds : (db.folderRows.map Folder.id).Nodup
  fileIds : (db.fileRows.map File.id).Nodup
  folderOwners : ∀ f ∈ db.folderRows, f.ownerId ∈ db.userIds
  fileOwners : ∀ f ∈ db.fileRows, f.ownerId ∈ db.userIds

/-- No user has a greater id than the greatest that was ever given to one. -/
def Numbered (db : Database) : Prop := ∀ table, db.users = some table → ∀ u ∈ table.rows, u.id ≤ table.lastId

theorem lawful_fresh : fresh.Lawful where
  whole := isWhole_fresh
  userIds := List.nodup_nil
  folderIds := List.nodup_nil
  fileIds := List.nodup_nil
  folderOwners f hf := by cases hf
  fileOwners f hf := by cases hf

theorem numbered_fresh : fresh.Numbered := by
  intro table ht u hu
  cases ht
  cases hu

/-- The numbering is that of the table of users alone. -/
theorem Numbered.congr (h : db.Numbered) (hu : db'.users = db.users) : db'.Numbered := by
  intro table ht
  exact h table (hu ▸ ht)

theorem Numbered.withUsers_map (h : db.Numbered) {table : UserTable} (ht : db.users = some table)
    {g : User → User} (hg : ∀ u, (g u).id = u.id) :
    (db.withUsers { table with rows := table.rows.map g }).Numbered := by
  intro table' ht' u hu
  cases ht'
  obtain ⟨v, hv, rfl⟩ := List.mem_map.mp hu
  rw [hg v]
  exact h table ht v hv

@[simp] theorem userRows_withUsers (db : Database) (table : UserTable) :
    (db.withUsers table).userRows = table.rows := rfl

@[simp] theorem userRows_withFolders (db : Database) (rows : List Folder) :
    (db.withFolders rows).userRows = db.userRows := rfl

@[simp] theorem userRows_withFiles (db : Database) (rows : List File) :
    (db.withFiles rows).userRows = db.userRows := rfl

theorem userRows_of_users {table : UserTable} (h : db.users = some table) : db.userRows = table.rows := by
  simp [userRows, h]

theorem hasUser_iff {table : UserTable} : hasUser table id = true ↔ id ∈ table.rows.map User.id := by
  simp [hasUser]

namespace Lawful

theorem withUsers (h : db.Lawful) {table : UserTable} (hn : (table.rows.map User.id).Nodup)
    (hkept : ∀ id ∈ db.userIds, id ∈ table.rows.map User.id) : (db.withUsers table).Lawful where
  whole := ⟨rfl, h.whole.folders, h.whole.files⟩
  userIds := hn
  folderIds := h.folderIds
  fileIds := h.fileIds
  folderOwners f hf := hkept _ (h.folderOwners f hf)
  fileOwners f hf := hkept _ (h.fileOwners f hf)

/-- Rows of users may change in everything but their ids. -/
theorem withUsers_map (h : db.Lawful) {table : UserTable} (ht : db.users = some table) {g : User → User}
    (hg : ∀ u, (g u).id = u.id) (last : Int) : (db.withUsers ⟨table.rows.map g, last⟩).Lawful := by
  have hids : (table.rows.map g).map User.id = db.userIds := by
    rw [List.map_map, Database.userIds, userRows_of_users ht]
    exact List.map_congr_left fun u _ => hg u
  refine h.withUsers ?_ ?_
  · rw [hids]
    exact h.userIds
  · intro id hid
    rwa [hids]

theorem withFolders (h : db.Lawful) {rows : List Folder} (hn : (rows.map Folder.id).Nodup)
    (hown : ∀ f ∈ rows, f.ownerId ∈ db.userIds) : (db.withFolders rows).Lawful where
  whole := h.whole.withFolders rows
  userIds := h.userIds
  folderIds := hn
  fileIds := h.fileIds
  folderOwners := hown
  fileOwners := h.fileOwners

theorem withFiles (h : db.Lawful) {rows : List File} (hn : (rows.map File.id).Nodup)
    (hown : ∀ f ∈ rows, f.ownerId ∈ db.userIds) : (db.withFiles rows).Lawful where
  whole := h.whole.withFiles rows
  userIds := h.userIds
  folderIds := h.folderIds
  fileIds := hn
  folderOwners := h.folderOwners
  fileOwners := hown

end Lawful

/-! ## What statements write -/

/-- The creation of a user either fails and changes nothing, or adds a user with the next id. -/
theorem createUser_cases (db : Database) (username : String) (quota : Int) (createdAt : String) :
    (∃ e, db.createUser username quota createdAt = (.error e, db)) ∨
      ∃ table, db.users = some table ∧ db.createUser username quota createdAt =
        (.ok ⟨table.lastId + 1, username, quota, 0, createdAt⟩,
          db.withUsers ⟨table.rows ++ [⟨table.lastId + 1, username, quota, .exact 0, createdAt⟩],
            table.lastId + 1⟩) := by
  unfold createUser
  split
  · exact Or.inl ⟨_, rfl⟩
  · cases hu : db.users with
    | none => exact Or.inl ⟨_, by simp only [Database.userTable, hu]; rfl⟩
    | some table =>
      simp only [Database.userTable, hu]
      split
      · exact Or.inl ⟨_, rfl⟩
      · exact Or.inr ⟨table, rfl, rfl⟩

/-- The change of a quota changes rows of users, or nothing. -/
theorem setQuota_cases (db : Database) (id quota : Int) :
    (∃ e, db.setQuota id quota = (.error e, db)) ∨
      ∃ table, db.users = some table ∧ db.setQuota id quota =
        (.ok (hasUser table id), db.withUsers { table with
          rows := table.rows.map fun u => if u.id = id then { u with quota := quota } else u }) := by
  unfold setQuota
  split
  · exact Or.inl ⟨_, rfl⟩
  · cases hu : db.users with
    | none => exact Or.inl ⟨_, by simp only [Database.userTable, hu]; rfl⟩
    | some table => exact Or.inr ⟨table, rfl, by simp only [Database.userTable, hu]⟩

/-- A call on a counter fails where there is no such user, and else changes the counter. -/
theorem adjustSpaceUsed_cases (db : Database) (id delta : Int) :
    (∃ e, db.adjustSpaceUsed id delta = (.error e, db)) ∨
      ∃ table u, db.users = some table ∧ findUser table id = some u ∧ db.adjustSpaceUsed id delta =
        ((u.spaceUsed.add delta).read, db.withUsers { table with
          rows := table.rows.map fun v =>
            if v.id = id then { v with spaceUsed := u.spaceUsed.add delta } else v }) := by
  unfold adjustSpaceUsed
  cases hu : db.users with
  | none => exact Or.inl ⟨_, by simp only [Database.userTable, hu]; rfl⟩
  | some table =>
    simp only [Database.userTable, hu]
    cases hf : findUser table id with
    | none => exact Or.inl ⟨_, rfl⟩
    | some u => exact Or.inr ⟨table, u, rfl, hf, rfl⟩

/-- The insertion of a folder either fails and changes nothing, or adds a folder with a new id to an owner that
    exists. -/
theorem insertFolder_cases (hw : db.IsWhole) (f : Folder) :
    (∃ e, db.insertFolder f = (.error e, db)) ∨
      (db.insertFolder f = (.ok f, db.withFolders (db.folderRows ++ [f])) ∧
        IsParent db.folderRows f.ownerId f.parent ∧ (∀ g ∈ db.folderRows, g.id ≠ f.id) ∧
        f.ownerId ∈ db.userIds) := by
  obtain ⟨table, hu, ht⟩ := hw.userTable
  simp only [insertFolder, hw.folderTable, ht]
  by_cases hp : f.parent ≠ "" ∧ (findFolder db.folderRows f.parent f.ownerId).isNone
  · exact Or.inl ⟨_, by rw [if_pos hp]⟩
  · rw [if_neg hp]
    by_cases hany : db.folderRows.any (·.id == f.id)
    · exact Or.inl ⟨_, by rw [if_pos hany]⟩
    · rw [if_neg hany]
      by_cases huser : hasUser table f.ownerId
      · refine Or.inr ⟨by simp [huser, Database.withFolders], isParent_of_find hp, by simpa using hany, ?_⟩
        rw [Database.userIds, userRows_of_users hu]
        exact hasUser_iff.mp huser
      · exact Or.inl ⟨_, by simp [huser]; rfl⟩

/-- A file is inserted only for an owner that exists. -/
theorem owner_of_insertFile {f g : File} (h : (db.insertFile f).1 = .ok g) : f.ownerId ∈ db.userIds := by
  unfold insertFile at h
  split at h
  · cases h
  · cases h
  · next rows table hrows htable =>
    split at h
    · cases h
    · split at h
      · cases h
      · next huser =>
        have hu : db.users = some table := by
          unfold Database.userTable at htable
          split at htable
          · next ht =>
            cases htable
            exact ht
          · cases htable
        rw [Database.userIds, userRows_of_users hu]
        exact hasUser_iff.mp (by simpa using huser)

end Database

namespace Statement

variable {db db' db'' : Database} {st : Statement} {p q : Statement → Prop}

/-- The database after a statement. -/
def apply (db : Database) : Statement → Database
  | createUser username quota createdAt => (db.createUser username quota createdAt).2
  | setQuota id quota => (db.setQuota id quota).2
  | adjustSpaceUsed id delta => (db.adjustSpaceUsed id delta).2
  | insertFolder f => (db.insertFolder f).2
  | deleteFolderIfEmpty id owner => (db.deleteFolderIfEmpty id owner).2
  | insertFile f => (db.insertFile f).2
  | updateFile id owner u => (db.updateFile id owner u).2
  | deleteFile id owner => (db.deleteFile id owner).2

/-- The owner whose rows a statement is about. Users are created, and their quotas set, by the keeper of the
    depot. -/
def owner? : Statement → Option Int
  | createUser _ _ _ => none
  | setQuota _ _ => none
  | adjustSpaceUsed id _ => some id
  | insertFolder f => some f.ownerId
  | deleteFolderIfEmpty _ owner => some owner
  | insertFile f => some f.ownerId
  | updateFile _ owner _ => some owner
  | deleteFile _ owner => some owner

/-- The id of the folder that a statement makes. -/
def newId? : Statement → Option String
  | insertFolder f => some f.id
  | _ => none

/-- Whether a file is inserted at most as a stub, and finished only together with a parent. -/
def IsGuarded : Statement → Prop
  | insertFile f => f.state ≠ .complete
  | updateFile _ _ u => u.isEmpty = false ∧ (u.state.isSome → u.parent.isSome)
  | _ => True

/-- A guarded statement writes in one of the shapes. -/
theorem write_apply (hw : db.IsWhole) (h : st.IsGuarded) : Write db (st.apply db) := by
  cases st with
  | createUser username quota createdAt => exact .users (onlyUsers_createUser db username quota createdAt)
  | setQuota id quota => exact .users (onlyUsers_setQuota db id quota)
  | adjustSpaceUsed id delta => exact .users (onlyUsers_adjustSpaceUsed db id delta)
  | insertFolder f => exact write_insertFolder hw f
  | deleteFolderIfEmpty id owner => exact write_deleteFolderIfEmpty hw id owner
  | insertFile f => exact write_insertFile hw f h
  | updateFile id owner u => exact write_updateFile hw id owner h.1 h.2
  | deleteFile id owner => exact write_deleteFile hw id owner

/-- A statement makes no folder but the one that it names. -/
theorem mem_folderRows_apply (hw : db.IsWhole) {f : Folder}
    (hf : f ∈ (st.apply db).folderRows) : f ∈ db.folderRows ∨ st.newId? = some f.id := by
  cases st with
  | createUser username quota createdAt =>
    rw [apply, (onlyUsers_createUser db username quota createdAt).folderRows] at hf
    exact Or.inl hf
  | setQuota id quota =>
    rw [apply, (onlyUsers_setQuota db id quota).folderRows] at hf
    exact Or.inl hf
  | adjustSpaceUsed id delta =>
    rw [apply, (onlyUsers_adjustSpaceUsed db id delta).folderRows] at hf
    exact Or.inl hf
  | insertFolder g =>
    rcases insertFolder_cases hw g with ⟨e, he⟩ | ⟨hok, -⟩
    · rw [apply, he] at hf
      exact Or.inl hf
    · rw [apply, hok] at hf
      rcases List.mem_append.mp hf with hf | hf
      · exact Or.inl hf
      · rw [List.mem_singleton.mp hf]
        exact Or.inr rfl
  | deleteFolderIfEmpty id owner =>
    rw [apply, deleteFolderIfEmpty_eq hw] at hf
    split at hf
    · exact Or.inl (mem_foldersWithout.mp hf).1
    · exact Or.inl hf
  | insertFile g =>
    rcases insertFile_cases hw g with ⟨e, he⟩ | ⟨hok, -⟩
    · rw [apply, he] at hf
      exact Or.inl hf
    · rw [apply, hok] at hf
      exact Or.inl hf
  | updateFile id owner u =>
    by_cases hu : u.isEmpty = true
    · rw [apply, Database.updateFile, if_pos hu] at hf
      exact Or.inl hf
    · rcases updateFile_cases hw id owner (by simpa using hu) with ⟨g, -, -, hok⟩ | ⟨hsame, -⟩
      · rw [apply, hok] at hf
        exact Or.inl hf
      · rw [apply, hsame] at hf
        exact Or.inl hf
  | deleteFile id owner =>
    rw [apply, deleteFile_eq hw] at hf
    exact Or.inl hf

/-- No statement gives an id twice or makes rows of users that do not exist, whatever it is told to write. Only
    the creation of a user relies on the ids that were given before. -/
theorem lawful_apply (h : db.Lawful) (hn : st.owner? = none → db.Numbered) : (st.apply db).Lawful := by
  cases st with
  | createUser username quota createdAt =>
    rcases createUser_cases db username quota createdAt with ⟨e, he⟩ | ⟨table, hu, hok⟩
    · rw [apply, he]
      exact h
    · rw [apply, hok]
      have hids := h.userIds
      rw [Database.userIds, userRows_of_users hu] at hids
      have hnew : ∀ u ∈ table.rows, u.id ≠ table.lastId + 1 := by
        intro u hmem
        have := hn rfl table hu u hmem
        omega
      refine h.withUsers (nodup_ids_append hids hnew) ?_
      intro id hid
      rw [Database.userIds, userRows_of_users hu] at hid
      rw [List.map_append]
      exact List.mem_append_left _ hid
  | setQuota id quota =>
    rcases setQuota_cases db id quota with ⟨e, he⟩ | ⟨table, hu, hok⟩
    · rw [apply, he]
      exact h
    · rw [apply, hok]
      exact h.withUsers_map hu (fun u => by split <;> rfl) _
  | adjustSpaceUsed id delta =>
    rcases adjustSpaceUsed_cases db id delta with ⟨e, he⟩ | ⟨table, u, hu, -, hok⟩
    · rw [apply, he]
      exact h
    · rw [apply, hok]
      exact h.withUsers_map hu (fun u => by split <;> rfl) _
  | insertFolder f =>
    rcases insertFolder_cases h.whole f with ⟨e, he⟩ | ⟨hok, -, hnew, hown⟩
    · rw [apply, he]
      exact h
    · rw [apply, hok]
      refine h.withFolders (nodup_ids_append h.folderIds hnew) ?_
      intro g hg
      rcases List.mem_append.mp hg with hg | hg
      · exact h.folderOwners g hg
      · rwa [List.mem_singleton.mp hg]
  | deleteFolderIfEmpty id owner =>
    rw [apply, deleteFolderIfEmpty_eq h.whole]
    split
    · refine h.withFolders (h.folderIds.sublist (List.filter_sublist.map _)) ?_
      intro g hg
      exact h.folderOwners g (List.mem_filter.mp hg).1
    · exact h
  | insertFile f =>
    rcases insertFile_cases h.whole f with ⟨e, he⟩ | ⟨hok, hnew⟩
    · rw [apply, he]
      exact h
    · have hown : f.ownerId ∈ db.userIds := owner_of_insertFile (g := f) (by rw [hok])
      rw [apply, hok]
      refine h.withFiles (nodup_ids_append h.fileIds hnew) ?_
      intro g hg
      rcases List.mem_append.mp hg with hg | hg
      · exact h.fileOwners g hg
      · rwa [List.mem_singleton.mp hg]
  | updateFile id owner u =>
    by_cases hu : u.isEmpty = true
    · rw [apply, Database.updateFile, if_pos hu]
      exact h
    · rcases updateFile_cases h.whole id owner (by simpa using hu) with ⟨f, -, -, hok⟩ | ⟨hsame, -⟩
      · rw [apply, hok]
        refine h.withFiles ?_ ?_
        · rw [map_id_updatedRows]
          exact h.fileIds
        · intro g hg
          obtain ⟨g', hg', ⟨-, -, rfl⟩ | ⟨-, rfl⟩⟩ := mem_updatedRows.mp hg
          · rw [u.apply_ownerId]
            exact h.fileOwners g' hg'
          · exact h.fileOwners g hg'
      · rw [apply, hsame]
        exact h
  | deleteFile id owner =>
    rw [apply, deleteFile_eq h.whole]
    refine h.withFiles (h.fileIds.sublist (List.filter_sublist.map _)) ?_
    intro g hg
    exact h.fileOwners g (List.mem_filter.mp hg).1

/-- Whether a statement is about folders or files. -/
def IsOnTrees : Statement → Prop
  | createUser _ _ _ => False
  | setQuota _ _ => False
  | adjustSpaceUsed _ _ => False
  | _ => True

/-- A statement about folders or files leaves the users alone. -/
theorem users_apply_of_isOnTrees (hw : db.IsWhole) (h : st.IsOnTrees) : (st.apply db).users = db.users := by
  cases st with
  | createUser username quota createdAt => exact h.elim
  | setQuota id quota => exact h.elim
  | adjustSpaceUsed id delta => exact h.elim
  | insertFolder f =>
    rcases insertFolder_cases hw f with ⟨e, he⟩ | ⟨hok, -⟩
    · rw [apply, he]
    · rw [apply, hok]
      rfl
  | deleteFolderIfEmpty id owner => exact (onlyFolders_deleteFolderIfEmpty db id owner).users
  | insertFile f => exact users_insertFile hw f
  | updateFile id owner u =>
    by_cases hu : u.isEmpty = true
    · rw [apply, Database.updateFile, if_pos hu]
    · exact users_updateFile hw id owner (by simpa using hu)
  | deleteFile id owner =>
    rw [apply, deleteFile_eq hw]
    rfl

/-- Users are numbered in the order in which they were created, and no other statement gives numbers. -/
theorem numbered_apply (hw : db.IsWhole) (h : db.Numbered) : (st.apply db).Numbered := by
  cases st with
  | createUser username quota createdAt =>
    rcases createUser_cases db username quota createdAt with ⟨e, he⟩ | ⟨table, hu, hok⟩
    · rw [apply, he]
      exact h
    · rw [apply, hok]
      intro table' ht' u hu'
      cases ht'
      rcases List.mem_append.mp hu' with hu' | hu'
      · have hle := h table hu u hu'
        show u.id ≤ table.lastId + 1
        omega
      · obtain rfl := List.mem_singleton.mp hu'
        exact Int.le_refl _
  | setQuota id quota =>
    rcases setQuota_cases db id quota with ⟨e, he⟩ | ⟨table, hu, hok⟩
    · rw [apply, he]
      exact h
    · rw [apply, hok]
      exact h.withUsers_map hu fun u => by split <;> rfl
  | adjustSpaceUsed id delta =>
    rcases adjustSpaceUsed_cases db id delta with ⟨e, he⟩ | ⟨table, u, hu, -, hok⟩
    · rw [apply, he]
      exact h
    · rw [apply, hok]
      exact h.withUsers_map hu fun u => by split <;> rfl
  | insertFolder f => exact h.congr (users_apply_of_isOnTrees hw trivial)
  | deleteFolderIfEmpty id owner => exact h.congr (users_apply_of_isOnTrees hw trivial)
  | insertFile f => exact h.congr (users_apply_of_isOnTrees hw trivial)
  | updateFile id owner u => exact h.congr (users_apply_of_isOnTrees hw trivial)
  | deleteFile id owner => exact h.congr (users_apply_of_isOnTrees hw trivial)

end Statement

namespace Database

variable {db db' db'' : Database} {p q : Statement → Prop}

/-- What several statements with a property can make of a database. -/
def Steps (p : Statement → Prop) : Database → Database → Prop :=
  Relation.ReflTransGen fun db db' => ∃ st : Statement, p st ∧ db' = st.apply db

namespace Steps

theorem refl (db : Database) : Steps p db db := Relation.ReflTransGen.refl

theorem trans (h : Steps p db db') (h' : Steps p db' db'') : Steps p db db'' := Relation.ReflTransGen.trans h h'

theorem one (st : Statement) (h : p st) : Steps p db (st.apply db) := .single ⟨st, h, rfl⟩

/-- What every statement keeps is kept by several. -/
theorem keeps {P : Database → Prop} (h : Steps p db db') (hp : P db)
    (hstep : ∀ db (st : Statement), p st → P db → P (st.apply db)) : P db' := by
  induction h with
  | refl => exact hp
  | tail _ hlast ih =>
    obtain ⟨st, hst, rfl⟩ := hlast
    exact hstep _ st hst ih

theorem lawful (h : Steps p db db') (hown : ∀ st, p st → st.owner? ≠ none) (hl : db.Lawful) : db'.Lawful :=
  h.keeps hl fun _ st hst hl => st.lawful_apply hl fun hnone => absurd hnone (hown st hst)

theorem lawful_numbered (h : Steps p db db') (hl : db.Lawful ∧ db.Numbered) : db'.Lawful ∧ db'.Numbered :=
  h.keeps (P := fun db => db.Lawful ∧ db.Numbered) hl fun _ st _ hl =>
    ⟨st.lawful_apply hl.1 fun _ => hl.2, st.numbered_apply hl.1.whole hl.2⟩

theorem sound (h : Steps p db db') (hg : ∀ st, p st → st.IsGuarded) (hs : db.Sound) : db'.Sound :=
  h.keeps hs fun _ st hst hs => (st.write_apply hs.whole (hg st hst)).sound hs

end Steps

end Database

end FileDepot
