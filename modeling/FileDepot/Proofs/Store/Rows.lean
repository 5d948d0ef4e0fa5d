import FileDepot.Folders
import Mathlib.Data.List.Basic
import Mathlib.Data.List.Nodup

/-!
# Statements on the rows

A database with all of its tables, and what each statement on the files leaves in such a database: the rows
that were there, and in which way one of them has changed.
-/

namespace FileDepot

namespace Database

variable {db db' : Database} {id : String} {owner : Int} {u : FileUpdate} {f : File}

/-- The rows of the table of files. -/
def fileRows (db : Database) : List File := db.files.getD []

/-- The rows of the table of folders. -/
def folderRows (db : Database) : List Folder := db.folders.getD []

/-- The database with other rows in the table of files. -/
def withFiles (db : Database) (rows : List File) : Database := { db with files := some rows }

/-- The database with other rows in the table of folders. -/
def withFolders (db : Database) (rows : List Folder) : Database := { db with folders := some rows }

/-- A database that has all of its tables. -/
structure IsWhole (db : Database) : Prop where
  users : db.users.isSome = true
  folders : db.folders.isSome = true
  files : db.files.isSome = true

/-- A statement that changes at most the table of users. -/
structure OnlyUsers (db db' : Database) : Prop where
  versions : db'.versions = db.versions
  surroundings : db'.surroundings = db.surroundings
  folders : db'.folders = db.folders
  files : db'.files = db.files
  whole : db.IsWhole → db'.IsWhole

/-- A statement that changes at most the table of folders. -/
structure OnlyFolders (db db' : Database) : Prop where
  users : db'.users = db.users
  files : db'.files = db.files
  whole : db.IsWhole → db'.IsWhole

@[simp] theorem fileRows_withFiles (db : Database) (rows : List File) :
    (db.withFiles rows).fileRows = rows := rfl

@[simp] theorem folderRows_withFiles (db : Database) (rows : List File) :
    (db.withFiles rows).folderRows = db.folderRows := rfl

@[simp] theorem fileRows_withFolders (db : Database) (rows : List Folder) :
    (db.withFolders rows).fileRows = db.fileRows := rfl

@[simp] theorem folderRows_withFolders (db : Database) (rows : List Folder) :
    (db.withFolders rows).folderRows = rows := rfl

@[simp] theorem fileRows_withUsers (db : Database) (table : UserTable) :
    (db.withUsers table).fileRows = db.fileRows := rfl

@[simp] theorem folderRows_withUsers (db : Database) (table : UserTable) :
    (db.withUsers table).folderRows = db.folderRows := rfl

theorem isWhole_fresh : fresh.IsWhole := ⟨rfl, rfl, rfl⟩

namespace IsWhole

theorem fileTable (h : db.IsWhole) : db.fileTable = .ok db.fileRows := by
  obtain ⟨rows, hr⟩ := Option.isSome_iff_exists.mp h.files
  simp [Database.fileTable, fileRows, hr]

theorem folderTable (h : db.IsWhole) : db.folderTable = .ok db.folderRows := by
  obtain ⟨rows, hr⟩ := Option.isSome_iff_exists.mp h.folders
  simp [Database.folderTable, folderRows, hr]

theorem userTable (h : db.IsWhole) : ∃ table, db.users = some table ∧ db.userTable = .ok table := by
  obtain ⟨table, ht⟩ := Option.isSome_iff_exists.mp h.users
  exact ⟨table, ht, by simp [Database.userTable, ht]⟩

theorem withFiles (h : db.IsWhole) (rows : List File) : (db.withFiles rows).IsWhole :=
  ⟨h.users, h.folders, rfl⟩

theorem withFolders (h : db.IsWhole) (rows : List Folder) : (db.withFolders rows).IsWhole :=
  ⟨h.users, rfl, h.files⟩

end IsWhole

/-- The same rows make the same database. -/
theorem withFiles_self (hw : db.IsWhole) : db.withFiles db.fileRows = db := by
  obtain ⟨rows, hr⟩ := Option.isSome_iff_exists.mp hw.files
  cases db
  cases hr
  rfl

namespace OnlyUsers

theorem refl (db : Database) : OnlyUsers db db := ⟨rfl, rfl, rfl, rfl, id⟩

theorem withUsers (db : Database) (table : UserTable) : OnlyUsers db (db.withUsers table) :=
  ⟨rfl, rfl, rfl, rfl, fun h => ⟨rfl, h.folders, h.files⟩⟩

theorem fileRows (h : OnlyUsers db db') : db'.fileRows = db.fileRows := by
  rw [Database.fileRows, Database.fileRows, h.files]

theorem folderRows (h : OnlyUsers db db') : db'.folderRows = db.folderRows := by
  rw [Database.folderRows, Database.folderRows, h.folders]

end OnlyUsers

theorem onlyUsers_createUser (db : Database) (username : String) (quota : Int) (createdAt : String) :
    OnlyUsers db (db.createUser username quota createdAt).2 := by
  unfold createUser
  split
  · exact .refl db
  · split
    · exact .refl db
    · split
      · exact .refl db
      · exact .withUsers db _

theorem onlyUsers_setQuota (db : Database) (id quota : Int) : OnlyUsers db (db.setQuota id quota).2 := by
  unfold setQuota
  split
  · exact .refl db
  · split
    · exact .refl db
    · exact .withUsers db _

theorem onlyUsers_adjustSpaceUsed (db : Database) (id delta : Int) :
    OnlyUsers db (db.adjustSpaceUsed id delta).2 := by
  unfold adjustSpaceUsed
  split
  · exact .refl db
  · split
    · exact .refl db
    · exact .withUsers db _

namespace OnlyFolders

theorem refl (db : Database) : OnlyFolders db db := ⟨rfl, rfl, id⟩

theorem withFolders (db : Database) (rows : List Folder) : OnlyFolders db (db.withFolders rows) :=
  ⟨rfl, rfl, fun h => h.withFolders rows⟩

theorem fileRows (h : OnlyFolders db db') : db'.fileRows = db.fileRows := by
  rw [Database.fileRows, Database.fileRows, h.files]

end OnlyFolders

theorem onlyFolders_createFolder (db : Database) (owner : Int) (name parent id createdAt : String) :
    OnlyFolders db (db.createFolder owner name parent id createdAt).2 := by
  unfold createFolder
  split
  · exact .refl db
  · unfold insertFolder
    split
    · exact .refl db
    · exact .refl db
    · split
      · exact .refl db
      · split
        · exact .refl db
        · split
          · exact .refl db
          · exact .withFolders db _

theorem onlyFolders_deleteFolderIfEmpty (db : Database) (id : String) (owner : Int) :
    OnlyFolders db (db.deleteFolderIfEmpty id owner).2 := by
  unfold deleteFolderIfEmpty
  split
  · exact .refl db
  · exact .refl db
  · exact .refl db
  · split
    · exact .withFolders db _
    · exact .refl db

/-! ## Single rows -/

theorem isFile_iff : isFile id owner f = true ↔ f.id = id ∧ f.ownerId = owner := by
  simp [isFile]

theorem findFile_some {rows : List File} (h : findFile rows id owner = some f) :
    f ∈ rows ∧ f.id = id ∧ f.ownerId = owner := by
  have hf := List.find?_some h
  simp only [Bool.and_eq_true, beq_iff_eq] at hf
  exact ⟨List.mem_of_find?_eq_some h, hf⟩

theorem findFile_isSome {rows : List File} (hf : f ∈ rows) (hid : f.id = id) (hown : f.ownerId = owner) :
    ∃ g, findFile rows id owner = some g := by
  rw [← Option.isSome_iff_exists, findFile, List.find?_isSome]
  exact ⟨f, hf, by simp [hid, hown]⟩

/-- Where ids are unique, a row is found under its own id. -/
theorem findFile_of_mem {rows : List File} (hn : (rows.map File.id).Nodup) (hf : f ∈ rows) :
    findFile rows f.id f.ownerId = some f := by
  obtain ⟨g, hg⟩ := findFile_isSome hf rfl rfl
  obtain ⟨hmem, hid, -⟩ := findFile_some hg
  rw [hg, List.inj_on_of_nodup_map hn hmem hf hid]

theorem findFolder_some {rows : List Folder} {g : Folder} (h : findFolder rows id owner = some g) :
    g ∈ rows ∧ g.id = id ∧ g.ownerId = owner := by
  have hf := List.find?_some h
  simp only [Bool.and_eq_true, beq_iff_eq] at hf
  exact ⟨List.mem_of_find?_eq_some h, hf⟩

theorem findFolder_isSome_iff {rows : List Folder} :
    (findFolder rows id owner).isSome = true ↔ ∃ g ∈ rows, g.id = id ∧ g.ownerId = owner := by
  simp [findFolder]

/-- The rows after an update of the file of an owner with the given id. -/
def updatedRows (rows : List File) (id : String) (owner : Int) (u : FileUpdate) : List File :=
  rows.map fun f => if isFile id owner f then u.apply f else f

theorem map_id_updatedRows (rows : List File) (id : String) (owner : Int) (u : FileUpdate) :
    (updatedRows rows id owner u).map File.id = rows.map File.id := by
  rw [updatedRows, List.map_map]
  refine List.map_congr_left fun f _ => ?_
  simp only [Function.comp]
  split
  · exact u.apply_id f
  · rfl

theorem mem_updatedRows {rows : List File} :
    f ∈ updatedRows rows id owner u ↔
      ∃ g ∈ rows, (g.id = id ∧ g.ownerId = owner ∧ f = u.apply g) ∨
        (¬ (g.id = id ∧ g.ownerId = owner) ∧ f = g) := by
  simp only [updatedRows, List.mem_map]
  constructor
  · rintro ⟨g, hg, rfl⟩
    refine ⟨g, hg, ?_⟩
    by_cases h : g.id = id ∧ g.ownerId = owner
    · rw [if_pos (isFile_iff.mpr h)]
      exact Or.inl ⟨h.1, h.2, rfl⟩
    · rw [if_neg (fun hh => h (isFile_iff.mp hh))]
      exact Or.inr ⟨h, rfl⟩
  · rintro ⟨g, hg, ⟨hid, hown, rfl⟩ | ⟨hne, rfl⟩⟩
    · exact ⟨g, hg, if_pos (isFile_iff.mpr ⟨hid, hown⟩)⟩
    · exact ⟨f, hg, if_neg (fun hh => hne (isFile_iff.mp hh))⟩

/-- A row with a new id is added to rows with different ids. -/
theorem nodup_ids_append {α ι : Type} {idOf : α → ι} {rows : List α} {row : α} (hn : (rows.map idOf).Nodup)
    (hnew : ∀ r ∈ rows, idOf r ≠ idOf row) : ((rows ++ [row]).map idOf).Nodup := by
  rw [List.map_append, List.nodup_append]
  refine ⟨hn, List.nodup_singleton _, ?_⟩
  intro id hid id' hid'
  obtain ⟨r, hr, rfl⟩ := List.mem_map.mp hid
  rw [List.mem_singleton.mp hid']
  exact hnew r hr

/-- Rows with another id are passed over by an update. -/
theorem filter_updatedRows (rows : List File) (id : String) (owner : Int) (u : FileUpdate) :
    (updatedRows rows id owner u).filter (·.id != id) = rows.filter (·.id != id) := by
  induction rows with
  | nil => rfl
  | cons f rest ih =>
    simp only [updatedRows, List.map_cons] at ih ⊢
    by_cases h : f.id = id
    · have hid : (if isFile id owner f then u.apply f else f).id = id := by
        split
        · rw [u.apply_id, h]
        · exact h
      rw [List.filter_cons_of_neg (by simp [hid]), List.filter_cons_of_neg (by simp [h]), ih]
    · rw [if_neg (fun hh => h (isFile_iff.mp hh).1), List.filter_cons_of_pos (by simpa using h),
        List.filter_cons_of_pos (by simpa using h), ih]

/-- Where ids are unique, a row stands between rows that neither an update nor a removal of it reaches. -/
theorem rows_around {rows : List File} (hn : (rows.map File.id).Nodup) (hf : f ∈ rows) :
    ∃ before after, rows = before ++ f :: after ∧
      (∀ u, updatedRows rows f.id f.ownerId u = before ++ u.apply f :: after) ∧
      (rows.filter fun g => !isFile f.id f.ownerId g) = before ++ after := by
  obtain ⟨before, after, rfl⟩ := List.append_of_mem hf
  rw [List.map_append, List.map_cons, List.nodup_middle, List.nodup_cons, ← List.map_append] at hn
  have hother : ∀ g ∈ before ++ after, isFile f.id f.ownerId g = false := by
    intro g hg
    by_contra hself
    have hid : g.id = f.id := (isFile_iff.mp (by simpa using hself)).1
    exact hn.1 (List.mem_map.mpr ⟨g, hg, hid⟩)
  have hself : isFile f.id f.ownerId f = true := isFile_iff.mpr ⟨rfl, rfl⟩
  refine ⟨before, after, rfl, ?_, ?_⟩
  · intro u
    have hkeep : ∀ l : List File, (∀ g ∈ l, isFile f.id f.ownerId g = false) →
        (l.map fun g => if isFile f.id f.ownerId g then u.apply g else g) = l := by
      intro l hl
      refine (List.map_congr_left fun g hg => ?_).trans (List.map_id l)
      simp [hl g hg]
    rw [updatedRows, List.map_append, List.map_cons, if_pos hself,
      hkeep before fun g hg => hother g (List.mem_append_left _ hg),
      hkeep after fun g hg => hother g (List.mem_append_right _ hg)]
  · have hkeep : ∀ l : List File, (∀ g ∈ l, isFile f.id f.ownerId g = false) →
        (l.filter fun g => !isFile f.id f.ownerId g) = l := by
      intro l hl
      refine List.filter_eq_self.mpr fun g hg => ?_
      simp [hl g hg]
    rw [List.filter_append, List.filter_cons_of_neg (by simp [hself]),
      hkeep before fun g hg => hother g (List.mem_append_left _ hg),
      hkeep after fun g hg => hother g (List.mem_append_right _ hg)]

/-! ## Statements on files -/

/-- The insertion of a file either fails and changes nothing, or adds a row with a new id. -/
theorem insertFile_cases (hw : db.IsWhole) (f : File) :
    (∃ e, db.insertFile f = (.error e, db)) ∨
      (db.insertFile f = (.ok f, db.withFiles (db.fileRows ++ [f])) ∧ ∀ g ∈ db.fileRows, g.id ≠ f.id) := by
  obtain ⟨table, -, ht⟩ := hw.userTable
  simp only [insertFile, hw.fileTable, ht]
  by_cases hany : db.fileRows.any (·.id == f.id)
  · exact Or.inl ⟨_, by rw [if_pos hany]⟩
  · by_cases huser : hasUser table f.ownerId
    · refine Or.inr ⟨by simp [hany, huser, withFiles], ?_⟩
      simpa using hany
    · exact Or.inl ⟨_, by simp [hany, huser]; rfl⟩

theorem updateFile_eq (hw : db.IsWhole) (id : String) (owner : Int) (hu : u.isEmpty = false) :
    db.updateFile id owner u =
      match db.allowsParent owner u, findFile db.fileRows id owner with
      | .error e, _ => (.error e, db)
      | .ok _, none => (.ok none, db)
      | .ok true, some f => ((u.apply f).read.map some, db.withFiles (updatedRows db.fileRows id owner u))
      | .ok false, some _ => (.ok none, db) := by
  rw [updateFile, hu, hw.fileTable]
  cases db.allowsParent owner u with
  | error e => rfl
  | ok allowed =>
    cases hf : findFile db.fileRows id owner with
    | none => simp only [hf]; rfl
    | some f => cases allowed <;> simp only [hf] <;> rfl

/-- An update either finds the file and may write to it, or changes nothing and reads nothing. -/
theorem updateFile_cases (hw : db.IsWhole) (id : String) (owner : Int) (hu : u.isEmpty = false) :
    (∃ f, findFile db.fileRows id owner = some f ∧ db.allowsParent owner u = .ok true ∧
        db.updateFile id owner u =
          ((u.apply f).read.map some, db.withFiles (updatedRows db.fileRows id owner u))) ∨
      ((db.updateFile id owner u).2 = db ∧ ∀ f, (db.updateFile id owner u).1 ≠ .ok (some f)) := by
  rw [updateFile_eq hw id owner hu]
  cases ha : db.allowsParent owner u with
  | error e =>
    right
    simp
  | ok allowed =>
    cases hf : findFile db.fileRows id owner with
    | none =>
      right
      cases allowed <;> simp
    | some f =>
      cases allowed with
      | false =>
        right
        simp
      | true => exact Or.inl ⟨f, rfl, rfl, rfl⟩

/-- The file of an owner with the given id is removed, and nothing else. -/
theorem deleteFile_eq (hw : db.IsWhole) (id : String) (owner : Int) :
    db.deleteFile id owner =
      (.ok (db.fileRows.any (isFile id owner)),
        db.withFiles (db.fileRows.filter fun f => !isFile id owner f)) := by
  obtain ⟨table, -, ht⟩ := hw.userTable
  simp only [deleteFile, hw.fileTable, ht]
  rfl

theorem users_insertFile (hw : db.IsWhole) (f : File) : (db.insertFile f).2.users = db.users := by
  rcases insertFile_cases hw f with ⟨e, he⟩ | ⟨hok, -⟩
  · rw [he]
  · rw [hok]
    rfl

theorem users_updateFile (hw : db.IsWhole) (id : String) (owner : Int) (hu : u.isEmpty = false) :
    (db.updateFile id owner u).2.users = db.users := by
  rcases updateFile_cases hw id owner hu with ⟨f, -, -, hok⟩ | ⟨hsame, -⟩
  · rw [hok]
    rfl
  · rw [hsame]

/-- Where the id belongs to the owner, all rows with the id are removed. -/
theorem filter_isFile_of_owned {rows : List File} (h : ∀ f ∈ rows, f.id = id → f.ownerId = owner) :
    (rows.filter fun f => !isFile id owner f) = rows.filter (·.id != id) := by
  refine List.filter_congr fun f hf => ?_
  by_cases hid : f.id = id
  · simp [isFile, hid, h f hf hid]
  · simp [isFile, bne, beq_eq_false_iff_ne.mpr hid]

/-- A finished file is read only if there is a row of it. -/
theorem completeFile_some (hw : db.IsWhole) (h : db.completeFile id owner = .ok (some f)) :
    f ∈ db.fileRows ∧ f.id = id ∧ f.ownerId = owner ∧ f.state = .complete := by
  simp only [completeFile, fileById, hw.fileTable] at h
  cases hf : findFile db.fileRows id owner with
  | none =>
    rw [hf] at h
    cases h
  | some g =>
    rw [hf] at h
    cases hs : g.state with
    | pending => simp [File.read, hs, Except.map, Option.filter, File.isComplete] at h
    | unknown text => simp [File.read, hs, Except.map] at h
    | complete =>
      simp [File.read, hs, Except.map, Option.filter, File.isComplete] at h
      subst h
      obtain ⟨hmem, hid, hown⟩ := findFile_some hf
      exact ⟨hmem, hid, hown, hs⟩

theorem completeFile_of_mem (hw : db.IsWhole) (hn : (db.fileRows.map File.id).Nodup)
    (hf : f ∈ db.fileRows) (hs : f.state = .complete) :
    db.completeFile f.id f.ownerId = .ok (some f) := by
  simp [completeFile, fileById, hw.fileTable, findFile_of_mem hn hf, File.read, hs, Except.map,
    Option.filter, File.isComplete]

end Database

end FileDepot
