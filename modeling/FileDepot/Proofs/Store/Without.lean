import FileDepot.Folders
import FileDepot.Proofs.Store.Rows

/-!
# Statements on a database without one file

What every statement answers when the rows of one file are taken out of the database, and what it leaves. As
long as the file is a stub, nothing that reads finished files can tell the difference, and a statement on
another file does the same to all other rows.
-/

namespace FileDepot

namespace Database

variable {db : Database} {x id : String} {owner : Int}

/-- The database without the rows of the file with the given id. -/
def withoutFile (db : Database) (x : String) : Database :=
  { db with files := db.files.map fun rows => rows.filter (·.id != x) }

/-- All rows with the given id are stubs. -/
def Hidden (db : Database) (x : String) : Prop := ∀ f ∈ db.fileRows, f.id = x → f.state = .pending

theorem fileRows_withoutFile (db : Database) (x : String) :
    (db.withoutFile x).fileRows = db.fileRows.filter (·.id != x) := by
  simp only [fileRows, withoutFile]
  cases db.files <;> rfl

@[simp] theorem userTable_withoutFile (db : Database) (x : String) :
    (db.withoutFile x).userTable = db.userTable := rfl

@[simp] theorem folderTable_withoutFile (db : Database) (x : String) :
    (db.withoutFile x).folderTable = db.folderTable := rfl

theorem withoutFile_withFiles (db : Database) (rows : List File) (x : String) :
    (db.withFiles rows).withoutFile x = (db.withoutFile x).withFiles (rows.filter (·.id != x)) := rfl

/-- Without rows of the file there is nothing to take out. -/
theorem withoutFile_eq_self (h : ∀ f ∈ db.fileRows, f.id ≠ x) : db.withoutFile x = db := by
  obtain ⟨versions, users, folders, files, surroundings⟩ := db
  cases files with
  | none => rfl
  | some rows =>
    have hrows : rows.filter (·.id != x) = rows :=
      List.filter_eq_self.mpr fun f hf => by simpa using h f hf
    simp only [withoutFile, Option.map_some, hrows]

/-! ## Statements on users and folders -/

theorem createUser_withoutFile (username : String) (quota : Int) (createdAt : String) :
    (db.withoutFile x).createUser username quota createdAt =
      ((db.createUser username quota createdAt).1,
        (db.createUser username quota createdAt).2.withoutFile x) := by
  unfold createUser
  rw [userTable_withoutFile]
  split
  · rfl
  · split
    · rfl
    · split <;> rfl

theorem setQuota_withoutFile (id quota : Int) :
    (db.withoutFile x).setQuota id quota =
      ((db.setQuota id quota).1, (db.setQuota id quota).2.withoutFile x) := by
  unfold setQuota
  rw [userTable_withoutFile]
  split
  · rfl
  · split <;> rfl

theorem adjustSpaceUsed_withoutFile (id delta : Int) :
    (db.withoutFile x).adjustSpaceUsed id delta =
      ((db.adjustSpaceUsed id delta).1, (db.adjustSpaceUsed id delta).2.withoutFile x) := by
  unfold adjustSpaceUsed
  rw [userTable_withoutFile]
  split
  · rfl
  · split <;> rfl

theorem createFolder_withoutFile (owner : Int) (name parent id createdAt : String) :
    (db.withoutFile x).createFolder owner name parent id createdAt =
      ((db.createFolder owner name parent id createdAt).1,
        (db.createFolder owner name parent id createdAt).2.withoutFile x) := by
  unfold createFolder
  split
  · rfl
  · unfold insertFolder
    rw [userTable_withoutFile, folderTable_withoutFile]
    split
    · rfl
    · rfl
    · split
      · rfl
      · split
        · rfl
        · split <;> rfl

/-- A stub does not make a folder occupied. -/
theorem isOccupied_filter {rows : List File} (h : ∀ f ∈ rows, f.id = x → f.state = .pending)
    (folders : List Folder) :
    isOccupied folders (rows.filter (·.id != x)) id owner = isOccupied folders rows id owner := by
  unfold isOccupied
  congr 1
  rw [Bool.eq_iff_iff, List.any_eq_true, List.any_eq_true]
  constructor
  · rintro ⟨f, hf, hp⟩
    exact ⟨f, (List.mem_filter.mp hf).1, hp⟩
  · rintro ⟨f, hf, hp⟩
    refine ⟨f, List.mem_filter.mpr ⟨hf, ?_⟩, hp⟩
    by_contra hx
    have hs := h f hf (by simpa using hx)
    simp [hs] at hp

theorem deleteFolderIfEmpty_withoutFile (h : db.Hidden x) (id : String) (owner : Int) :
    (db.withoutFile x).deleteFolderIfEmpty id owner =
      ((db.deleteFolderIfEmpty id owner).1, (db.deleteFolderIfEmpty id owner).2.withoutFile x) := by
  obtain ⟨versions, users, folders, files, surroundings⟩ := db
  cases files with
  | none => cases folders <;> rfl
  | some rows =>
    cases folders with
    | none => rfl
    | some folders =>
      cases users with
      | none => rfl
      | some users =>
        have hrows : ∀ f ∈ rows, f.id = x → f.state = .pending := h
        simp only [deleteFolderIfEmpty, withoutFile, Option.map_some, isOccupied_filter hrows]
        by_cases hc : (findFolder folders id owner).isSome = true ∧ ¬ isOccupied folders rows id owner = true
        · simp only [if_pos hc, Option.map_some]
        · simp only [if_neg hc, Option.map_some]

theorem deleteFolder_withoutFile (h : db.Hidden x) (owner : Int) (ref : String) :
    (db.withoutFile x).deleteFolder owner ref =
      ((db.deleteFolder owner ref).1, (db.deleteFolder owner ref).2.withoutFile x) := by
  unfold deleteFolder
  have hread : ∀ (db : Database) id, (db.withoutFile x).folderById id owner = db.folderById id owner :=
    fun _ _ => rfl
  simp only [hread, deleteFolderIfEmpty_withoutFile h]
  split
  · rfl
  · split
    · rfl
    · rfl
    · cases db.deleteFolderIfEmpty (FolderRef.normalize ref) owner with
      | mk result db' =>
        cases result with
        | error e => rfl
        | ok removed =>
          cases removed with
          | true => rfl
          | false =>
            simp only [hread]
            split <;> rfl

/-! ## Statements on files -/

theorem findFile_filter {rows : List File} (hne : id ≠ x) :
    findFile (rows.filter (·.id != x)) id owner = findFile rows id owner := by
  rw [findFile, findFile, List.find?_filter]
  congr 1
  funext f
  rw [Bool.eq_iff_iff]
  by_cases hf : f.id = id
  · simp [hf, hne]
  · simp [hf]

theorem findFile_filter_self (rows : List File) :
    findFile (rows.filter (·.id != id)) id owner = none := by
  rw [findFile, List.find?_eq_none]
  intro f hf
  have := (List.mem_filter.mp hf).2
  simp_all

/-- A finished file is read alike, whether or not there is a stub of another one. -/
theorem completeFile_withoutFile (h : db.Hidden x) (id : String) (owner : Int) :
    (db.withoutFile x).completeFile id owner = db.completeFile id owner := by
  obtain ⟨versions, users, folders, files, surroundings⟩ := db
  cases files with
  | none => rfl
  | some rows =>
    simp only [completeFile, fileById, fileTable, withoutFile, Option.map_some]
    by_cases hid : id = x
    · subst hid
      rw [findFile_filter_self]
      cases hf : findFile rows id owner with
      | none => rfl
      | some f =>
        obtain ⟨hmem, hfid, -⟩ := findFile_some hf
        have hs : f.state = .pending := h f hmem hfid
        simp [File.read, hs, Except.map, Option.filter, File.isComplete]
    · rw [findFile_filter hid]

/-- Finished files are listed alike. -/
theorem filter_filter_complete {rows : List File} (h : ∀ f ∈ rows, f.id = x → f.state = .pending)
    (p : File → Bool) (hp : ∀ f, p f = true → f.state = .complete) :
    (rows.filter (·.id != x)).filter p = rows.filter p := by
  rw [List.filter_filter]
  refine List.filter_congr fun f hf => ?_
  cases hpf : p f with
  | false => simp
  | true =>
    have hs := hp f hpf
    by_cases hx : f.id = x
    · rw [h f hf hx] at hs
      cases hs
    · simpa using hx

theorem filesOf_withoutFile (h : db.Hidden x) (owner : Int) :
    (db.withoutFile x).filesOf owner = db.filesOf owner := by
  obtain ⟨versions, users, folders, files, surroundings⟩ := db
  cases files with
  | none => rfl
  | some rows =>
    have hrows : ∀ f ∈ rows, f.id = x → f.state = .pending := h
    simp only [filesOf, fileTable, withoutFile, Option.map_some, Except.map]
    rw [filter_filter_complete hrows _ (by simp)]

theorem filesUnder_withoutFile (h : db.Hidden x) (owner : Int) (parent : String) :
    (db.withoutFile x).filesUnder owner parent = db.filesUnder owner parent := by
  obtain ⟨versions, users, folders, files, surroundings⟩ := db
  cases files with
  | none => rfl
  | some rows =>
    have hrows : ∀ f ∈ rows, f.id = x → f.state = .pending := h
    simp only [filesUnder, fileTable, withoutFile, Option.map_some, Except.map]
    rw [filter_filter_complete hrows _ (by simp)]

theorem listChildren_withoutFile (h : db.Hidden x) (owner : Int) (ref : String) :
    (db.withoutFile x).listChildren owner ref = db.listChildren owner ref := by
  unfold listChildren
  simp only [folderTable_withoutFile, filesUnder_withoutFile h]
  rfl

theorem insertFile_withoutFile {f : File} (hne : f.id ≠ x) :
    (db.withoutFile x).insertFile f = ((db.insertFile f).1, (db.insertFile f).2.withoutFile x) := by
  obtain ⟨versions, users, folders, files, surroundings⟩ := db
  cases files with
  | none => rfl
  | some rows =>
    cases users with
    | none => rfl
    | some users =>
      have hany : (rows.filter (·.id != x)).any (·.id == f.id) = rows.any (·.id == f.id) := by
        rw [List.any_filter]
        congr 1
        funext g
        by_cases hg : g.id = f.id
        · simp [hg, hne]
        · simp [hg]
      simp only [insertFile, fileTable, userTable, withoutFile, Option.map_some, hany]
      by_cases htaken : rows.any (·.id == f.id)
      · simp only [htaken, if_true, Option.map_some]
      · by_cases huser : hasUser users f.ownerId
        · simp [htaken, huser, hne, List.filter_append]
        · simp [htaken, huser]

/-- An update of one file and the removal of another can be done in any order. -/
theorem filter_map_update (rows : List File) (id x : String) (owner : Int) (u : FileUpdate) :
    ((rows.filter (·.id != x)).map fun f => if isFile id owner f then u.apply f else f) =
      (rows.map fun f => if isFile id owner f then u.apply f else f).filter (·.id != x) := by
  have hid : ∀ f : File, (if isFile id owner f then u.apply f else f).id = f.id := by
    intro f
    split
    · exact u.apply_id f
    · rfl
  rw [List.filter_map]
  congr 1
  refine List.filter_congr fun f _ => ?_
  simp only [Function.comp, hid]

theorem updateFile_withoutFile (hne : id ≠ x) (owner : Int) (u : FileUpdate) :
    (db.withoutFile x).updateFile id owner u =
      ((db.updateFile id owner u).1, (db.updateFile id owner u).2.withoutFile x) := by
  have hallows : (db.withoutFile x).allowsParent owner u = db.allowsParent owner u := rfl
  obtain ⟨versions, users, folders, files, surroundings⟩ := db
  cases files with
  | none =>
    unfold updateFile
    split <;> rfl
  | some rows =>
    unfold updateFile
    rw [hallows]
    simp only [fileById, fileTable, withoutFile, Option.map_some]
    split
    · simp only [findFile_filter hne, Option.map_some]
    · cases hp : allowsParent ⟨versions, users, folders, some rows, surroundings⟩ owner u with
      | error e => rfl
      | ok allowed =>
        cases hf : findFile rows id owner with
        | none => simp only [findFile_filter hne, hf, Option.map_some]
        | some f =>
          simp only [findFile_filter hne, hf, filter_map_update]
          cases allowed with
          | false => rfl
          | true => rfl

theorem deleteFile_withoutFile (hne : id ≠ x) (owner : Int) :
    (db.withoutFile x).deleteFile id owner =
      ((db.deleteFile id owner).1, (db.deleteFile id owner).2.withoutFile x) := by
  obtain ⟨versions, users, folders, files, surroundings⟩ := db
  cases files with
  | none => rfl
  | some rows =>
    cases users with
    | none => rfl
    | some users =>
      have hany : (rows.filter (·.id != x)).any (isFile id owner) = rows.any (isFile id owner) := by
        rw [List.any_filter]
        congr 1
        funext g
        by_cases hg : g.id = id
        · simp [isFile, hg, hne]
        · simp [isFile, hg]
      simp only [deleteFile, fileTable, userTable, withoutFile, Option.map_some, hany, List.filter_filter,
        Bool.and_comm]

end Database

end FileDepot
