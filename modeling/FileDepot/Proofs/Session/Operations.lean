import FileDepot.Proofs.Session.System

/-!
# The operations of a session

What operations do to the records and contents of files. Most leave them alone; a file is given another name,
or taken away together with its content, only when its upload was finished.
-/

namespace FileDepot

open BlobPath Database

namespace Depot

variable {d d' : Depot} {owner : Int} {id : String} {f : File}

/-- Neither records of files nor contents are changed. -/
structure SameFiles (d d' : Depot) : Prop where
  whole : d.db.IsWhole → d'.db.IsWhole
  files : d'.db.files = d.db.files
  blobs : d'.blobs = d.blobs

theorem SameFiles.refl (d : Depot) : SameFiles d d := ⟨fun h => h, rfl, rfl⟩

theorem SameFiles.fileRows (h : SameFiles d d') : d'.db.fileRows = d.db.fileRows := by
  rw [Database.fileRows, Database.fileRows, h.files]

theorem SameFiles.orderly (h : SameFiles d d') (ho : d.Orderly) : d'.Orderly :=
  ⟨h.whole ho.whole, h.fileRows ▸ ho.unique, h.blobs ▸ ho.tidy⟩

theorem sameFiles_of_onlyUsers {db : Database} (h : OnlyUsers d.db db) : SameFiles d { d with db } :=
  ⟨h.whole, h.files, rfl⟩

theorem sameFiles_of_onlyFolders {db : Database} (h : OnlyFolders d.db db) : SameFiles d { d with db } :=
  ⟨h.whole, h.files, rfl⟩

/-- The removal of a folder makes one statement at most. -/
theorem db_deleteFolder (db : Database) (owner : Int) (ref : String) :
    (db.deleteFolder owner ref).2 = db ∨
      (db.deleteFolder owner ref).2 = (db.deleteFolderIfEmpty (FolderRef.normalize ref) owner).2 := by
  simp only [deleteFolder]
  split
  · exact Or.inl rfl
  · split
    · exact Or.inl rfl
    · exact Or.inl rfl
    · right
      rcases hr : db.deleteFolderIfEmpty (FolderRef.normalize ref) owner with ⟨result, db'⟩
      cases result with
      | error e => rfl
      | ok removed =>
        cases removed with
        | true => rfl
        | false =>
          simp only
          split <;> rfl

theorem onlyFolders_deleteFolder (db : Database) (owner : Int) (ref : String) :
    OnlyFolders db (db.deleteFolder owner ref).2 := by
  rcases db_deleteFolder db owner ref with hsame | hdelete
  · rw [hsame]
    exact .refl db
  · rw [hdelete]
    exact onlyFolders_deleteFolderIfEmpty db (FolderRef.normalize ref) owner

/-- And so does the renaming of a file. -/
theorem db_rename (d : Depot) (owner : Int) (id name : String) :
    (d.rename owner id name).2 = d ∨ ∃ name', (d.rename owner id name).2 =
      { d with db := (d.db.updateFile id owner { FileUpdate.none with name := some name' }).2 } := by
  unfold rename
  split
  · exact Or.inl rfl
  · next name' _ =>
    split
    · exact Or.inl rfl
    · right
      refine ⟨name', ?_⟩
      rcases hr : d.db.updateFile id owner { FileUpdate.none with name := some name' } with ⟨result, db⟩
      cases result with
      | error e => rfl
      | ok found => cases found <;> rfl

/-- Every finished file has a content, in a place that can be reached. -/
def Contentful (d : Depot) : Prop :=
  ∀ f ∈ d.db.fileRows, f.state = .complete →
    IsSegment f.id ∧ ∃ content, d.blobs.get? (ofIds f.ownerId f.id) = some (.blob content)

theorem file_some (hw : d.db.IsWhole) (h : d.file owner id = .ok f) :
    f ∈ d.db.fileRows ∧ f.id = id ∧ f.ownerId = owner ∧ f.state = .complete := by
  unfold file at h
  split at h
  · cases h
  · cases h
  · next g hg =>
    cases h
    exact completeFile_some hw hg

theorem file_of_mem (ho : d.Orderly) (hf : f ∈ d.db.fileRows) (hs : f.state = .complete) :
    d.file f.ownerId f.id = .ok f := by
  rw [file, completeFile_of_mem ho.whole ho.unique hf hs]

/-- The content of a finished file is what a download of it opens. -/
theorem openDownload_of_mem (ho : d.Orderly) (hf : f ∈ d.db.fileRows) (hs : f.state = .complete)
    (hid : IsSegment f.id) {content : Bytes}
    (hg : d.blobs.get? (ofIds f.ownerId f.id) = some (.blob content)) :
    d.openDownload f.ownerId f.id = .ok ⟨f, .blob content⟩ := by
  rw [openDownload, file_of_mem ho hf hs]
  simp only [ho.tidy.open?_blob hid hg]

/-- A finished file gets a name that passes the rule. -/
theorem rename_of_file (ho : d.Orderly) {f : File} (hf : d.file owner id = .ok f) {name name' : String}
    (hname : Name.require name = .ok name') :
    d.rename owner id name = (.ok { f with name := name' },
      ⟨d.db.withFiles (updatedRows d.db.fileRows id owner { FileUpdate.none with name := some name' }),
        d.blobs⟩) := by
  obtain ⟨hmem, rfl, rfl, hs⟩ := file_some ho.whole hf
  have hallowed : d.db.allowsParent f.ownerId { FileUpdate.none with name := some name' } = .ok true := rfl
  have happly : ({ FileUpdate.none with name := some name' } : FileUpdate).apply f = { f with name := name' } := rfl
  have hupdate := updateFile_eq ho.whole f.id f.ownerId (u := { FileUpdate.none with name := some name' }) rfl
  rw [findFile_of_mem ho.unique hmem, hallowed] at hupdate
  simp only [happly, File.read, hs] at hupdate
  simp only [rename, hname, hf, hupdate, Except.map, hs]

/-- A file gets another name, or nothing is changed. -/
theorem rename_cases (ho : d.Orderly) (owner : Int) (id name : String) :
    (d.rename owner id name).2 = d ∨
      ∃ f ∈ d.db.fileRows, f.id = id ∧ f.ownerId = owner ∧ f.state = .complete ∧
        ∃ name', (d.rename owner id name).2 =
          ⟨d.db.withFiles (updatedRows d.db.fileRows id owner { FileUpdate.none with name := some name' }),
            d.blobs⟩ := by
  cases hname : Name.require name with
  | error cause =>
    left
    simp only [rename, hname]
  | ok name' =>
    cases hf : d.file owner id with
    | error cause =>
      left
      simp only [rename, hname, hf]
    | ok f =>
      obtain ⟨hmem, hid, hown, hs⟩ := file_some ho.whole hf
      refine Or.inr ⟨f, hmem, hid, hown, hs, name', ?_⟩
      rw [rename_of_file ho hf hname]

/-- A file that cannot be read is not deleted. -/
theorem delete_of_error {e : Error} (h : d.file owner id = .error e) :
    d.delete owner id = (.error e, d) := by
  unfold delete
  rw [Deletion.run]
  simp only [Deletion.step, h]
  rw [Deletion.run]

/-- A file whose content is stuck is not deleted. -/
theorem delete_of_stuck (hw : d.db.IsWhole) (h : d.file owner id = .ok f) {e : BlobError}
    (hb : d.blobs.remove (ofFile owner id) = .error e) (hne : ∀ rel, e ≠ .notFound rel) :
    d.delete owner id = (.error (.blob e), d) := by
  obtain ⟨-, rfl, -, -⟩ := file_some hw h
  unfold delete
  rw [Deletion.run]
  simp only [Deletion.step, h]
  rw [Deletion.run]
  simp only [Deletion.step, hb]
  rw [Deletion.run]

/-- A file whose content can be removed, or is gone already, is taken away, and then its bytes are given back. -/
theorem delete_of_removable (hw : d.db.IsWhole) (h : d.file owner id = .ok f) {blobs : BlobTree}
    (hb : d.blobs.remove (ofFile owner id) = .ok blobs ∨
      blobs = d.blobs ∧ ∃ rel, d.blobs.remove (ofFile owner id) = .error (.notFound rel)) :
    d.delete owner id =
      let released := (d.db.withFiles (d.db.fileRows.filter fun g => !isFile id owner g)).adjustSpaceUsed
        owner (Deletion.opposite f.size)
      (released.1.map fun _ => f, ⟨released.2, blobs⟩) := by
  obtain ⟨hmem, rfl, rfl, hs⟩ := file_some hw h
  have hany : d.db.fileRows.any (isFile f.id f.ownerId) = true :=
    List.any_eq_true.mpr ⟨f, hmem, isFile_iff.mpr ⟨rfl, rfl⟩⟩
  have hremoved : Deletion.step f.ownerId f.id d (.removeBlob f) = (.removeRow f, { d with blobs }) := by
    rcases hb with hok | ⟨rfl, rel, hgone⟩
    · simp only [Deletion.step, hok]
    · simp only [Deletion.step, hgone]
  unfold delete
  rw [Deletion.run]
  simp only [Deletion.step, h]
  rw [Deletion.run, hremoved]
  simp only
  rw [Deletion.run]
  simp only [Deletion.step, deleteFile_eq hw, hany]
  rw [Deletion.run]
  simp only [Deletion.step]
  split
  · next e db hr =>
    rw [Deletion.run, hr]
    rfl
  · next n db hr =>
    rw [Deletion.run, hr]
    rfl

/-- A finished file is taken away together with its content, and then its bytes are given back. -/
theorem delete_of_file (ho : d.Orderly) (hc : d.Contentful) (h : d.file owner id = .ok f) :
    d.delete owner id =
      let released := (d.db.withFiles (d.db.fileRows.filter fun g => !isFile id owner g)).adjustSpaceUsed
        owner (Deletion.opposite f.size)
      (released.1.map fun _ => f, ⟨released.2, d.blobs.erase (ofIds owner id)⟩) := by
  obtain ⟨hmem, rfl, rfl, hs⟩ := file_some ho.whole h
  obtain ⟨hid, content, hg⟩ := hc f hmem hs
  exact delete_of_removable ho.whole h (Or.inl (ho.tidy.remove_blob hid hg))

/-- The counter of an owner can be missing, but not as a file. -/
theorem adjustSpaceUsed_ne_notFound (db : Database) (id delta : Int) :
    (db.adjustSpaceUsed id delta).1 ≠ .error (.notFound "file") := by
  unfold adjustSpaceUsed userTable
  cases db.users with
  | none => simp [missingTable]
  | some table =>
    simp only
    cases findUser table id with
    | none => simp
    | some u =>
      simp only [Counter.read]
      split <;> simp

end Depot

namespace Operation

open Depot

/-- Every operation but the renaming and the deletion of files leaves files alone. -/
theorem run_cases (d : Depot) (op : Operation) :
    SameFiles d (op.run d).2 ∨ (∃ owner id name, op = .rename owner id name) ∨
      ∃ owner id, op = .delete owner id := by
  cases op with
  | createUser username quota createdAt =>
    exact Or.inl (sameFiles_of_onlyUsers (onlyUsers_createUser d.db username quota createdAt))
  | setQuota id quota => exact Or.inl (sameFiles_of_onlyUsers (onlyUsers_setQuota d.db id quota))
  | createFolder owner name parent id createdAt =>
    exact Or.inl (sameFiles_of_onlyFolders (onlyFolders_createFolder d.db owner name parent id createdAt))
  | deleteFolder owner ref => exact Or.inl (sameFiles_of_onlyFolders (onlyFolders_deleteFolder d.db owner ref))
  | rename owner id name => exact Or.inr (Or.inl ⟨owner, id, name, rfl⟩)
  | delete owner id => exact Or.inr (Or.inr ⟨owner, id, rfl⟩)
  | _ => exact Or.inl (.refl d)

end Operation

end FileDepot
