import FileDepot.Folders
import FileDepot.Proofs.Store.Rows

/-!
# What a statement writes

Every statement that a request makes falls under one of a few shapes. The shapes say of the folders and of the
parents of files all that the statements check before they write.
-/

namespace FileDepot

namespace Database

variable {db db' : Database} {id : String} {owner : Int} {u : FileUpdate}

/-- A parent that can be used by an owner: the top level or a folder of the owner. -/
def IsParent (folders : List Folder) (owner : Int) (parent : String) : Prop :=
  parent = "" ∨ ∃ g ∈ folders, g.id = parent ∧ g.ownerId = owner

/-- The folders without the one of an owner with the given id. -/
def foldersWithout (rows : List Folder) (id : String) (owner : Int) : List Folder :=
  rows.filter fun f => !(f.id == id && f.ownerId == owner)

theorem mem_foldersWithout {rows : List Folder} {f : Folder} :
    f ∈ foldersWithout rows id owner ↔ f ∈ rows ∧ ¬ (f.id = id ∧ f.ownerId = owner) := by
  simp [foldersWithout, imp_iff_not_or]

theorem foldersWithout_snoc (rows : List Folder) (f : Folder) (id : String) (owner : Int) :
    foldersWithout (rows ++ [f]) id owner =
      if f.id = id ∧ f.ownerId = owner then foldersWithout rows id owner
      else foldersWithout rows id owner ++ [f] := by
  simp only [foldersWithout, List.filter_append]
  split
  · next h =>
    obtain ⟨rfl, rfl⟩ := h
    simp
  · next h =>
    have hkept : f.id = id → f.ownerId ≠ owner := fun hid hown => h ⟨hid, hown⟩
    rw [List.filter_cons_of_pos (by simpa [imp_iff_not_or] using hkept), List.filter_nil]

/-- Nothing that can be seen lies in the folder: no other folder and no finished file. -/
structure IsBare (db : Database) (id : String) (owner : Int) : Prop where
  folders : ∀ g ∈ db.folderRows, g.ownerId = owner → g.parent ≠ id
  files : ∀ f ∈ db.fileRows, f.ownerId = owner → f.state = .complete → f.parent ≠ id

/-- What a single statement can have written. A file is finished only together with its parent. -/
inductive Write (db : Database) : Database → Prop
  | users {db' : Database} (h : OnlyUsers db db') : Write db db'
  | addFolder (f : Folder) (hp : IsParent db.folderRows f.ownerId f.parent)
      (hnew : ∀ g ∈ db.folderRows, g.id ≠ f.id) : Write db (db.withFolders (db.folderRows ++ [f]))
  | dropFolder (id : String) (owner : Int) (hb : db.IsBare id owner) :
      Write db (db.withFolders (foldersWithout db.folderRows id owner))
  | addFile (f : File) (hs : f.state ≠ .complete) (hnew : ∀ g ∈ db.fileRows, g.id ≠ f.id) :
      Write db (db.withFiles (db.fileRows ++ [f]))
  | editFile (id : String) (owner : Int) (u : FileUpdate)
      (hp : ∀ parent, u.parent = some parent → IsParent db.folderRows owner parent)
      (hs : u.state.isSome → u.parent.isSome) :
      Write db (db.withFiles (updatedRows db.fileRows id owner u))
  | dropFiles (p : File → Bool) : Write db (db.withFiles (db.fileRows.filter p))

namespace Write

theorem refl (db : Database) : Write db db := users (.refl db)

/-- No statement takes a table away. -/
theorem whole (h : Write db db') (hw : db.IsWhole) : db'.IsWhole := by
  cases h with
  | users h => exact h.whole hw
  | addFolder f hp hnew => exact hw.withFolders _
  | dropFolder id owner hb => exact hw.withFolders _
  | addFile f hs hnew => exact hw.withFiles _
  | editFile id owner u hp hs => exact hw.withFiles _
  | dropFiles p => exact hw.withFiles _

/-- No statement gives two files the same id. -/
theorem unique (h : Write db db') (hn : (db.fileRows.map File.id).Nodup) :
    (db'.fileRows.map File.id).Nodup := by
  cases h with
  | users h =>
    rw [h.fileRows]
    exact hn
  | addFolder f hp hnew => exact hn
  | dropFolder id owner hb => exact hn
  | addFile f hs hnew => exact nodup_ids_append hn hnew
  | editFile id owner u hp hs =>
    rw [fileRows_withFiles, map_id_updatedRows]
    exact hn
  | dropFiles p => exact hn.sublist (List.filter_sublist.map _)

/-- A folder in which something can be seen is never removed. -/
theorem bare_of_gone (h : Write db db') {f : Folder} (hf : f ∈ db.folderRows) (hgone : f ∉ db'.folderRows) :
    db.IsBare f.id f.ownerId := by
  cases h with
  | users h =>
    rw [h.folderRows] at hgone
    exact absurd hf hgone
  | addFolder g hp hnew => exact absurd (List.mem_append_left _ hf) hgone
  | dropFolder id owner hb =>
    rw [folderRows_withFolders, mem_foldersWithout] at hgone
    have hself : f.id = id ∧ f.ownerId = owner := by
      by_contra hne
      exact hgone ⟨hf, hne⟩
    rw [hself.1, hself.2]
    exact hb
  | addFile g hs hnew => exact absurd hf hgone
  | editFile id owner u hp hs => exact absurd hf hgone
  | dropFiles p => exact absurd hf hgone

end Write

theorem isParent_of_find {rows : List Folder} {parent : String}
    (h : ¬ (parent ≠ "" ∧ (findFolder rows parent owner).isNone)) : IsParent rows owner parent := by
  by_cases hp : parent = ""
  · exact Or.inl hp
  · refine Or.inr (findFolder_isSome_iff.mp ?_)
    by_contra hnone
    exact h ⟨hp, by simpa using hnone⟩

/-! ## Statements on whole databases -/

theorem write_insertFolder (hw : db.IsWhole) (f : Folder) : Write db (db.insertFolder f).2 := by
  obtain ⟨table, -, ht⟩ := hw.userTable
  simp only [insertFolder, hw.folderTable, ht]
  by_cases hp : f.parent ≠ "" ∧ (findFolder db.folderRows f.parent f.ownerId).isNone
  · rw [if_pos hp]
    exact .refl db
  · rw [if_neg hp]
    by_cases hany : db.folderRows.any (·.id == f.id)
    · rw [if_pos hany]
      exact .refl db
    · rw [if_neg hany]
      split
      · exact .refl db
      · exact .addFolder f (isParent_of_find hp) (by simpa using hany)

/-- The removal of a folder of a whole database: what it looks at and what it leaves. -/
theorem deleteFolderIfEmpty_eq (hw : db.IsWhole) (id : String) (owner : Int) :
    db.deleteFolderIfEmpty id owner =
      if (findFolder db.folderRows id owner).isSome ∧
          ¬ isOccupied db.folderRows db.fileRows id owner = true then
        (.ok true, db.withFolders (foldersWithout db.folderRows id owner))
      else (.ok false, db) := by
  obtain ⟨users, hu, -⟩ := hw.userTable
  obtain ⟨folders, hd⟩ := Option.isSome_iff_exists.mp hw.folders
  obtain ⟨files, hf⟩ := Option.isSome_iff_exists.mp hw.files
  simp only [deleteFolderIfEmpty, hu, hd, hf, folderRows, fileRows, Option.getD_some]
  split <;> simp_all [withFolders, foldersWithout]

/-- A folder is removed only when nothing can be seen in it. -/
theorem write_deleteFolderIfEmpty (hw : db.IsWhole) (id : String) (owner : Int) :
    Write db (db.deleteFolderIfEmpty id owner).2 := by
  rw [deleteFolderIfEmpty_eq hw]
  split
  · next h =>
    have hbare : ¬ isOccupied db.folderRows db.fileRows id owner = true := h.2
    simp only [isOccupied, Bool.or_eq_true, List.any_eq_true, not_or, not_exists, not_and,
      Bool.and_eq_true, beq_iff_eq] at hbare
    refine .dropFolder id owner ⟨hbare.1, ?_⟩
    intro f hf hown hs hp
    exact hbare.2 f hf ⟨hown, hp⟩ hs
  · exact .refl db

theorem write_insertFile (hw : db.IsWhole) (f : File) (hs : f.state ≠ .complete) :
    Write db (db.insertFile f).2 := by
  rcases insertFile_cases hw f with ⟨e, he⟩ | ⟨hok, hnew⟩
  · rw [he]
    exact .refl db
  · rw [hok]
    exact .addFile f hs hnew

theorem isParent_of_allowsParent (hw : db.IsWhole) (h : db.allowsParent owner u = .ok true)
    (parent : String) (hp : u.parent = some parent) : IsParent db.folderRows owner parent := by
  by_cases htop : parent = ""
  · exact Or.inl htop
  · simp only [allowsParent, hp, if_neg htop, hw.folderTable, Except.map, Except.ok.injEq] at h
    exact Or.inr (findFolder_isSome_iff.mp h)

theorem write_updateFile (hw : db.IsWhole) (id : String) (owner : Int) (hu : u.isEmpty = false)
    (hs : u.state.isSome → u.parent.isSome) : Write db (db.updateFile id owner u).2 := by
  rcases updateFile_cases hw id owner hu with ⟨f, -, hallow, hok⟩ | ⟨hsame, -⟩
  · rw [hok]
    exact .editFile id owner u (isParent_of_allowsParent hw hallow) hs
  · rw [hsame]
    exact .refl db

theorem write_deleteFile (hw : db.IsWhole) (id : String) (owner : Int) :
    Write db (db.deleteFile id owner).2 := by
  rw [deleteFile_eq hw]
  exact .dropFiles _

end Database

end FileDepot
