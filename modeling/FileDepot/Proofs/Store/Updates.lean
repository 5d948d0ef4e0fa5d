import FileDepot.Proofs.Store.Writes

/-!
# Updates of a file

An update names any of six fields of one file. It writes the fields it names or nothing at all, and an update
after another one is a single update that names the fields of both.
-/

namespace FileDepot

/-- What an optional value does to a field: if there is one, the field has it afterwards. -/
structure Takes {α : Type} (value : Option α) (old new : α) : Prop where
  written : ∀ v, value = some v → new = v
  kept : value = none → new = old

theorem takes_getD {α : Type} (value : Option α) (old : α) : Takes value old (value.getD old) := by
  cases value with
  | none => exact ⟨nofun, fun _ => rfl⟩
  | some v => exact ⟨fun _ h => Option.some.inj h, nofun⟩

namespace FileUpdate

variable {u v : FileUpdate}

/-- A row before and after an update: the fields that are set have their new values, the others are as they
    were. -/
structure IsWritten (u : FileUpdate) (f f' : File) : Prop where
  id : f'.id = f.id
  name : Takes u.name f.name f'.name
  extension : Takes u.extension f.extension f'.extension
  mimeType : Takes u.mimeType f.mimeType f'.mimeType
  size : Takes u.size f.size f'.size
  state : Takes u.state f.state f'.state
  parent : Takes u.parent f.parent f'.parent
  ownerId : f'.ownerId = f.ownerId
  createdAt : f'.createdAt = f.createdAt

/-- The fields of two updates as one. What `v` sets counts before what `u` sets. -/
def onto (v u : FileUpdate) : FileUpdate where
  name := v.name.or u.name
  extension := v.extension.or u.extension
  mimeType := v.mimeType.or u.mimeType
  size := v.size.or u.size
  state := v.state.or u.state
  parent := v.parent.or u.parent

/-- No field is set by both updates. -/
structure Disjoint (u v : FileUpdate) : Prop where
  name : u.name = .none ∨ v.name = .none
  extension : u.extension = .none ∨ v.extension = .none
  mimeType : u.mimeType = .none ∨ v.mimeType = .none
  size : u.size = .none ∨ v.size = .none
  state : u.state = .none ∨ v.state = .none
  parent : u.parent = .none ∨ v.parent = .none

theorem isWritten_apply (u : FileUpdate) (f : File) : u.IsWritten f (u.apply f) := by
  rw [u.apply_eq]
  exact ⟨rfl, takes_getD _ _, takes_getD _ _, takes_getD _ _, takes_getD _ _, takes_getD _ _, takes_getD _ _,
    rfl, rfl⟩

theorem eq_none_of_isEmpty (h : u.isEmpty = true) : u = FileUpdate.none := by
  cases u
  simpa [isEmpty, FileUpdate.none, and_assoc] using h

@[simp] theorem apply_none (f : File) : FileUpdate.none.apply f = f := rfl

theorem apply_onto (v u : FileUpdate) (f : File) : (v.onto u).apply f = v.apply (u.apply f) := by
  simp [apply_eq, onto, Option.getD_or]

theorem onto_comm (h : u.Disjoint v) : u.onto v = v.onto u := by
  have hor : ∀ {α : Type} {a b : Option α}, a = .none ∨ b = .none → a.or b = b.or a := by
    rintro α a b (rfl | rfl) <;> simp
  simp only [onto, hor h.name, hor h.extension, hor h.mimeType, hor h.size, hor h.state, hor h.parent]

end FileUpdate

namespace Database

variable {db : Database} {id : String} {owner : Int} {u v : FileUpdate} {f g : File}

/-! ## Updated rows -/

@[simp] theorem updatedRows_none (rows : List File) (id : String) (owner : Int) :
    updatedRows rows id owner FileUpdate.none = rows := by
  simp [updatedRows]

theorem updatedRows_onto (rows : List File) (id : String) (owner : Int) (u v : FileUpdate) :
    updatedRows (updatedRows rows id owner u) id owner v = updatedRows rows id owner (v.onto u) := by
  rw [updatedRows, updatedRows, updatedRows, List.map_map]
  refine List.map_congr_left fun f _ => ?_
  by_cases h : isFile id owner f = true
  · have hu : isFile id owner (u.apply f) = true := by rwa [isFile, u.apply_id, u.apply_ownerId]
    simp only [Function.comp, if_pos h, if_pos hu, FileUpdate.apply_onto]
  · simp only [Function.comp, if_neg h]

/-- The file that is updated is found again. -/
theorem findFile_updatedRows (rows : List File) (id : String) (owner : Int) (u : FileUpdate) :
    findFile (updatedRows rows id owner u) id owner = (findFile rows id owner).map u.apply := by
  induction rows with
  | nil => rfl
  | cons f rest ih =>
    simp only [findFile, updatedRows, List.map_cons, List.find?_cons] at ih ⊢
    by_cases h : isFile id owner f = true
    · have hf : (f.id == id && f.ownerId == owner) = true := h
      simp [h, hf]
    · have hf : (f.id == id && f.ownerId == owner) = false := by simpa [isFile] using h
      simp only [if_neg h, hf]
      exact ih

/-! ## What an update does -/

/-- The update may not write: the owner has no such file, or the parent that is set is neither the top level nor
    a folder of the owner. -/
def Refuses (db : Database) (id : String) (owner : Int) (u : FileUpdate) : Prop :=
  (∀ f ∈ db.fileRows, ¬ (f.id = id ∧ f.ownerId = owner)) ∨
    ∃ parent, u.parent = some parent ∧ ¬ IsParent db.folderRows owner parent

theorem findFile_eq_none_iff {rows : List File} :
    findFile rows id owner = none ↔ ∀ f ∈ rows, ¬ (f.id = id ∧ f.ownerId = owner) := by
  simp [findFile]

/-- An update that is not refused has found its file and may set its parent. -/
theorem not_refuses_iff :
    ¬ db.Refuses id owner u ↔
      (∃ f, findFile db.fileRows id owner = some f) ∧
        ∀ parent, u.parent = some parent → IsParent db.folderRows owner parent := by
  rw [Refuses, not_or, ← findFile_eq_none_iff, ← ne_eq, Option.ne_none_iff_exists']
  simp

theorem isParent_iff {rows : List Folder} {parent : String} (h : parent ≠ "") :
    IsParent rows owner parent ↔ (findFolder rows parent owner).isSome = true := by
  rw [IsParent, findFolder_isSome_iff, or_iff_right h]

theorem allowsParent_eq_true (hw : db.IsWhole)
    (h : ∀ parent, u.parent = some parent → IsParent db.folderRows owner parent) :
    db.allowsParent owner u = .ok true := by
  unfold allowsParent
  split
  · rfl
  · next parent hp =>
    split
    · rfl
    · next hne =>
      rw [hw.folderTable, Except.map, (isParent_iff hne).mp (h parent hp)]

theorem allowsParent_eq_false (hw : db.IsWhole) {parent : String} (hp : u.parent = some parent)
    (h : ¬ IsParent db.folderRows owner parent) : db.allowsParent owner u = .ok false := by
  have hne : parent ≠ "" := fun htop => h (Or.inl htop)
  have hnone : (findFolder db.folderRows parent owner).isSome = false := by
    simpa using (isParent_iff hne).not.mp h
  simp only [allowsParent, hp, if_neg hne, hw.folderTable, Except.map, hnone]

/-- An update that is refused changes nothing and reads nothing. -/
theorem updateFile_of_refuses (hw : db.IsWhole) (h : db.Refuses id owner u) :
    db.updateFile id owner u = (.ok none, db) := by
  by_cases hu : u.isEmpty = true
  · obtain rfl := FileUpdate.eq_none_of_isEmpty hu
    have hnone : findFile db.fileRows id owner = none := by
      rcases h with h | ⟨parent, hp, -⟩
      · exact findFile_eq_none_iff.mpr h
      · cases hp
    rw [updateFile, if_pos hu, fileById, hw.fileTable]
    simp only [hnone]
  · rw [updateFile_eq hw id owner (by simpa using hu)]
    by_cases hp : ∃ parent, u.parent = some parent ∧ ¬ IsParent db.folderRows owner parent
    · obtain ⟨parent, hset, hno⟩ := hp
      rw [allowsParent_eq_false hw hset hno]
      cases findFile db.fileRows id owner <;> rfl
    · have hnone : findFile db.fileRows id owner = none := findFile_eq_none_iff.mpr (h.resolve_right hp)
      rw [allowsParent_eq_true hw (by simpa using hp), hnone]

/-- An update that is not refused writes its fields to the file and reads it. An update that sets nothing only
    reads. -/
theorem updateFile_of_find (hw : db.IsWhole) (hf : findFile db.fileRows id owner = some f)
    (hp : ∀ parent, u.parent = some parent → IsParent db.folderRows owner parent) :
    db.updateFile id owner u =
      ((u.apply f).read.map some, db.withFiles (updatedRows db.fileRows id owner u)) := by
  by_cases hu : u.isEmpty = true
  · obtain rfl := FileUpdate.eq_none_of_isEmpty hu
    rw [updateFile, if_pos hu, updatedRows_none, withFiles_self hw, fileById, hw.fileTable]
    simp only [hf, FileUpdate.apply_none]
  · rw [updateFile_eq hw id owner (by simpa using hu), allowsParent_eq_true hw hp, hf]

theorem eq_of_read (h : f.read.map some = .ok (some g)) : g = f := by
  unfold File.read at h
  split at h
  · cases h
  · exact (Option.some.inj (Except.ok.inj h)).symm

/-- A file with which an update is answered stands in the table as it is answered. -/
theorem mem_of_updateFile (hu : u.isEmpty = false) (h : (db.updateFile id owner u).1 = .ok (some g)) :
    (∃ f, g = u.apply f) ∧ g ∈ (db.updateFile id owner u).2.fileRows := by
  simp only [updateFile, hu, Bool.false_eq_true, if_false] at h ⊢
  split at h
  · cases h
  · cases h
  · next rows allowed hrows hallowed =>
    cases hf : findFile rows id owner with
    | none =>
      simp only [hf] at h
      cases h
    | some f =>
      simp only [hf] at h ⊢
      cases allowed with
      | false => cases h
      | true =>
        obtain ⟨hmem, hid, hown⟩ := findFile_some hf
        obtain rfl := eq_of_read h
        exact ⟨⟨f, rfl⟩, mem_updatedRows.mpr ⟨f, hmem, Or.inl ⟨hid, hown, rfl⟩⟩⟩

/-- Where an update answers with a file, it has written to that file. -/
theorem updateFile_ok (hw : db.IsWhole) (h : (db.updateFile id owner u).1 = .ok (some g)) :
    ∃ f, findFile db.fileRows id owner = some f ∧ g = u.apply f ∧
      ∀ parent, u.parent = some parent → IsParent db.folderRows owner parent := by
  by_cases hr : db.Refuses id owner u
  · rw [updateFile_of_refuses hw hr] at h
    cases h
  · obtain ⟨⟨f, hf⟩, hp⟩ := not_refuses_iff.mp hr
    rw [updateFile_of_find hw hf hp] at h
    exact ⟨f, hf, eq_of_read h, hp⟩

/-- Two updates of a file, one after the other, are one update. -/
theorem updateFile_onto (hw : db.IsWhole) (hu : (db.updateFile id owner u).1 = .ok (some f))
    (hv : ((db.updateFile id owner u).2.updateFile id owner v).1 = .ok (some g)) :
    db.updateFile id owner (v.onto u) = (db.updateFile id owner u).2.updateFile id owner v := by
  obtain ⟨f₀, hf₀, rfl, hpu⟩ := updateFile_ok hw hu
  rw [updateFile_of_find hw hf₀ hpu] at hv ⊢
  have hw' : (db.withFiles (updatedRows db.fileRows id owner u)).IsWhole := hw.withFiles _
  obtain ⟨f₁, hf₁, rfl, hpv⟩ := updateFile_ok hw' hv
  have hp : ∀ parent, (v.onto u).parent = some parent → IsParent db.folderRows owner parent := by
    intro parent h
    rcases Option.or_eq_some_iff.mp h with h | ⟨-, h⟩
    · exact hpv parent h
    · exact hpu parent h
  obtain rfl : u.apply f₀ = f₁ := by
    rw [fileRows_withFiles, findFile_updatedRows, hf₀] at hf₁
    exact Option.some.inj hf₁
  rw [updateFile_of_find hw hf₀ hp, updateFile_of_find hw' hf₁ hpv, FileUpdate.apply_onto,
    fileRows_withFiles, updatedRows_onto]
  rfl

/-- An update that is not refused changes one row, in the fields it sets. -/
theorem updateFile_around (hw : db.IsWhole) (hn : (db.fileRows.map File.id).Nodup)
    (h : ¬ db.Refuses id owner u) :
    ∃ before f after, db.fileRows = before ++ f :: after ∧ f.id = id ∧ f.ownerId = owner ∧
      db.updateFile id owner u =
        ((u.apply f).read.map some, db.withFiles (before ++ u.apply f :: after)) := by
  obtain ⟨⟨f, hf⟩, hp⟩ := not_refuses_iff.mp h
  obtain ⟨hmem, rfl, rfl⟩ := findFile_some hf
  obtain ⟨before, after, hrows, hupdated, -⟩ := rows_around hn hmem
  exact ⟨before, f, after, hrows, rfl, rfl, by rw [updateFile_of_find hw hf hp, hupdated]⟩

/-- What an update that is not refused does: in the table of files `f` becomes `f'`, in the fields that are set. -/
structure ChangesRow (db : Database) (id : String) (owner : Int) (u : FileUpdate) (before : List File)
    (f f' : File) (after : List File) : Prop where
  rows_eq : db.fileRows = before ++ f :: after
  id_eq : f.id = id
  ownerId_eq : f.ownerId = owner
  fields : u.IsWritten f f'
  database_eq : (db.updateFile id owner u).2 = db.withFiles (before ++ f' :: after)
  /-- The row is answered with if its state can be read. -/
  answer : (∀ text, f'.state ≠ .unknown text) → (db.updateFile id owner u).1 = .ok (some f')
  /-- If its state cannot be read, the row is written nevertheless. -/
  unreadable : ∀ text, f'.state = .unknown text →
    (db.updateFile id owner u).1 = .error (.database ("unknown file state: " ++ text))
  /-- An update that sets nothing only reads. -/
  reads : u = FileUpdate.none → f' = f ∧ (db.updateFile id owner u).2 = db

/-- What an update of a file does, alone and with a second one after it. -/
structure UpdatesExactly (db : Database) (id : String) (owner : Int) (u v : FileUpdate) : Prop where
  /-- It is refused if the owner has no such file or no folder like the parent that is set. -/
  refused : db.Refuses id owner u → db.updateFile id owner u = (.ok none, db)
  /-- Otherwise one row changes. -/
  changes : ¬ db.Refuses id owner u → ∃ before f after f', db.ChangesRow id owner u before f f' after
  /-- Two updates that are both answered with the file come to the single update of the fields of both. -/
  onto : ∀ f g, (db.updateFile id owner u).1 = .ok (some f) →
    ((db.updateFile id owner u).2.updateFile id owner v).1 = .ok (some g) →
    db.updateFile id owner (v.onto u) = (db.updateFile id owner u).2.updateFile id owner v
  /-- They change places if no field is set by both. -/
  swap : u.Disjoint v → ∀ f g f' g', (db.updateFile id owner u).1 = .ok (some f) →
    ((db.updateFile id owner u).2.updateFile id owner v).1 = .ok (some g) →
    (db.updateFile id owner v).1 = .ok (some f') →
    ((db.updateFile id owner v).2.updateFile id owner u).1 = .ok (some g') →
    (db.updateFile id owner u).2.updateFile id owner v = (db.updateFile id owner v).2.updateFile id owner u

theorem changesRow (hw : db.IsWhole) (hn : (db.fileRows.map File.id).Nodup) (h : ¬ db.Refuses id owner u) :
    ∃ before f after f', db.ChangesRow id owner u before f f' after := by
  obtain ⟨before, f, after, hrows, hid, hown, hup⟩ := updateFile_around hw hn h
  refine ⟨before, f, after, u.apply f, ?_⟩
  constructor
  case rows_eq => exact hrows
  case id_eq => exact hid
  case ownerId_eq => exact hown
  case fields => exact u.isWritten_apply f
  case database_eq => rw [hup]
  case answer =>
    intro hread
    rw [hup, File.read]
    split
    · next text hs => exact absurd hs (hread text)
    · rfl
  case unreadable =>
    intro text hs
    rw [hup, File.read, hs]
    rfl
  case reads =>
    rintro rfl
    exact ⟨FileUpdate.apply_none f, by rw [hup, FileUpdate.apply_none, ← hrows, withFiles_self hw]⟩

/-- An update of a file writes exactly the fields it sets, or nothing at all. -/
theorem update_writes_what_is_set (hw : db.IsWhole) (hn : (db.fileRows.map File.id).Nodup) (id : String)
    (owner : Int) (u v : FileUpdate) : db.UpdatesExactly id owner u v := by
  constructor
  case refused => exact updateFile_of_refuses hw
  case changes => exact changesRow hw hn
  case onto => exact fun f g => updateFile_onto hw
  case swap =>
    intro hd f g f' g' hu huv hv hvu
    rw [← updateFile_onto hw hu huv, ← updateFile_onto hw hv hvu, FileUpdate.onto_comm hd]

/-- A user with a folder, a finished file and a stub. -/
def desk : Database :=
  { fresh with
    users := some ⟨[⟨1, "alice", 0, .exact 2, "t"⟩], 1⟩
    folders := some [⟨"d", "docs", "", 1, "t"⟩]
    files := some [⟨"e", "a.txt", "txt", "text/plain", 2, .complete, "", 1, "t"⟩,
      ⟨"f", "untitled", "", "application/octet-stream", 0, .pending, "", 1, "t"⟩] }

/-- An update that gives a file its name. -/
def naming : FileUpdate := { FileUpdate.none with name := some "b.txt", extension := some "txt" }

/-- An update that finishes a file and puts it into the folder. -/
def filing : FileUpdate := { FileUpdate.none with state := some .complete, parent := some "d" }

theorem update_writes_what_is_set_of_desk :
    desk.IsWhole ∧ (desk.fileRows.map File.id).Nodup ∧ naming.Disjoint filing ∧
      desk.updateFile "x" 1 naming = (.ok none, desk) ∧
      (∃ before f after f', desk.fileRows = before ++ f :: after ∧ f.id = "f" ∧ naming.IsWritten f f' ∧
        (desk.updateFile "f" 1 naming).2 = desk.withFiles (before ++ f' :: after)) ∧
      desk.updateFile "f" 1 (filing.onto naming) =
        (desk.updateFile "f" 1 naming).2.updateFile "f" 1 filing ∧
      (desk.updateFile "f" 1 naming).2.updateFile "f" 1 filing =
        (desk.updateFile "f" 1 filing).2.updateFile "f" 1 naming := by
  have hw : desk.IsWhole := ⟨rfl, rfl, rfl⟩
  have hn : (desk.fileRows.map File.id).Nodup := by decide
  have hd : naming.Disjoint filing :=
    ⟨Or.inr rfl, Or.inr rfl, Or.inr rfl, Or.inr rfl, Or.inl rfl, Or.inl rfl⟩
  have hother : desk.Refuses "x" 1 naming := Or.inl (by decide)
  have hmay : ¬ desk.Refuses "f" 1 naming := not_refuses_iff.mpr ⟨⟨_, rfl⟩, fun _ h => by cases h⟩
  have hx := update_writes_what_is_set hw hn "x" 1 naming filing
  have hf := update_writes_what_is_set hw hn "f" 1 naming filing
  obtain ⟨before, f, after, f', h⟩ := hf.changes hmay
  exact ⟨hw, hn, hd, hx.refused hother, ⟨before, f, after, f', h.rows_eq, h.id_eq, h.fields, h.database_eq⟩,
    hf.onto _ _ rfl rfl, hf.swap hd _ _ _ _ rfl rfl rfl rfl⟩

end Database

end FileDepot
