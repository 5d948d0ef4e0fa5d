import FileDepot.Proofs.Store.Counters
import FileDepot.Proofs.Traffic.Requests

/-!
# What requests do to records

For every access of a request, what it does to the rows of files and to counters, and how far the request is
before and after it.
-/

namespace FileDepot

open Database

/-- The same file, perhaps under another name. -/
structure File.Alike (f g : File) : Prop where
  id : f.id = g.id
  ownerId : f.ownerId = g.ownerId
  state : f.state = g.state
  size : f.size = g.size

theorem File.Alike.counted {f g : File} (h : f.Alike g) (owner : Int) :
    f.counted owner = g.counted owner := by
  rw [File.counted, File.counted, h.ownerId, h.state, h.size]

namespace Database

variable {db db' : Database}

/-- The same users and the same files, perhaps under other names. -/
structure SameRecords (db db' : Database) : Prop where
  users : db'.users = db.users
  rows : ∃ g : File → File, (∀ f, (g f).Alike f) ∧ db'.fileRows = db.fileRows.map g

namespace SameRecords

theorem of_fileRows (hu : db'.users = db.users) (hr : db'.fileRows = db.fileRows) : SameRecords db db' :=
  ⟨hu, id, fun f => ⟨rfl, rfl, rfl, rfl⟩, by rw [List.map_id, hr]⟩

theorem refl (db : Database) : SameRecords db db := of_fileRows rfl rfl

theorem of_onlyFolders (h : OnlyFolders db db') : SameRecords db db' := of_fileRows h.users h.fileRows

/-- A new name changes nothing else. -/
theorem updateFile_name (hw : db.IsWhole) (id : String) (owner : Int) (name : String) :
    SameRecords db (db.updateFile id owner { FileUpdate.none with name := some name }).2 := by
  rcases updateFile_cases hw id owner (u := { FileUpdate.none with name := some name }) rfl
    with ⟨f, -, -, hok⟩ | ⟨hsame, -⟩
  · rw [hok]
    refine ⟨rfl, _, ?_, rfl⟩
    intro g
    split <;> exact ⟨rfl, rfl, rfl, rfl⟩
  · rw [hsame]
    exact .refl db

end SameRecords

end Database

/-! ## Uploads -/

namespace Upload

/-- Whether the upload makes no statement about its row any more. -/
def isOver : Upload → Bool
  | account _ => true
  | explainMiss _ => true
  | done _ => true
  | _ => false

theorem isOver_advance {u : Upload} (h : u.isOver = true) (t : Ticket) (d : Depot) :
    (u.advance t d).1.isOver = true := by
  cases u with
  | account f =>
    simp only [advance]
    split <;> rfl
  | explainMiss parent =>
    simp only [advance]
    split
    · rfl
    · split <;> rfl
  | done result => rfl
  | _ => cases h

theorem isOver_receive {u : Upload} (h : u.isOver = true) (e : Multipart.Event) :
    (u.receive e).isOver = true := by
  cases u with
  | account f => exact h
  | explainMiss parent => exact h
  | done result => exact h
  | _ => cases h

/-- What an access of an upload does to the records, and how far the upload is before and after. -/
inductive Effect (t : Ticket) (db : Database) (u : Upload) (db' : Database) (u' : Upload) : Prop
  | quiet (h : SameRecords db db') (hu : ∀ f, u ≠ account f) (hu' : ∀ f, u' ≠ account f)
  | inserted (f : File) (hid : f.id = t.fileId) (hs : f.state = .pending) (hsize : f.size = 0)
      (hover : u.isOver = false) (hu' : ∀ f, u' ≠ account f) (husers : db'.users = db.users)
      (hrows : db'.fileRows = db.fileRows ++ [f])
  | finished (f : File) (parent : String) (staged : Staged) (hf : f ∈ db.fileRows)
      (hid : f.id = t.fileId) (hown : f.ownerId = t.owner) (hu : u = finish parent staged)
      (hu' : u' = account ((finalFields parent staged).apply f)) (husers : db'.users = db.users)
      (hrows : db'.fileRows = updatedRows db.fileRows f.id f.ownerId (finalFields parent staged))
  | counted (f : File) (hu : u = account f) (hu' : ∀ f, u' ≠ account f)
      (hdb : db' = (db.adjustSpaceUsed t.owner f.size).2)
  | removed (hover : u.isOver = false) (hu' : ∀ f, u' ≠ account f) (husers : db'.users = db.users)
      (hrows : db'.fileRows = db.fileRows.filter fun f => !isFile t.fileId t.owner f)

theorem effect_advance {d : Depot} (hw : d.db.IsWhole) (t : Ticket) (u : Upload) :
    Effect t d.db u (u.advance t d).2.db (u.advance t d).1 := by
  cases u with
  | admission =>
    simp only [advance]
    split <;> exact .quiet (.refl d.db) (by simp) (by simp)
  | insertStub scan name head ended =>
    simp only [advance]
    rcases insertFile_cases hw (stub t scan.parent ⟨name, Name.extension name, Sniff.detect head, 0⟩)
      with ⟨e, he⟩ | ⟨hok, -⟩
    · rw [he]
      exact .quiet (.refl d.db) (by simp) (by simp)
    · rw [hok]
      exact .inserted _ rfl rfl rfl rfl (by simp) rfl rfl
  | makeDirectory scan staged head ended =>
    simp only [advance]
    split <;> exact .quiet (.refl d.db) (by simp) (by simp)
  | createBlob scan staged head ended =>
    simp only [advance]
    split <;> exact .quiet (.refl d.db) (by simp) (by simp)
  | write scan staged bytes ended =>
    simp only [advance]
    split <;> exact .quiet (.refl d.db) (by simp) (by simp)
  | finish parent staged =>
    simp only [advance]
    rcases updateFile_cases hw t.fileId t.owner (u := finalFields parent staged) rfl
      with ⟨f, hf, -, hok⟩ | ⟨hsame, hnone⟩
    · obtain ⟨hmem, hid, hown⟩ := findFile_some hf
      rw [hok]
      refine .finished f parent staged hmem hid hown rfl rfl rfl ?_
      rw [hid, hown]
      rfl
    · rcases hr : d.db.updateFile t.fileId t.owner (finalFields parent staged) with ⟨result, db⟩
      rw [hr] at hsame hnone
      have hrefl : SameRecords d.db db := by
        rw [show db = d.db from hsame]
        exact .refl d.db
      cases result with
      | error e => exact .quiet hrefl (by simp) (by simp)
      | ok found =>
        cases found with
        | none => exact .quiet hrefl (by simp) (by simp)
        | some f => exact absurd rfl (hnone f)
  | account f =>
    rcases hr : d.db.adjustSpaceUsed t.owner f.size with ⟨result, db⟩
    simp only [advance, hr]
    cases result with
    | error e => exact .counted f rfl (by simp) (by rw [hr])
    | ok n => exact .counted f rfl (by simp) (by rw [hr])
  | removeBlob next =>
    simp only [advance]
    split <;> exact .quiet (.refl d.db) (by simp) (by simp)
  | removeStub next =>
    simp only [advance, deleteFile_eq hw]
    cases next with
    | fail e => exact .removed rfl (by simp) rfl rfl
    | explain parent => exact .removed rfl (by simp) rfl rfl
  | explainMiss parent =>
    simp only [advance]
    split
    · exact .quiet (.refl d.db) (by simp) (by simp)
    · split <;> exact .quiet (.refl d.db) (by simp) (by simp)
  | betweenParts scan => exact .quiet (.refl d.db) (by simp) (by simp [advance])
  | inParent scan text => exact .quiet (.refl d.db) (by simp) (by simp [advance])
  | inOther scan => exact .quiet (.refl d.db) (by simp) (by simp [advance])
  | inHead scan name head => exact .quiet (.refl d.db) (by simp) (by simp [advance])
  | inBody scan staged => exact .quiet (.refl d.db) (by simp) (by simp [advance])
  | done result => exact .quiet (.refl d.db) (by simp) (by simp [advance])

end Upload

/-! ## Deletions -/

namespace Deletion

/-- The file that was found for a deletion, until its bytes have been given back. -/
def file? : Deletion → Option File
  | removeBlob f => some f
  | removeRow f => some f
  | release f => some f
  | _ => none

/-- What an access of a deletion does to the records, and how far the deletion is before and after. -/
inductive Effect (owner : Int) (db : Database) (x : Deletion) (db' : Database) (x' : Deletion) : Prop
  | quiet (h : SameRecords db db') (hx : ∀ f, x ≠ release f) (hx' : ∀ f, x' ≠ release f)
      (hfile : x'.file? = none ∨ x'.file? = x.file?)
  | found (f : File) (hf : f ∈ db.fileRows) (hs : f.state = .complete) (hx : x = lookup)
      (hx' : x' = removeBlob f) (hdb : db' = db)
  | removed (f g : File) (hg : g ∈ db.fileRows) (hid : g.id = f.id) (hown : g.ownerId = owner)
      (hx : x = removeRow f) (hx' : x' = release f) (husers : db'.users = db.users)
      (hrows : db'.fileRows = db.fileRows.filter fun h => !isFile g.id g.ownerId h)
  | released (f : File) (hx : x = release f) (hx' : x'.file? = none)
      (hdb : db' = (db.adjustSpaceUsed owner (opposite f.size)).2)

theorem effect_step {d : Depot} (hw : d.db.IsWhole) (owner : Int) (id : String) (x : Deletion) :
    Effect owner d.db x (x.step owner id d).2.db (x.step owner id d).1 := by
  cases x with
  | lookup =>
    simp only [step]
    split
    · exact .quiet (.refl d.db) (by simp) (by simp) (Or.inl rfl)
    · next f hf =>
      unfold Depot.file at hf
      split at hf
      · cases hf
      · cases hf
      · next g hg =>
        cases hf
        obtain ⟨hmem, -, -, hs⟩ := completeFile_some hw hg
        exact .found f hmem hs rfl rfl rfl
  | removeBlob f =>
    simp only [step]
    split
    · exact .quiet (.refl d.db) (by simp) (by simp) (Or.inr rfl)
    · exact .quiet (.refl d.db) (by simp) (by simp) (Or.inr rfl)
    · exact .quiet (.refl d.db) (by simp) (by simp) (Or.inl rfl)
  | removeRow f =>
    simp only [step, deleteFile_eq hw]
    cases hany : d.db.fileRows.any (isFile f.id owner) with
    | false =>
      have hrows : (d.db.fileRows.filter fun g => !isFile f.id owner g) = d.db.fileRows := by
        refine List.filter_eq_self.mpr fun g hg => ?_
        simpa using List.any_eq_false.mp hany g hg
      exact .quiet (.of_fileRows rfl hrows) (by simp) (by simp) (Or.inl rfl)
    | true =>
      obtain ⟨g, hg, hself⟩ := List.any_eq_true.mp hany
      obtain ⟨hid, hown⟩ := isFile_iff.mp hself
      refine .removed f g hg hid hown rfl rfl rfl ?_
      rw [hid, hown]
      rfl
  | release f =>
    rcases hr : d.db.adjustSpaceUsed owner (opposite f.size) with ⟨result, db⟩
    simp only [step, hr]
    cases result with
    | error e => exact .released f rfl rfl (by rw [hr])
    | ok n => exact .released f rfl rfl (by rw [hr])
  | done result => exact .quiet (.refl d.db) (by simp) (by simp [step]) (Or.inl rfl)

end Deletion

/-! ## Other requests -/

namespace Request

/-- Requests for folders and for names leave the records alone. -/
theorem sameRecords_dbAfter {db : Database} (hw : db.IsWhole) {r : Request}
    (hu : ∀ t u, r ≠ upload t u) (hd : ∀ owner id x, r ≠ fileDeletion owner id x) :
    SameRecords db (r.dbAfter db) := by
  unfold dbAfter
  split
  · exact .of_onlyFolders (onlyFolders_createFolder db _ _ _ _ _)
  · exact .of_onlyFolders (onlyFolders_deleteFolderIfEmpty db _ _)
  · exact absurd rfl (hu _ _)
  · exact absurd rfl (hu _ _)
  · exact absurd rfl (hu _ _)
  · exact absurd rfl (hu _ _)
  · exact .updateFile_name hw _ _ _
  · exact absurd rfl (hd _ _ _)
  · exact absurd rfl (hd _ _ _)
  · exact .refl db

end Request

end FileDepot
