import FileDepot.Proofs.Store.Statements
import FileDepot.Proofs.Traffic.Requests

/-!
# The statements of requests

An access of a request makes at most one statement, in the name of the owner who asked, and checks with it what
it relies on.
-/

namespace FileDepot

open Database

/-- Whether a statement is guarded and made in the name of the given owner, or of the keeper of the depot. If it
    makes a folder, the id is the one that was generated. -/
structure Statement.MadeBy (owner? : Option Int) (newId? : Option String) (st : Statement) : Prop where
  guarded : st.IsGuarded
  owner : st.owner? = owner?
  newId : st.newId? = none ∨ st.newId? = newId?

namespace Request

/-- The owner who asked. -/
def owner : Request → Int
  | folderCreation owner _ _ _ _ _ => owner
  | folderRemoval owner _ _ => owner
  | upload t _ => t.owner
  | fileRenaming owner _ _ _ => owner
  | fileDeletion owner _ _ => owner

/-- The id that is generated for a folder. -/
def newId? : Request → Option String
  | folderCreation _ _ _ id _ _ => some id
  | _ => none

/-- What an access leaves is what was there, or what its only statement leaves. -/
theorem dbAfter_cases (db : Database) (r : Request) :
    r.dbAfter db = db ∨ ∃ st : Statement, st.MadeBy (some r.owner) r.newId? ∧ r.dbAfter db = st.apply db := by
  unfold dbAfter
  split
  · next owner name parent id createdAt =>
    unfold createFolder
    split
    · exact Or.inl rfl
    · next name' _ =>
      exact Or.inr ⟨.insertFolder ⟨id, name', FolderRef.normalize parent, owner, createdAt⟩,
        ⟨trivial, rfl, Or.inr rfl⟩, rfl⟩
  · next owner ref =>
    exact Or.inr ⟨.deleteFolderIfEmpty (FolderRef.normalize ref) owner, ⟨trivial, rfl, Or.inl rfl⟩, rfl⟩
  · next t scan name head _ =>
    exact Or.inr ⟨.insertFile (Upload.stub t scan.parent ⟨name, Name.extension name, Sniff.detect head, 0⟩),
      ⟨by simp [Statement.IsGuarded, Upload.stub], rfl, Or.inl rfl⟩, rfl⟩
  · next t parent staged =>
    exact Or.inr ⟨.updateFile t.fileId t.owner (Upload.finalFields parent staged),
      ⟨⟨rfl, fun _ => rfl⟩, rfl, Or.inl rfl⟩, rfl⟩
  · next t f => exact Or.inr ⟨.adjustSpaceUsed t.owner f.size, ⟨trivial, rfl, Or.inl rfl⟩, rfl⟩
  · next t _ => exact Or.inr ⟨.deleteFile t.fileId t.owner, ⟨trivial, rfl, Or.inl rfl⟩, rfl⟩
  · next owner id _ name =>
    exact Or.inr ⟨.updateFile id owner { FileUpdate.none with name := some name },
      ⟨⟨rfl, by simp [FileUpdate.none]⟩, rfl, Or.inl rfl⟩, rfl⟩
  · next owner _ f => exact Or.inr ⟨.deleteFile f.id owner, ⟨trivial, rfl, Or.inl rfl⟩, rfl⟩
  · next owner _ f =>
    exact Or.inr ⟨.adjustSpaceUsed owner (Deletion.opposite f.size), ⟨trivial, rfl, Or.inl rfl⟩, rfl⟩
  · exact Or.inl rfl

/-- So it writes in one of the shapes. -/
theorem write_dbAfter {db : Database} (hw : db.IsWhole) (r : Request) : Write db (r.dbAfter db) := by
  rcases r.dbAfter_cases db with hsame | ⟨st, hst, hafter⟩
  · rw [hsame]
    exact .refl db
  · rw [hafter]
    exact st.write_apply hw hst.guarded

theorem steps_step (d : Depot) (r : Request) :
    Steps (Statement.MadeBy (some r.owner) r.newId?) d.db (r.step d).2.db := by
  rw [db_step]
  rcases r.dbAfter_cases d.db with hsame | ⟨st, hst, hafter⟩
  · rw [hsame]
    exact .refl d.db
  · rw [hafter]
    exact .one st hst

end Request

end FileDepot
