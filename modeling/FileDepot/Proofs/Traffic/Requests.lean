import FileDepot.Deletion
import FileDepot.Upload

/-!
# Requests under way

Any number of requests of any owners, of which only one access to the depot is made at a time. Between two
accesses of a request every other one may go on. The removal of a folder and the renaming of a file are cut
into their accesses here; run without interruption they are what they were.
-/

namespace FileDepot

/-- How far the removal of a folder has come. -/
inductive FolderRemoval where
  | lookup
  | removeRow
  | explain
  | done (result : Outcome Unit)
  deriving Repr

namespace FolderRemoval

/-- The next access of the removal of a folder. -/
def step (owner : Int) (ref : String) (d : Depot) : FolderRemoval → FolderRemoval × Depot
  | lookup =>
    if FolderRef.normalize ref = "" then (done (.error (.notFound "folder")), d)
    else
      match d.db.folderById (FolderRef.normalize ref) owner with
      | .error e => (done (.error e), d)
      | .ok none => (done (.error (.notFound "folder")), d)
      | .ok (some _) => (removeRow, d)
  | removeRow =>
    match d.db.deleteFolderIfEmpty (FolderRef.normalize ref) owner with
    | (.error e, db) => (done (.error e), { d with db })
    | (.ok true, db) => (done (.ok ()), { d with db })
    | (.ok false, db) => (explain, { d with db })
  | explain =>
    match d.db.folderById (FolderRef.normalize ref) owner with
    | .error e => (done (.error e), d)
    | .ok none => (done (.error (.notFound "folder")), d)
    | .ok (some _) => (done (.error (.folderNotEmpty (FolderRef.normalize ref))), d)
  | done result => (done result, d)

/-- Three accesses without interruption are the removal of a folder. -/
theorem steps_eq_deleteFolder (owner : Int) (ref : String) (d : Depot) :
    let first := step owner ref d lookup
    let second := step owner ref first.2 first.1
    step owner ref second.2 second.1 =
      (done (d.db.deleteFolder owner ref).1, { d with db := (d.db.deleteFolder owner ref).2 }) := by
  intro first second
  by_cases htop : FolderRef.normalize ref = ""
  · simp [second, first, step, Database.deleteFolder, htop]
  · cases hfind : d.db.folderById (FolderRef.normalize ref) owner with
    | error e => simp [second, first, step, Database.deleteFolder, htop, hfind]
    | ok found =>
      cases found with
      | none => simp [second, first, step, Database.deleteFolder, htop, hfind]
      | some f =>
        have hfirst : first = (removeRow, d) := by simp [first, step, htop, hfind]
        simp only [second, hfirst, step, Database.deleteFolder, htop, hfind, if_false]
        rcases hrow : d.db.deleteFolderIfEmpty (FolderRef.normalize ref) owner with ⟨result, db⟩
        cases result with
        | error e => rfl
        | ok removed =>
          cases removed with
          | true => rfl
          | false =>
            simp only
            cases db.folderById (FolderRef.normalize ref) owner with
            | error e => rfl
            | ok found => cases found <;> rfl

end FolderRemoval

/-- How far the renaming of a file has come. -/
inductive Renaming where
  | lookup
  | write (name : String)
  | done (result : Outcome File)
  deriving Repr

namespace Renaming

/-- The next access of the renaming of a file. -/
def step (owner : Int) (id name : String) (d : Depot) : Renaming → Renaming × Depot
  | lookup =>
    match Name.require name with
    | .error e => (done (.error e), d)
    | .ok name =>
      match d.file owner id with
      | .error e => (done (.error e), d)
      | .ok _ => (write name, d)
  | write name =>
    match d.db.updateFile id owner { FileUpdate.none with name := some name } with
    | (.error e, db) => (done (.error e), { d with db })
    | (.ok none, db) => (done (.error (.notFound "file")), { d with db })
    | (.ok (some f), db) => (done (.ok f), { d with db })
  | done result => (done result, d)

/-- Two accesses without interruption are the renaming of a file. -/
theorem steps_eq_rename (owner : Int) (id name : String) (d : Depot) :
    let first := step owner id name d lookup
    step owner id name first.2 first.1 = (done (d.rename owner id name).1, (d.rename owner id name).2) := by
  intro first
  cases hname : Name.require name with
  | error e => simp [first, step, Depot.rename, hname]
  | ok name' =>
    cases hfile : d.file owner id with
    | error e => simp [first, step, Depot.rename, hname, hfile]
    | ok f =>
      simp only [first, step, Depot.rename, hname, hfile]
      rcases d.db.updateFile id owner { FileUpdate.none with name := some name' } with ⟨result, db⟩
      cases result with
      | error e => rfl
      | ok found => cases found <;> rfl

end Renaming

/-- What can be asked for. Ids and times that the depot would generate are part of it. -/
inductive Order where
  | createFolder (owner : Int) (name parent id createdAt : String)
  | deleteFolder (owner : Int) (ref : String)
  | upload (t : Ticket)
  | rename (owner : Int) (id name : String)
  | delete (owner : Int) (id : String)
  deriving DecidableEq, Repr

/-- An order and how far it has come. -/
inductive Request where
  | folderCreation (owner : Int) (name parent id createdAt : String) (result? : Option (Outcome Folder))
  | folderRemoval (owner : Int) (ref : String) (stage : FolderRemoval)
  | upload (t : Ticket) (stage : Upload)
  | fileRenaming (owner : Int) (id name : String) (stage : Renaming)
  | fileDeletion (owner : Int) (id : String) (stage : Deletion)
  deriving Repr

namespace Order

/-- The request of an order for which nothing has been done yet. -/
def request : Order → Request
  | createFolder owner name parent id createdAt => .folderCreation owner name parent id createdAt none
  | deleteFolder owner ref => .folderRemoval owner ref .lookup
  | upload t => .upload t .admission
  | rename owner id name => .fileRenaming owner id name .lookup
  | delete owner id => .fileDeletion owner id .lookup

end Order

namespace Request

/-- Makes the next access to the depot. The depot is left alone by an upload that waits for its body and by a
    request that is done. -/
def step (d : Depot) : Request → Request × Depot
  | folderCreation owner name parent id createdAt none =>
    let r := d.db.createFolder owner name parent id createdAt
    (folderCreation owner name parent id createdAt (some r.1), { d with db := r.2 })
  | folderCreation owner name parent id createdAt (some result) =>
    (folderCreation owner name parent id createdAt (some result), d)
  | folderRemoval owner ref stage =>
    let r := stage.step owner ref d
    (folderRemoval owner ref r.1, r.2)
  | upload t stage =>
    let r := stage.advance t d
    (upload t r.1, r.2)
  | fileRenaming owner id name stage =>
    let r := stage.step owner id name d
    (fileRenaming owner id name r.1, r.2)
  | fileDeletion owner id stage =>
    let r := stage.step owner id d
    (fileDeletion owner id r.1, r.2)

/-- The database after the next access, which makes at most one statement that writes. -/
def dbAfter (db : Database) : Request → Database
  | folderCreation owner name parent id createdAt none => (db.createFolder owner name parent id createdAt).2
  | folderRemoval owner ref .removeRow => (db.deleteFolderIfEmpty (FolderRef.normalize ref) owner).2
  | upload t (.insertStub scan name head _) =>
    (db.insertFile (Upload.stub t scan.parent ⟨name, Name.extension name, Sniff.detect head, 0⟩)).2
  | upload t (.finish parent staged) => (db.updateFile t.fileId t.owner (Upload.finalFields parent staged)).2
  | upload t (.account f) => (db.adjustSpaceUsed t.owner f.size).2
  | upload t (.removeStub _) => (db.deleteFile t.fileId t.owner).2
  | fileRenaming owner id _ (.write name) =>
    (db.updateFile id owner { FileUpdate.none with name := some name }).2
  | fileDeletion owner _ (.removeRow f) => (db.deleteFile f.id owner).2
  | fileDeletion owner _ (.release f) => (db.adjustSpaceUsed owner (Deletion.opposite f.size)).2
  | _ => db

/-- Takes the next event of the body, which only uploads have. -/
def receive (e : Multipart.Event) : Request → Request
  | upload t stage => upload t (stage.receive e)
  | r => r

/-- Whether nothing is left to do. -/
def isDone : Request → Bool
  | folderCreation _ _ _ _ _ result? => result?.isSome
  | folderRemoval _ _ (.done _) => true
  | upload _ (.done _) => true
  | fileRenaming _ _ _ (.done _) => true
  | fileDeletion _ _ (.done _) => true
  | _ => false

/-- Whether the request is done and has not failed. -/
def succeeded : Request → Bool
  | folderCreation _ _ _ _ _ (some (.ok _)) => true
  | folderRemoval _ _ (.done (.ok _)) => true
  | upload _ (.done (.ok _)) => true
  | fileRenaming _ _ _ (.done (.ok _)) => true
  | fileDeletion _ _ (.done (.ok _)) => true
  | _ => false

theorem db_step_folderRemoval (d : Depot) (owner : Int) (ref : String) (stage : FolderRemoval) :
    ((folderRemoval owner ref stage).step d).2.db = (folderRemoval owner ref stage).dbAfter d.db := by
  cases stage with
  | lookup =>
    simp only [step, FolderRemoval.step]
    split
    · rfl
    · split <;> rfl
  | removeRow =>
    simp only [step, FolderRemoval.step, dbAfter]
    split <;> next h => rw [h]
  | explain =>
    simp only [step, FolderRemoval.step]
    split <;> rfl
  | done result => rfl

theorem db_step_fileRenaming (d : Depot) (owner : Int) (id name : String) (stage : Renaming) :
    ((fileRenaming owner id name stage).step d).2.db = (fileRenaming owner id name stage).dbAfter d.db := by
  cases stage with
  | lookup =>
    simp only [step, Renaming.step]
    split
    · rfl
    · split <;> rfl
  | write name' =>
    simp only [step, Renaming.step, dbAfter]
    split <;> next h => rw [h]
  | done result => rfl

theorem db_step_fileDeletion (d : Depot) (owner : Int) (id : String) (stage : Deletion) :
    ((fileDeletion owner id stage).step d).2.db = (fileDeletion owner id stage).dbAfter d.db := by
  cases stage with
  | lookup =>
    simp only [step, Deletion.step]
    split <;> rfl
  | removeBlob f =>
    simp only [step, Deletion.step]
    split <;> rfl
  | removeRow f =>
    simp only [step, Deletion.step, dbAfter]
    split <;> next h => rw [h]
  | release f =>
    simp only [step, Deletion.step, dbAfter]
    split <;> next h => rw [h]
  | done result => rfl

theorem db_step_upload (d : Depot) (t : Ticket) (stage : Upload) :
    ((upload t stage).step d).2.db = (upload t stage).dbAfter d.db := by
  cases stage with
  | admission =>
    simp only [step, Upload.advance]
    split <;> rfl
  | insertStub scan name head ended =>
    simp only [step, Upload.advance, dbAfter]
    split <;> next h => rw [h]
  | makeDirectory scan staged head ended =>
    simp only [step, Upload.advance]
    split <;> rfl
  | createBlob scan staged head ended =>
    simp only [step, Upload.advance]
    split <;> rfl
  | write scan staged bytes ended =>
    simp only [step, Upload.advance]
    split <;> rfl
  | finish parent staged =>
    simp only [step, Upload.advance, dbAfter]
    split <;> next h => rw [h]
  | account f =>
    simp only [step, Upload.advance, dbAfter]
    split <;> next h => rw [h]
  | removeBlob next =>
    simp only [step, Upload.advance]
    split <;> rfl
  | removeStub next => cases next <;> rfl
  | explainMiss parent =>
    simp only [step, Upload.advance]
    split
    · rfl
    · split <;> rfl
  | betweenParts scan => rfl
  | inParent scan text => rfl
  | inOther scan => rfl
  | inHead scan name head => rfl
  | inBody scan staged => rfl
  | done result => rfl

theorem db_step (d : Depot) (r : Request) : (r.step d).2.db = r.dbAfter d.db := by
  cases r with
  | folderCreation owner name parent id createdAt result? => cases result? <;> rfl
  | folderRemoval owner ref stage => exact db_step_folderRemoval d owner ref stage
  | upload t stage => exact db_step_upload d t stage
  | fileRenaming owner id name stage => exact db_step_fileRenaming d owner id name stage
  | fileDeletion owner id stage => exact db_step_fileDeletion d owner id stage

end Request

/-- What can happen in a depot under traffic. Requests are counted from 0 in the order of their arrival. -/
inductive Move where
  | createUser (username : String) (quota : Int) (createdAt : String)
  | setQuota (id quota : Int)
  | arrive (o : Order)
  | advance (n : Nat)
  | receive (n : Nat) (e : Multipart.Event)
  deriving DecidableEq, Repr

/-- A depot and the requests that have arrived, finished ones included. -/
structure Traffic where
  depot : Depot
  requests : List Request

namespace Traffic

/-- A depot that holds nothing and that nobody has asked for anything. -/
def fresh : Traffic := ⟨Depot.fresh, []⟩

/-- One move. -/
def step (s : Traffic) : Move → Traffic
  | .createUser username quota createdAt =>
    ⟨{ s.depot with db := (s.depot.db.createUser username quota createdAt).2 }, s.requests⟩
  | .setQuota id quota => ⟨{ s.depot with db := (s.depot.db.setQuota id quota).2 }, s.requests⟩
  | .arrive o => ⟨s.depot, s.requests ++ [o.request]⟩
  | .advance n =>
    match s.requests[n]? with
    | none => s
    | some r => ⟨(r.step s.depot).2, s.requests.set n (r.step s.depot).1⟩
  | .receive n e =>
    match s.requests[n]? with
    | none => s
    | some r => ⟨s.depot, s.requests.set n (r.receive e)⟩

/-- Several moves. -/
def run (s : Traffic) (moves : List Move) : Traffic := moves.foldl step s

end Traffic

end FileDepot
