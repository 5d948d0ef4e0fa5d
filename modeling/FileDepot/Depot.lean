import FileDepot.Blob.Tree
import FileDepot.Folders

/-!
# The depot

The database together with the blob tree, and what owners do with their finished files.
-/

namespace FileDepot

/-- The records and the contents. -/
structure Depot where
  db : Database
  blobs : BlobTree
  deriving DecidableEq, Repr

/-- An opened file: its record and what was found in its place in the blob tree. -/
structure Download where
  file : File
  entry : BlobEntry
  deriving DecidableEq, Repr

namespace Depot

/-- A depot that holds nothing. -/
def fresh : Depot := ⟨Database.fresh, BlobTree.empty⟩

/-- What can still be reached once the database has been closed: every statement on the records fails, and
    the blobs are where they were. -/
def closed (d : Depot) : Depot := ⟨Database.blank, d.blobs⟩

/-- Reads a finished file (`FileService::get_file`). -/
def file (d : Depot) (owner : Int) (id : String) : Outcome File :=
  match d.db.completeFile id owner with
  | .error e => .error e
  | .ok none => .error (.notFound "file")
  | .ok (some f) => .ok f

/-- Gives a finished file another display name (`FileService::rename`). The extension stays as it is. -/
def rename (d : Depot) (owner : Int) (id name : String) : Outcome File × Depot :=
  match Name.require name with
  | .error e => (.error e, d)
  | .ok name =>
    match d.file owner id with
    | .error e => (.error e, d)
    | .ok _ =>
      match d.db.updateFile id owner { FileUpdate.none with name := some name } with
      | (.error e, db) => (.error e, { d with db })
      | (.ok none, db) => (.error (.notFound "file"), { d with db })
      | (.ok (some f), db) => (.ok f, { d with db })

/-- Opens a finished file (`FileService::open_download`). -/
def openDownload (d : Depot) (owner : Int) (id : String) : Outcome Download :=
  match d.file owner id with
  | .error e => .error e
  | .ok f =>
    match d.blobs.open? (BlobPath.ofFile owner f.id) with
    | .error (.notFound _) => .error (.notFound "blob")
    | .error e => .error (.blob e)
    | .ok entry => .ok ⟨f, entry⟩

/-- The quota of an owner and the bytes counted against it (`FileService::usage`). -/
def usage (d : Depot) (owner : Int) : Outcome Usage :=
  match d.db.usageOf owner with
  | .error e => .error e
  | .ok none => .error (.upload .unknownOwner)
  | .ok (some u) => .ok u

/-- Whether an owner may upload now, and how many bytes at most (`UploadPipeline::admit`). -/
def uploadCeiling (d : Depot) (owner : Int) (maxFileSize : Nat) : Outcome Nat :=
  match d.usage owner with
  | .error e => .error e
  | .ok u => if u.isExhausted then .error (.upload .quotaExceeded) else .ok (u.ceiling maxFileSize)

end Depot

end FileDepot
