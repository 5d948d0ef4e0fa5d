import FileDepot.Depot
import FileDepot.Multipart.Reader
import FileDepot.Sniff

/-!
# Uploads

An upload takes the events of a multipart body, which may carry a `parent` part and carries exactly one
`file` part. A stub is inserted as soon as the type of the content can be told, the content is written as it
arrives, and the row is finished when the body ends. Whatever fails before that removes content and stub
again.

An upload either waits for the next event of its body or has one access to the depot to make, so that other
requests may run between any two of its steps.
-/

namespace FileDepot

/-- What is fixed when an upload starts. The id is new. -/
structure Ticket where
  owner : Int
  fileId : String
  createdAt : String
  maxFileSize : Nat
  deriving DecidableEq, Repr

namespace Ticket

/-- Where the content goes. -/
def blobPath (t : Ticket) : String := BlobPath.ofFile t.owner t.fileId

end Ticket

/-- A file whose stub is inserted, with the bytes written so far. -/
structure Staged where
  name : String
  extension : String
  mimeType : String
  size : Nat
  deriving DecidableEq, Repr

/-- What is known between two parts: how many bytes the file may have, where it goes, and the file once its
    part is over. -/
structure Scan where
  ceiling : Nat
  parent : String
  staged : Option Staged
  deriving DecidableEq, Repr

/-- What follows when content and stub have been removed. -/
inductive Aftermath where
  | fail (cause : Error)
  | explain (parent : String)
  deriving DecidableEq, Repr

/-- How far an upload has come. The first five wait for the body, and every other one but the last has one
    access to the depot to make; `ended` says that the file part is over. -/
inductive Upload where
  | betweenParts (scan : Scan)
  | inParent (scan : Scan) (text : Bytes)
  | inOther (scan : Scan)
  | inHead (scan : Scan) (name : String) (head : Bytes)
  | inBody (scan : Scan) (staged : Staged)
  | admission
  | insertStub (scan : Scan) (name : String) (head : Bytes) (ended : Bool)
  | makeDirectory (scan : Scan) (staged : Staged) (head : Bytes) (ended : Bool)
  | createBlob (scan : Scan) (staged : Staged) (head : Bytes) (ended : Bool)
  | write (scan : Scan) (staged : Staged) (bytes : Bytes) (ended : Bool)
  | finish (parent : String) (staged : Staged)
  | account (f : File)
  | removeBlob (next : Aftermath)
  | removeStub (next : Aftermath)
  | explainMiss (parent : String)
  | done (result : Outcome File)
  deriving Repr

namespace Upload

/-- The greatest length of the `parent` part in bytes (`MAX_PARENT_FIELD_LEN`). -/
def maxParentLength : Nat := 1024

/-- How many accesses to the depot come at most before the upload waits again or is done. -/
def stepsLeft : Upload → Nat
  | insertStub .. => 6
  | makeDirectory .. => 5
  | createBlob .. => 4
  | finish .. => 4
  | removeBlob _ => 3
  | removeStub _ => 2
  | explainMiss _ => 1
  | write .. => 1
  | account _ => 1
  | admission => 1
  | _ => 0

/-- The result of an upload that is done. -/
def result? : Upload → Option (Outcome File)
  | done result => some result
  | _ => none

/-- Gives up between two parts or before the stub is inserted. -/
def abort (scan : Scan) (cause : UploadError) : Upload :=
  match scan.staged with
  | none => done (.error (.upload cause))
  | some _ => removeBlob (.fail (.upload cause))

/-- Goes on with the file part once the type of its content can be told from `head`. -/
def headComplete (scan : Scan) (name : String) (head : Bytes) (ended : Bool) : Upload :=
  if scan.ceiling < head.length then abort scan (.payloadTooLarge scan.ceiling)
  else insertStub scan name head ended

/-- Takes the next event of the body (`UploadPipeline::scan`, `UploadPipeline::ingest`, `read_parent`). The depot
    is not touched. -/
def receive (u : Upload) (e : Multipart.Event) : Upload :=
  match u, e with
  | betweenParts scan, .part (some "parent") _ => inParent scan []
  | betweenParts scan, .part (some "file") filename =>
    if scan.staged.isSome then abort scan .multipleFiles
    else inHead scan (Name.ofClient (filename.getD "")) []
  | betweenParts scan, .part _ _ => inOther scan
  | betweenParts scan, .bodyEnd =>
    match scan.staged with
    | none => done (.error (.upload .missingFile))
    | some staged => finish scan.parent staged
  | betweenParts scan, .broken cause => abort scan cause
  | inParent scan text, .data bytes =>
    if maxParentLength < text.length + bytes.length then abort scan .parentTooLong
    else inParent scan (text ++ bytes)
  | inParent scan text, .partEnd =>
    match Bytes.text? text with
    | none => abort scan (.malformed "parent is not valid UTF-8")
    | some ref => betweenParts { scan with parent := FolderRef.normalize ref }
  | inParent scan _, .broken cause => abort scan cause
  | inOther scan, .partEnd => betweenParts scan
  | inOther scan, .broken cause => abort scan cause
  | inHead scan name head, .data bytes =>
    if (head ++ bytes).length < Sniff.windowLength then inHead scan name (head ++ bytes)
    else headComplete scan name (head ++ bytes) false
  | inHead scan name head, .partEnd => headComplete scan name head true
  | inHead scan _ _, .broken cause => abort scan cause
  | inBody scan staged, .data bytes =>
    if scan.ceiling < staged.size + bytes.length then
      removeBlob (.fail (.upload (.payloadTooLarge scan.ceiling)))
    else write scan staged bytes false
  | inBody scan staged, .partEnd => betweenParts { scan with staged := some staged }
  | inBody _ _, .broken cause => removeBlob (.fail (.upload cause))
  | u, _ => u

/-- The row of the stub of a file (`NewFile`). -/
def stub (t : Ticket) (parent : String) (staged : Staged) : File :=
  ⟨t.fileId, staged.name, staged.extension, staged.mimeType, 0, .pending, parent, t.owner, t.createdAt⟩

/-- The fields that are written when an upload is finished. -/
def finalFields (parent : String) (staged : Staged) : FileUpdate :=
  ⟨some staged.name, some staged.extension, some staged.mimeType, some staged.size, some .complete,
    some parent⟩

/-- The error of an upload whose stub is gone when it is finished. -/
def vanished (t : Ticket) : Error :=
  .database ("pending file " ++ t.fileId ++ " disappeared before finalization")

/-- Makes the next access to the depot: from `insertStub` to `write` those of `UploadPipeline::ingest`, `finish`
    and `account` those of `finalize`, `removeBlob` and `removeStub` those of `rollback`, and `explainMiss` the one
    of `finalize_miss`.

    One thing is idealised: an open blob takes every byte that is written to it, as on a disk that never fills up,
    so that `write` does not fail. A failing write or flush would go on with `removeBlob` and the failure as its
    cause, as a failing `createBlob` does. -/
def advance (t : Ticket) (d : Depot) : Upload → Upload × Depot
  | admission =>
    match d.uploadCeiling t.owner t.maxFileSize with
    | .error e => (done (.error e), d)
    | .ok ceiling => (betweenParts ⟨ceiling, "", none⟩, d)
  | insertStub scan name head ended =>
    let staged : Staged := ⟨name, Name.extension name, Sniff.detect head, 0⟩
    match d.db.insertFile (stub t scan.parent staged) with
    | (.error e, db) => (done (.error e), { d with db })
    | (.ok _, db) => (makeDirectory scan staged head ended, { d with db })
  | makeDirectory scan staged head ended =>
    match d.blobs.makeDirectory (toString t.owner) with
    | (.error e, blobs) => (removeBlob (.fail (.blob e)), { d with blobs })
    | (.ok (), blobs) => (createBlob scan staged head ended, { d with blobs })
  | createBlob scan staged head ended =>
    match d.blobs.create t.blobPath with
    | .error e => (removeBlob (.fail (.blob e)), d)
    | .ok blobs => (write scan staged head ended, { d with blobs })
  | write scan staged bytes ended =>
    let staged := { staged with size := staged.size + bytes.length }
    let d := { d with blobs := d.blobs.append t.blobPath bytes }
    if ended then (betweenParts { scan with staged := some staged }, d) else (inBody scan staged, d)
  | finish parent staged =>
    match d.db.updateFile t.fileId t.owner (finalFields parent staged) with
    | (.error e, db) => (removeBlob (.fail e), { d with db })
    | (.ok none, db) => (removeBlob (.explain parent), { d with db })
    | (.ok (some f), db) => (account f, { d with db })
  | account f =>
    match d.db.adjustSpaceUsed t.owner f.size with
    | (.error e, db) => (done (.error e), { d with db })
    | (.ok _, db) => (done (.ok f), { d with db })
  | removeBlob next =>
    match d.blobs.remove t.blobPath with
    | .error _ => (removeStub next, d)
    | .ok blobs => (removeStub next, { d with blobs })
  | removeStub next =>
    let d := { d with db := (d.db.deleteFile t.fileId t.owner).2 }
    match next with
    | .fail e => (done (.error e), d)
    | .explain parent => (explainMiss parent, d)
  | explainMiss parent =>
    if parent = "" then (done (.error (vanished t)), d)
    else
      match d.db.folderById parent t.owner with
      | .error e => (done (.error e), d)
      | .ok none => (done (.error (.parentNotFound parent)), d)
      | .ok (some _) => (done (.error (vanished t)), d)
  | u => (u, d)

theorem stepsLeft_advance_lt (t : Ticket) (d : Depot) (u : Upload) (h : 0 < u.stepsLeft) :
    (advance t d u).1.stepsLeft < u.stepsLeft := by
  cases u with
  | admission => simp only [advance]; split <;> simp [stepsLeft]
  | insertStub scan name head ended => simp only [advance]; split <;> simp [stepsLeft]
  | makeDirectory scan staged head ended => simp only [advance]; split <;> simp [stepsLeft]
  | createBlob scan staged head ended => simp only [advance]; split <;> simp [stepsLeft]
  | write scan staged bytes ended => simp only [advance]; split <;> simp [stepsLeft]
  | finish parent staged => simp only [advance]; split <;> simp [stepsLeft]
  | account f => simp only [advance]; split <;> simp [stepsLeft]
  | removeBlob next => simp only [advance]; split <;> simp [stepsLeft]
  | removeStub next => cases next <;> simp [advance, stepsLeft]
  | explainMiss parent =>
    simp only [advance]
    split
    · simp [stepsLeft]
    · split <;> simp [stepsLeft]
  | betweenParts scan => simp [stepsLeft] at h
  | inParent scan text => simp [stepsLeft] at h
  | inOther scan => simp [stepsLeft] at h
  | inHead scan name head => simp [stepsLeft] at h
  | inBody scan staged => simp [stepsLeft] at h
  | done result => simp [stepsLeft] at h

/-- Makes accesses to the depot until the upload waits for its body or is done. -/
def settle (t : Ticket) (d : Depot) (u : Upload) : Upload × Depot :=
  if _h : 0 < u.stepsLeft then settle t (advance t d u).2 (advance t d u).1 else (u, d)
termination_by u.stepsLeft
decreasing_by exact stepsLeft_advance_lt t d u _h

/-- Takes events of the body one after the other. -/
def feed (t : Ticket) (d : Depot) (u : Upload) (events : List Multipart.Event) : Upload × Depot :=
  events.foldl (fun state e => settle t state.2 (state.1.receive e)) (u, d)

/-- Runs an upload on the events of a whole body (`UploadPipeline::run`). -/
def run (t : Ticket) (d : Depot) (events : List Multipart.Event) : Upload × Depot :=
  let start := settle t d admission
  feed t start.2 start.1 events

end Upload

/-- An upload together with the reader of its body and the number of bytes that the body may still have. -/
structure Intake where
  ticket : Ticket
  reader : Multipart.Reader
  upload : Upload
  allowance : Nat

namespace Intake

/-- Starts an upload whose body has the given boundary and at most `limit` bytes. -/
def start (t : Ticket) (boundary : Bytes) (limit : Nat) (d : Depot) : Intake × Depot :=
  let state := Upload.settle t d .admission
  (⟨t, .start boundary, state.1, limit⟩, state.2)

/-- Hands events of the body to the upload. -/
def handOver (i : Intake) (events : List Multipart.Event) (d : Depot) : Intake × Depot :=
  let state := Upload.feed i.ticket d i.upload events
  ({ i with upload := state.1 }, state.2)

/-- Delivers the next bytes of the body; `atEnd` says that no more will come. -/
def deliver (i : Intake) (bytes : Bytes) (atEnd : Bool) (d : Depot) : Intake × Depot :=
  if i.allowance < bytes.length then i.handOver [.broken .bodyTooLarge] d
  else
    let found := i.reader.push bytes atEnd
    { i with reader := found.1, allowance := i.allowance - bytes.length }.handOver found.2 d

/-- Lets the body break off. -/
def interrupt (i : Intake) (d : Depot) : Intake × Depot := i.handOver [Multipart.Reader.interrupted] d

/-- The result of the upload once it is done. -/
def result? (i : Intake) : Option (Outcome File) := i.upload.result?

end Intake

end FileDepot
