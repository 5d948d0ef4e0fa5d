import FileDepot.Proofs.Blob.Staging
import FileDepot.Proofs.Store.Rows
import FileDepot.Proofs.Upload.Hearing

/-!
# Whole bodies

A body as its parts, each with the chunks in which its bytes arrive, and what an upload comes to that has all of it
at once: it looks at one part after the other as a whole, and stores the file at the end.
-/

namespace FileDepot

namespace Multipart

/-- A part of a body, with its bytes in the chunks in which they arrive. -/
structure FormPart where
  name : Option String
  filename : Option String
  chunks : List Bytes
  deriving DecidableEq, Repr

/-- What a part is for, told by its name. -/
inductive Role where
  | parent
  | file
  | other
  deriving DecidableEq, Repr

namespace FormPart

/-- All bytes of the part. -/
def content (p : FormPart) : Bytes := p.chunks.flatten

/-- What the part is for. -/
def role (p : FormPart) : Role :=
  match p.name with
  | some "parent" => .parent
  | some "file" => .file
  | _ => .other

/-- The events of the part, its end left out. -/
def events (p : FormPart) : List Event := .part p.name p.filename :: p.chunks.map .data

end FormPart

/-- How a body ends: as it should, or broken off between two parts or within one more part. -/
inductive BodyEnd where
  | proper
  | broken (cause : UploadError)
  | brokenIn (p : FormPart) (cause : UploadError)
  deriving DecidableEq, Repr

/-- The events at the end of a body. -/
def BodyEnd.events : BodyEnd → List Event
  | proper => [.bodyEnd]
  | broken cause => [.broken cause]
  | brokenIn p cause => p.events ++ [.broken cause]

/-- A body: its whole parts and its end. -/
structure FormBody where
  parts : List FormPart
  ending : BodyEnd
  deriving DecidableEq, Repr

/-- All events of a body. -/
def FormBody.events (b : FormBody) : List Event :=
  (b.parts.flatMap fun p => p.events ++ [.partEnd]) ++ b.ending.events

end Multipart

open Multipart

/-- A file as it is read from a whole part. -/
structure FileDraft where
  name : String
  content : Bytes
  deriving DecidableEq, Repr

namespace FileDraft

/-- The finished row of the file. -/
def row (f : FileDraft) (t : Ticket) (parent : String) : File :=
  ⟨t.fileId, f.name, Name.extension f.name, Sniff.detect f.content, f.content.length, .complete, parent,
    t.owner, t.createdAt⟩

/-- What an upload in pieces knows of the file. -/
def staged (f : FileDraft) : Staged :=
  ⟨f.name, Name.extension f.name, Sniff.detect f.content, f.content.length⟩

/-- What it knows before any byte is written. -/
def begun (f : FileDraft) : Staged := ⟨f.name, Name.extension f.name, Sniff.detect f.content, 0⟩

/-- The file with more bytes behind the others. -/
def grown (f : FileDraft) (bytes : Bytes) : FileDraft := { f with content := f.content ++ bytes }

end FileDraft

/-- What the parts of a body have told: where the file goes, and the file. -/
structure BodyDraft where
  parent : String
  file : Option FileDraft
  deriving DecidableEq, Repr

/-- The file that a part is, if it has the given bytes. -/
def Multipart.FormPart.draft (p : FormPart) (bytes : Bytes) : FileDraft :=
  ⟨Name.ofClient (p.filename.getD ""), bytes⟩

theorem FileDraft.grown_draft (p : FormPart) (received bytes : Bytes) :
    (p.draft received).grown bytes = p.draft (received ++ bytes) := by
  simp only [FileDraft.grown, Multipart.FormPart.draft]

namespace BodyDraft

/-- Nothing has been told. -/
def blank : BodyDraft := ⟨"", none⟩

/-- Why a part is refused for its bytes, before its end matters: the parent has more than 1024, or the file is
    a second one, or it goes beyond the ceiling and has filled the window in which its type is looked for. -/
def refusal (ceiling : Nat) (b : BodyDraft) (role : Role) (bytes : Bytes) : Option UploadError :=
  match role with
  | .parent => if Upload.maxParentLength < bytes.length then some .parentTooLong else none
  | .file =>
    if b.file.isSome then some .multipleFiles
    else if Sniff.windowLength ≤ bytes.length ∧ ceiling < bytes.length then some (.payloadTooLarge ceiling)
    else none
  | .other => none

section Refusal

variable {c : Nat} {b : BodyDraft} {p : FormPart} {received bytes : Bytes} {cause : UploadError}

theorem refusal_of_parent (hrole : p.role = .parent) :
    b.refusal c p.role bytes = if Upload.maxParentLength < bytes.length then some .parentTooLong else none := by
  rw [hrole, BodyDraft.refusal]

theorem refusal_of_other (hrole : p.role = .other) : b.refusal c p.role bytes = none := by
  rw [hrole, BodyDraft.refusal]

theorem refusal_of_second (hrole : p.role = .file) (hfile : b.file.isSome) :
    b.refusal c p.role bytes = some .multipleFiles := by
  rw [hrole, BodyDraft.refusal, if_pos hfile]

theorem refusal_of_file (hrole : p.role = .file) (hfile : b.file = none) :
    b.refusal c p.role bytes =
      if Sniff.windowLength ≤ bytes.length ∧ c < bytes.length then some (.payloadTooLarge c) else none := by
  simp only [hrole, BodyDraft.refusal, hfile, Option.isSome_none, Bool.false_eq_true, if_false]

/-- A part that is refused for its first bytes is refused with more of them. -/
theorem refusal_append (h : b.refusal c p.role received = some cause) (bytes : Bytes) :
    b.refusal c p.role (received ++ bytes) = some cause := by
  have hgrown : (received ++ bytes).length = received.length + bytes.length := List.length_append
  cases hrole : p.role with
  | parent =>
    rw [refusal_of_parent hrole] at h
    rw [← hrole, refusal_of_parent hrole]
    split at h
    · next hlen =>
      have hlong : Upload.maxParentLength < (received ++ bytes).length := by omega
      rw [if_pos hlong]
      exact h
    · cases h
  | other =>
    rw [refusal_of_other hrole] at h
    cases h
  | file =>
    rw [← hrole]
    cases hfile : b.file with
    | some f =>
      have hsecond : b.file.isSome := by rw [hfile]; rfl
      rw [refusal_of_second hrole hsecond] at h ⊢
      exact h
    | none =>
      rw [refusal_of_file hrole hfile] at h ⊢
      split at h
      · next hlen =>
        have hlarge : Sniff.windowLength ≤ (received ++ bytes).length ∧ c < (received ++ bytes).length := by
          omega
        rw [if_pos hlarge]
        exact h
      · cases h

end Refusal

/-- Takes a whole part. -/
def take (ceiling : Nat) (b : BodyDraft) (p : FormPart) : Except UploadError BodyDraft :=
  match b.refusal ceiling p.role p.content with
  | some cause => .error cause
  | none =>
    match p.role with
    | .parent =>
      match Bytes.text? p.content with
      | none => .error (.malformed "parent is not valid UTF-8")
      | some ref => .ok { b with parent := FolderRef.normalize ref }
    | .file =>
      if ceiling < p.content.length then .error (.payloadTooLarge ceiling)
      else .ok { b with file := some (p.draft p.content) }
    | .other => .ok b

/-- Takes whole parts in order, up to the first that fails. -/
def takeAll (ceiling : Nat) (b : BodyDraft) : List FormPart → Except UploadError BodyDraft
  | [] => .ok b
  | p :: rest =>
    match b.take ceiling p with
    | .error cause => .error cause
    | .ok b' => b'.takeAll ceiling rest

/-- What the end of a body comes to: the folder and the file, or the reason why there is no upload. -/
def close (ceiling : Nat) (b : BodyDraft) : BodyEnd → Except UploadError (String × FileDraft)
  | .proper =>
    match b.file with
    | none => .error .missingFile
    | some f => .ok (b.parent, f)
  | .broken cause => .error cause
  | .brokenIn p cause => .error ((b.refusal ceiling p.role p.content).getD cause)

/-- What a whole body comes to: its parts are taken in order, and then its end. -/
def read (ceiling : Nat) (body : FormBody) : Except UploadError (String × FileDraft) :=
  match blank.takeAll ceiling body.parts with
  | .error cause => .error cause
  | .ok b => b.close ceiling body.ending

end BodyDraft

namespace Depot

/-- Puts a whole file into its folder: its finished row, its content and its bytes on the counter. -/
def store (d : Depot) (t : Ticket) (parent : String) (f : FileDraft) : Outcome File × Depot :=
  if parent = "" ∨ (Database.findFolder d.db.folderRows parent t.owner).isSome then
    let r := (d.db.withFiles (d.db.fileRows ++ [f.row t parent])).adjustSpaceUsed t.owner f.content.length
    (r.1.map fun _ => f.row t parent,
      ⟨r.2, (d.blobs.withDirectory t.owner).put t.place (.blob f.content)⟩)
  else (.error (.parentNotFound parent), d)

/-- Stores what a body comes to. -/
def conclude (d : Depot) (t : Ticket) : Except UploadError (String × FileDraft) → Outcome File × Depot
  | .error cause => (.error (.upload cause), d)
  | .ok (parent, f) => d.store t parent f

/-- Uploads a body of which everything is there. -/
def uploadWhole (d : Depot) (t : Ticket) (body : FormBody) : Outcome File × Depot :=
  match d.uploadCeiling t.owner t.maxFileSize with
  | .error e => (.error e, d)
  | .ok ceiling => d.conclude t (BodyDraft.read ceiling body)

end Depot

end FileDepot
