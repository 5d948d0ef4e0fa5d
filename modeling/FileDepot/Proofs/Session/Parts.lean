import FileDepot.Proofs.Blob.Parts
import FileDepot.Proofs.Session.Statements
import FileDepot.Proofs.Store.Parts

/-!
# The part of one owner in a depot

The user, the folders, the files, and the directory of the owner with everything below it. Every access of an
upload and every operation ends alike in two depots with the same part of the owner, and does the same to that
part. The contents of all other owners are left as they were.
-/

namespace FileDepot

open BlobPath Database Depot

namespace Database

variable {db db' : Database} {owner : Int} {id : String} {newId? : Option String}

/-- The constraints of the schema hold, and no other owner has a file with the given id. -/
structure Hosts (owner : Int) (id : String) (db : Database) : Prop where
  lawful : db.Lawful
  spares : db.SparesFiles owner id

/-- What one owner does keeps the constraints. -/
theorem Steps.lawful_of_owner (h : Steps (Statement.MadeBy (some owner) newId?) db db') (hl : db.Lawful) :
    db'.Lawful := by
  refine h.lawful (fun st hst hnone => ?_) hl
  rw [hst.owner] at hnone
  cases hnone

theorem Steps.others (h : Steps (Statement.MadeBy (some owner) newId?) db db') (hl : db.Lawful) {other : Int}
    (hne : other ≠ owner) : SamePart other db db' :=
  h.samePart (fun _ hst => hst.owner) hl hne

theorem Hosts.of_steps (h : db.Hosts owner id) (hs : Steps (Statement.MadeBy (some owner) newId?) db db') :
    db'.Hosts owner id :=
  ⟨hs.lawful_of_owner h.lawful, h.spares.of_samePart fun _ hne => hs.others h.lawful hne⟩

end Database

namespace Depot

variable {d e d' : Depot} {owner : Int}

/-- Two depots have the same part of an owner. -/
structure SamePart (owner : Int) (d e : Depot) : Prop where
  db : Database.SamePart owner d.db e.db
  blobs : BlobTree.SamePart (toString owner) d.blobs e.blobs

/-- Something ends alike in two depots and does the same to the part of an owner. -/
def Alike {α : Type} (owner : Int) (r r' : α × Depot) : Prop := r'.1 = r.1 ∧ SamePart owner r.2 r'.2

namespace SamePart

theorem refl (owner : Int) (d : Depot) : SamePart owner d d := ⟨.refl owner d.db, .refl (toString owner) d.blobs⟩

theorem trans (h : SamePart owner d e) (h' : SamePart owner e d') : SamePart owner d d' :=
  ⟨h.db.trans h'.db, h.blobs.trans h'.blobs⟩

theorem withDb (h : SamePart owner d e) {db db' : Database} (hdb : Database.SamePart owner db db') :
    SamePart owner { d with db } { e with db := db' } := ⟨hdb, h.blobs⟩

theorem withBlobs (h : SamePart owner d e) {t t' : BlobTree} (ht : BlobTree.SamePart (toString owner) t t') :
    SamePart owner { d with blobs := t } { e with blobs := t' } := ⟨h.db, ht⟩

section Reads

variable (h : SamePart owner d e) (hd : d.db.Lawful) (he : e.db.Lawful)

include h hd he

theorem file_eq (id : String) : e.file owner id = d.file owner id := by
  rw [file, file, h.db.completeFile_eq hd he]

theorem openDownload_eq (id : String) : e.openDownload owner id = d.openDownload owner id := by
  unfold openDownload
  rw [h.file_eq hd he]
  cases d.file owner id with
  | error cause => rfl
  | ok f => simp only [h.blobs.open?_eq]

theorem usage_eq : e.usage owner = d.usage owner := by
  rw [usage, usage, h.db.usageOf_eq hd he]

theorem uploadCeiling_eq (maxFileSize : Nat) : e.uploadCeiling owner maxFileSize = d.uploadCeiling owner maxFileSize := by
  rw [uploadCeiling, uploadCeiling, h.usage_eq hd he]

end Reads

end SamePart

end Depot

/-! ## Uploads -/

namespace Upload

variable {t : Ticket} {d e : Depot} {u : Upload}

/-- An access ends alike in two depots with the same part of the owner. -/
theorem alike_advance (h : Depot.SamePart t.owner d e) (hd : d.db.Hosts t.owner t.fileId)
    (he : e.db.Hosts t.owner t.fileId) (u : Upload) : Depot.Alike t.owner (advance t d u) (advance t e u) := by
  cases u with
  | admission =>
    simp only [advance, h.uploadCeiling_eq hd.lawful he.lawful]
    split
    · exact ⟨rfl, h⟩
    · exact ⟨rfl, h⟩
  | insertStub scan name head ended =>
    obtain ⟨result, db, db', hr, hr', hpart⟩ := (h.db.insertFile hd.lawful he.lawful
      (f := stub t scan.parent ⟨name, Name.extension name, Sniff.detect head, 0⟩) rfl hd.spares he.spares).cases
    simp only [advance, hr, hr']
    cases result with
    | error cause => exact ⟨rfl, h.withDb hpart⟩
    | ok f => exact ⟨rfl, h.withDb hpart⟩
  | makeDirectory scan staged head ended =>
    obtain ⟨hresult, hpart⟩ := h.blobs.makeDirectory
    revert hresult hpart
    simp only [advance]
    generalize d.blobs.makeDirectory (toString t.owner) = r
    generalize e.blobs.makeDirectory (toString t.owner) = r'
    obtain ⟨result, blobs⟩ := r
    obtain ⟨result', blobs'⟩ := r'
    rintro ⟨⟩ hpart
    cases result with
    | error cause => exact ⟨rfl, h.withBlobs hpart⟩
    | ok made => exact ⟨rfl, h.withBlobs hpart⟩
  | createBlob scan staged head ended =>
    have hs := h.blobs.create t.fileId
    revert hs
    simp only [advance, Ticket.blobPath]
    generalize d.blobs.create (ofFile t.owner t.fileId) = r
    generalize e.blobs.create (ofFile t.owner t.fileId) = r'
    rintro (cause | hpart)
    · exact ⟨rfl, h⟩
    · exact ⟨rfl, h.withBlobs hpart⟩
  | write scan staged bytes ended =>
    have hpart := h.withBlobs (h.blobs.append t.fileId bytes)
    cases ended with
    | true => exact ⟨rfl, hpart⟩
    | false => exact ⟨rfl, hpart⟩
  | finish parent staged =>
    obtain ⟨result, db, db', hr, hr', hpart⟩ :=
      (h.db.updateFile hd.lawful he.lawful t.fileId (finalFields parent staged)).cases
    simp only [advance, hr, hr']
    cases result with
    | error cause => exact ⟨rfl, h.withDb hpart⟩
    | ok found =>
      cases found with
      | none => exact ⟨rfl, h.withDb hpart⟩
      | some f => exact ⟨rfl, h.withDb hpart⟩
  | account f =>
    obtain ⟨result, db, db', hr, hr', hpart⟩ := (h.db.adjustSpaceUsed hd.lawful he.lawful f.size).cases
    simp only [advance, hr, hr']
    cases result with
    | error cause => exact ⟨rfl, h.withDb hpart⟩
    | ok n => exact ⟨rfl, h.withDb hpart⟩
  | removeBlob next =>
    have hs := h.blobs.remove t.fileId
    revert hs
    simp only [advance, Ticket.blobPath]
    generalize d.blobs.remove (ofFile t.owner t.fileId) = r
    generalize e.blobs.remove (ofFile t.owner t.fileId) = r'
    rintro (cause | hpart)
    · exact ⟨rfl, h⟩
    · exact ⟨rfl, h.withBlobs hpart⟩
  | removeStub next =>
    have hpart := h.withDb (h.db.deleteFile hd.lawful he.lawful t.fileId).2
    cases next with
    | fail cause => exact ⟨rfl, hpart⟩
    | explain parent => exact ⟨rfl, hpart⟩
  | explainMiss parent =>
    simp only [advance, h.db.folderById_eq hd.lawful he.lawful]
    split
    · exact ⟨rfl, h⟩
    · split
      · exact ⟨rfl, h⟩
      · exact ⟨rfl, h⟩
      · exact ⟨rfl, h⟩
  | _ => exact ⟨rfl, h⟩

/-- So do all accesses until the upload waits again. -/
theorem alike_settle (h : Depot.SamePart t.owner d e) (hd : d.db.Hosts t.owner t.fileId)
    (he : e.db.Hosts t.owner t.fileId) (u : Upload) : Depot.Alike t.owner (settle t d u) (settle t e u) := by
  induction d, u using settle.induct t generalizing e with
  | case1 d u hs ih =>
    rw [settle_of_pos t d hs, settle_of_pos t e hs]
    obtain ⟨hnext, hpart⟩ := alike_advance h hd he u
    rw [hnext]
    exact ih hpart (hd.of_steps (steps_advance t d u)) (he.of_steps (steps_advance t e u))
  | case2 d u hs =>
    rw [settle_of_waiting t d hs, settle_of_waiting t e hs]
    exact ⟨rfl, h⟩

theorem alike_feed (h : Depot.SamePart t.owner d e) (hd : d.db.Hosts t.owner t.fileId)
    (he : e.db.Hosts t.owner t.fileId) (u : Upload) (events : List Multipart.Event) :
    Depot.Alike t.owner (feed t d u events) (feed t e u events) := by
  induction events generalizing d e u with
  | nil => exact ⟨rfl, h⟩
  | cons x rest ih =>
    rw [feed_cons, feed_cons]
    obtain ⟨hnext, hpart⟩ := alike_settle h hd he (u.receive x)
    rw [hnext]
    exact ih hpart (hd.of_steps (steps_settle t d _)) (he.of_steps (steps_settle t e _)) _

/-- The contents of all other owners are left as they were. -/
theorem others_advance {root : String} (hne : toString t.owner ≠ root) (d : Depot) (u : Upload) :
    BlobTree.SamePart root d.blobs (advance t d u).2.blobs := by
  cases u with
  | makeDirectory scan staged head ended =>
    have hpart := BlobTree.samePart_makeDirectory hne d.blobs
    revert hpart
    simp only [advance]
    generalize d.blobs.makeDirectory (toString t.owner) = r
    obtain ⟨result, blobs⟩ := r
    intro hpart
    cases result with
    | error cause => exact hpart
    | ok made => exact hpart
  | createBlob scan staged head ended =>
    simp only [advance]
    split
    · exact .refl root d.blobs
    · next hc => exact BlobTree.samePart_create hne hc
  | write scan staged bytes ended =>
    have hpart := BlobTree.samePart_append hne d.blobs t.fileId bytes
    cases ended with
    | true => exact hpart
    | false => exact hpart
  | removeBlob next =>
    simp only [advance]
    split
    · exact .refl root d.blobs
    · next hr => exact BlobTree.samePart_remove hne hr
  | admission | insertStub | finish | account =>
    simp only [advance]
    split <;> exact .refl root d.blobs
  | removeStub next => cases next <;> exact .refl root d.blobs
  | explainMiss parent =>
    simp only [advance]
    split
    · exact .refl root d.blobs
    · split <;> exact .refl root d.blobs
  | _ => exact .refl root d.blobs

theorem others_settle {root : String} (hne : toString t.owner ≠ root) (d : Depot) (u : Upload) :
    BlobTree.SamePart root d.blobs (settle t d u).2.blobs :=
  settle_keeps (P := fun _ e => BlobTree.SamePart root d.blobs e.blobs)
    (fun u e _ h => h.trans (others_advance hne e u)) d u (.refl root d.blobs)

theorem others_feed {root : String} (hne : toString t.owner ≠ root) (d : Depot) (u : Upload)
    (events : List Multipart.Event) : BlobTree.SamePart root d.blobs (feed t d u events).2.blobs := by
  induction events generalizing d u with
  | nil => exact .refl root d.blobs
  | cons x rest ih =>
    rw [feed_cons]
    exact (others_settle hne d _).trans (ih _ _)

/-- Whatever an upload does, the parts of all others stay as they were. -/
theorem samePart_settle {other : Int} (hl : d.db.Lawful) (hne : other ≠ t.owner) (u : Upload) :
    d.SamePart other (settle t d u).2 :=
  ⟨(steps_settle t d u).others hl hne, others_settle (fun heq => hne (toString_inj heq).symm) d u⟩

theorem samePart_feed {other : Int} (hl : d.db.Lawful) (hne : other ≠ t.owner) (u : Upload)
    (events : List Multipart.Event) : d.SamePart other (feed t d u events).2 :=
  ⟨(steps_feed t d u events).others hl hne, others_feed (fun heq => hne (toString_inj heq).symm) d u events⟩

end Upload

/-! ## Operations -/

namespace Deletion

variable {owner : Int} {id : String} {d e : Depot}

theorem alike_step (h : Depot.SamePart owner d e) (hd : d.db.Lawful) (he : e.db.Lawful) (id : String)
    (x : Deletion) :
    Depot.Alike owner (step owner id d x) (step owner id e x) := by
  cases x with
  | lookup =>
    simp only [step, h.file_eq hd he]
    split
    · exact ⟨rfl, h⟩
    · exact ⟨rfl, h⟩
  | removeBlob f =>
    have hs := h.blobs.remove f.id
    revert hs
    simp only [step]
    generalize d.blobs.remove (ofFile owner f.id) = r
    generalize e.blobs.remove (ofFile owner f.id) = r'
    rintro (cause | hpart)
    · cases cause with
      | notFound path => exact ⟨rfl, h⟩
      | invalidPath path => exact ⟨rfl, h⟩
      | io detail => exact ⟨rfl, h⟩
    · exact ⟨rfl, h.withBlobs hpart⟩
  | removeRow f =>
    obtain ⟨result, db, db', hr, hr', hpart⟩ := (h.db.deleteFile hd he f.id).cases
    simp only [step, hr, hr']
    cases result with
    | error cause => exact ⟨rfl, h.withDb hpart⟩
    | ok removed => cases removed <;> exact ⟨rfl, h.withDb hpart⟩
  | release f =>
    obtain ⟨result, db, db', hr, hr', hpart⟩ := (h.db.adjustSpaceUsed hd he (opposite f.size)).cases
    simp only [step, hr, hr']
    cases result with
    | error cause => exact ⟨rfl, h.withDb hpart⟩
    | ok n => exact ⟨rfl, h.withDb hpart⟩
  | done result => exact ⟨rfl, h⟩

theorem lawful_step (hd : d.db.Lawful) (x : Deletion) : (step owner id d x).2.db.Lawful :=
  ((Request.fileDeletion owner id x).steps_step d).lawful_of_owner hd

theorem alike_run (h : Depot.SamePart owner d e) (hd : d.db.Lawful) (he : e.db.Lawful) (id : String)
    (x : Deletion) : Depot.Alike owner (run owner id d x) (run owner id e x) := by
  have hboth : ∀ d e x, Depot.SamePart owner d e ∧ d.db.Lawful ∧ e.db.Lawful →
      (step owner id e x).1 = (step owner id d x).1 ∧
        Depot.SamePart owner (step owner id d x).2 (step owner id e x).2 ∧
          (step owner id d x).2.db.Lawful ∧ (step owner id e x).2.db.Lawful := by
    rintro d e x ⟨h, hd, he⟩
    obtain ⟨hnext, hpart⟩ := alike_step h hd he id x
    exact ⟨hnext, hpart, lawful_step hd x, lawful_step he x⟩
  have hrun := run_keeps_both hboth x ⟨h, hd, he⟩
  exact ⟨hrun.1, hrun.2.1⟩

theorem others_step {root : String} (hne : toString owner ≠ root) (d : Depot) (x : Deletion) :
    BlobTree.SamePart root d.blobs (step owner id d x).2.blobs := by
  cases x with
  | removeBlob f =>
    simp only [step]
    split
    · next hr => exact BlobTree.samePart_remove hne hr
    · exact .refl root d.blobs
    · exact .refl root d.blobs
  | lookup | removeRow | release =>
    simp only [step]
    split <;> exact .refl root d.blobs
  | done result => exact .refl root d.blobs

theorem others_run {root : String} (hne : toString owner ≠ root) (d : Depot) (x : Deletion) :
    BlobTree.SamePart root d.blobs (run owner id d x).2.blobs :=
  run_keeps (P := fun e => BlobTree.SamePart root d.blobs e.blobs)
    (fun e x h => h.trans (others_step hne e x)) d x (.refl root d.blobs)

end Deletion

namespace Depot.SamePart

theorem rename {owner : Int} {d e : Depot} (h : SamePart owner d e) (hd : d.db.Lawful) (he : e.db.Lawful)
    (id name : String) : Alike owner (d.rename owner id name) (e.rename owner id name) := by
  unfold Depot.rename
  rw [h.file_eq hd he]
  cases Name.require name with
  | error cause => exact ⟨rfl, h⟩
  | ok name' =>
    cases d.file owner id with
    | error cause => exact ⟨rfl, h⟩
    | ok f =>
      obtain ⟨result, db, db', hr, hr', hpart⟩ :=
        (h.db.updateFile hd he id { FileUpdate.none with name := some name' }).cases
      simp only [hr, hr']
      cases result with
      | error cause => exact ⟨rfl, h.withDb hpart⟩
      | ok found =>
        cases found with
        | none => exact ⟨rfl, h.withDb hpart⟩
        | some f => exact ⟨rfl, h.withDb hpart⟩

end Depot.SamePart

namespace Operation

variable {owner : Int} {d e : Depot} {op : Operation}

/-- Whether an operation is one of the given owner, and the id that is generated for it not one of another
    owner. -/
def IsFor (owner : Int) (db : Database) (op : Operation) : Prop :=
  op.owner? = some owner ∧ ∀ id, op.newId? = some id → db.SparesFolders owner id

/-- Every operation of an owner is answered alike in two depots with the same part of the owner. -/
theorem alike_run (h : Depot.SamePart owner d e) (hd : d.db.Lawful) (he : e.db.Lawful)
    (hopd : op.IsFor owner d.db) (hope : op.IsFor owner e.db) : Depot.Alike owner (op.run d) (op.run e) := by
  obtain ⟨howner, hsd⟩ := hopd
  obtain ⟨-, hse⟩ := hope
  cases op with
  | createUser username quota createdAt => cases howner
  | setQuota id quota => cases howner
  | createFolder o name parent id createdAt =>
    cases howner
    have hs := h.db.createFolder hd he (hsd id rfl) (hse id rfl) name parent createdAt
    exact ⟨congrArg Answer.folder hs.1, h.withDb hs.2⟩
  | deleteFolder o ref =>
    cases howner
    have hs := h.db.deleteFolder hd he ref
    exact ⟨congrArg Answer.removed hs.1, h.withDb hs.2⟩
  | listChildren o ref =>
    cases howner
    exact ⟨congrArg Answer.listing (h.db.listChildren_eq hd he ref), h⟩
  | ancestors o ref =>
    cases howner
    exact ⟨congrArg Answer.chain (h.db.ancestors_eq hd he ref), h⟩
  | breadcrumbs o ref =>
    cases howner
    exact ⟨congrArg Answer.crumbs (h.db.breadcrumbs_eq hd he ref), h⟩
  | listFiles o =>
    cases howner
    exact ⟨congrArg Answer.files (h.db.filesOf_eq hd he), h⟩
  | file o id =>
    cases howner
    exact ⟨congrArg Answer.file (h.file_eq hd he id), h⟩
  | rename o id name =>
    cases howner
    have hs := h.rename hd he id name
    simp only [run, Depot.Alike]
    exact ⟨congrArg Answer.renamed hs.1, hs.2⟩
  | openDownload o id =>
    cases howner
    exact ⟨congrArg Answer.download (h.openDownload_eq hd he id), h⟩
  | delete o id =>
    cases howner
    have hs := Deletion.alike_run h hd he id .lookup
    simp only [run, Depot.delete, Depot.Alike]
    exact ⟨congrArg Answer.deleted hs.1, hs.2⟩
  | usage o =>
    cases howner
    exact ⟨congrArg Answer.usage (h.usage_eq hd he), h⟩

theorem others_run {root : String} (hne : toString owner ≠ root) (howner : op.owner? = some owner) (d : Depot) :
    BlobTree.SamePart root d.blobs (op.run d).2.blobs := by
  cases op with
  | rename o id name =>
    simp only [run]
    rcases db_rename d o id name with hsame | ⟨name', hupdate⟩
    · rw [hsame]
      exact .refl root d.blobs
    · rw [hupdate]
      exact .refl root d.blobs
  | delete o id =>
    cases howner
    simp only [run, Depot.delete]
    exact Deletion.others_run hne d .lookup
  | createUser | setQuota => cases howner
  | createFolder | deleteFolder =>
    simp only [run]
    exact .refl root d.blobs
  | _ => exact .refl root d.blobs

/-- Whatever an owner asks for, the parts of all others stay as they were. -/
theorem samePart_run {other : Int} (howner : op.owner? = some owner) (hl : d.db.Lawful) (hne : other ≠ owner) :
    d.SamePart other (op.run d).2 := by
  have hsteps := op.steps_run d
  rw [howner] at hsteps
  exact ⟨hsteps.others hl hne, op.others_run (fun heq => hne (toString_inj heq).symm) howner d⟩

/-- An id that is generated is none of another owner for as long as nobody else acts. -/
theorem IsFor.of_others {db db' : Database} (h : op.IsFor owner db)
    (ho : ∀ other, other ≠ owner → Database.SamePart other db db') : op.IsFor owner db' :=
  ⟨h.1, fun id hid => (h.2 id hid).of_samePart ho⟩

end Operation

end FileDepot
