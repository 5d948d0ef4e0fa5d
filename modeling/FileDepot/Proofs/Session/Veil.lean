import FileDepot.Proofs.Blob.Veil
import FileDepot.Proofs.Session.Custody
import FileDepot.Proofs.Store.Without

/-!
# A depot without one file

A depot that is seen with one file, and the depot that would be there without it. As long as the file is at
most a stub, operations and other uploads end in the same way in both, and the two differ as before.
-/

namespace FileDepot

open BlobPath Database Depot Upload

/-- `alone` is `seen` without row and content of the file of `t`. -/
structure Hides (t : Ticket) (seen alone : Depot) : Prop where
  db : alone.db = seen.db.withoutFile t.fileId
  blobs : BlobTree.Veiled t.owner t.fileId seen.blobs alone.blobs

namespace Hides

variable {gone gone' : Prop} {t t' : Ticket} {d d' e : Depot} {h : Hearing} {u : Upload}

theorem refl (hv : d.Vacant t) : Hides t d d :=
  ⟨(withoutFile_eq_self hv.noRow).symm, .refl hv.noBlob⟩

/-- What the file itself does is not seen without it, unless bytes are counted. -/
theorem of_touches (hh : Hides t d e) (he : e.Orderly) (ht : Touches t d d')
    (hd : d.db.IsWhole) (hu : d'.db.users = d.db.users) : Hides t d' e := by
  refine ⟨?_, hh.blobs.of_confined he.tidy ht.blobs⟩
  rw [hh.db]
  have hfiles : ∀ db : Database, db.IsWhole → (db.withoutFile t.fileId).files =
      some (db.fileRows.filter (·.id != t.fileId)) := by
    intro db hw
    obtain ⟨rows, hr⟩ := Option.isSome_iff_exists.mp hw.files
    simp [withoutFile, Database.fileRows, hr]
  have hsame : (d.db.withoutFile t.fileId).files = (d'.db.withoutFile t.fileId).files := by
    rw [hfiles _ hd, hfiles _ ht.orderly.whole, ht.others]
  simp only [withoutFile] at hsame ⊢
  rw [hsame, ht.versions, ht.surroundings, ht.folders, hu]

theorem advance (hh : Hides t d e) (hne : t'.fileId ≠ t.fileId) (hid : IsSegment t'.fileId)
    (hd : d.Orderly) (he : e.Orderly) (htd : Tracks gone d t' h u) (hte : Tracks gone' e t' h u) :
    (advance t' e u).1 = (advance t' d u).1 ∧ Hides t (advance t' d u).2 (advance t' e u).2 := by
  obtain ⟨db, blobs⟩ := e
  obtain ⟨hdb, hb⟩ := hh
  simp only at hdb hb
  subst hdb
  cases u with
  | admission =>
    have hc : Depot.uploadCeiling ⟨d.db.withoutFile t.fileId, blobs⟩ t'.owner t'.maxFileSize =
        d.uploadCeiling t'.owner t'.maxFileSize := rfl
    simp only [Upload.advance, hc]
    split <;> exact ⟨rfl, rfl, hb⟩
  | insertStub scan name head ended =>
    have hi : (stub t' scan.parent ⟨name, Name.extension name, Sniff.detect head, 0⟩).id ≠ t.fileId := hne
    simp only [Upload.advance, insertFile_withoutFile hi]
    cases hr : d.db.insertFile (stub t' scan.parent ⟨name, Name.extension name, Sniff.detect head, 0⟩) with
    | mk result db =>
      cases result with
      | error cause => exact ⟨rfl, rfl, hb⟩
      | ok f => exact ⟨rfl, rfl, hb⟩
  | makeDirectory scan staged head ended =>
    obtain ⟨hfst, hveil⟩ := hb.makeDirectory hd.tidy he.tidy t'.owner
    simp only [Upload.advance]
    cases hs : d.blobs.makeDirectory (toString t'.owner) with
    | mk result seen =>
      cases ha : blobs.makeDirectory (toString t'.owner) with
      | mk result' alone =>
        rw [hs, ha] at hfst hveil
        simp only at hfst hveil
        subst hfst
        cases result' with
        | error cause => exact ⟨rfl, rfl, hveil⟩
        | ok _ => exact ⟨rfl, rfl, hveil⟩
  | createBlob scan staged head ended =>
    obtain ⟨-, -, -, hthere, -⟩ := htd
    obtain ⟨-, -, -, hthere', -⟩ := hte
    simp only [Upload.advance, Ticket.blobPath]
    rcases hb.create hd.tidy he.tidy hid hne hthere hthere' with
      ⟨cause, hs, ha⟩ | ⟨seen, alone, hs, ha, hveil⟩
    · rw [hs, ha]
      exact ⟨rfl, rfl, hb⟩
    · rw [hs, ha]
      exact ⟨rfl, rfl, hveil⟩
  | write scan staged bytes ended =>
    have hveil := hb.append (o := t'.owner) hid hne bytes
    cases ended with
    | true => exact ⟨rfl, rfl, hveil⟩
    | false => exact ⟨rfl, rfl, hveil⟩
  | finish parent staged =>
    simp only [Upload.advance, updateFile_withoutFile hne]
    cases hr : d.db.updateFile t'.fileId t'.owner (finalFields parent staged) with
    | mk result db =>
      cases result with
      | error cause => exact ⟨rfl, rfl, hb⟩
      | ok found =>
        cases found with
        | none => exact ⟨rfl, rfl, hb⟩
        | some f => exact ⟨rfl, rfl, hb⟩
  | account f =>
    simp only [Upload.advance, adjustSpaceUsed_withoutFile]
    cases hr : d.db.adjustSpaceUsed t'.owner f.size with
    | mk result db =>
      cases result with
      | error cause => exact ⟨rfl, rfl, hb⟩
      | ok n => exact ⟨rfl, rfl, hb⟩
  | removeBlob next =>
    simp only [Upload.advance, Ticket.blobPath]
    rcases hb.remove hd.tidy he.tidy hid hne with ⟨c, c', hs, ha⟩ | ⟨seen, alone, hs, ha, hveil⟩
    · rw [hs, ha]
      exact ⟨rfl, rfl, hb⟩
    · rw [hs, ha]
      exact ⟨rfl, rfl, hveil⟩
  | removeStub next =>
    simp only [Upload.advance, deleteFile_withoutFile hne]
    cases next with
    | fail cause => exact ⟨rfl, rfl, hb⟩
    | explain parent => exact ⟨rfl, rfl, hb⟩
  | explainMiss parent =>
    have hf : (d.db.withoutFile t.fileId).folderById parent t'.owner = d.db.folderById parent t'.owner := rfl
    simp only [Upload.advance, hf]
    split
    · exact ⟨rfl, rfl, hb⟩
    · split <;> exact ⟨rfl, rfl, hb⟩
  | betweenParts scan => exact ⟨rfl, rfl, hb⟩
  | inParent scan text => exact ⟨rfl, rfl, hb⟩
  | inOther scan => exact ⟨rfl, rfl, hb⟩
  | inHead scan name head => exact ⟨rfl, rfl, hb⟩
  | inBody scan staged => exact ⟨rfl, rfl, hb⟩
  | done result => exact ⟨rfl, rfl, hb⟩

/-! ## Operations -/

theorem file_eq (hh : Hides t d e) (hx : d.db.Hidden t.fileId) (owner : Int) (id : String) :
    e.file owner id = d.file owner id := by
  rw [Depot.file, Depot.file, hh.db, completeFile_withoutFile hx]

/-- A finished file is not the one that is hidden. -/
theorem ne_of_file (hd : d.Orderly) (hx : d.db.Hidden t.fileId) {owner : Int} {id : String} {f : File}
    (hf : d.file owner id = .ok f) : id ≠ t.fileId := by
  obtain ⟨hmem, hid, -, hs⟩ := file_some hd.whole hf
  intro heq
  rw [hx f hmem (hid.trans heq)] at hs
  cases hs

theorem openDownload (hh : Hides t d e) (hd : d.Orderly) (he : e.Orderly) (hc : d.Contentful)
    (hx : d.db.Hidden t.fileId) (owner : Int) (id : String) :
    e.openDownload owner id = d.openDownload owner id := by
  rw [Depot.openDownload, Depot.openDownload, hh.file_eq hx]
  cases hf : d.file owner id with
  | error cause => rfl
  | ok f =>
    have hne := ne_of_file hd hx hf
    obtain ⟨hmem, rfl, rfl, hs⟩ := file_some hd.whole hf
    obtain ⟨hid, content, hg⟩ := hc f hmem hs
    have hge : e.blobs.get? (ofIds f.ownerId f.id) = some (.blob content) :=
      (hh.blobs.get?_ofIds hne).trans hg
    simp only [hd.tidy.open?_blob hid hg, he.tidy.open?_blob hid hge]

theorem rename (hh : Hides t d e) (hd : d.Orderly) (hx : d.db.Hidden t.fileId) (owner : Int)
    (id name : String) :
    (e.rename owner id name).1 = (d.rename owner id name).1 ∧
      Hides t (d.rename owner id name).2 (e.rename owner id name).2 := by
  have hf := hh.file_eq hx owner id
  obtain ⟨db, blobs⟩ := e
  obtain ⟨hdb, hb⟩ := hh
  simp only at hdb hb
  subst hdb
  unfold Depot.rename
  rw [hf]
  cases Name.require name with
  | error cause => exact ⟨rfl, rfl, hb⟩
  | ok name' =>
    cases hfile : d.file owner id with
    | error cause => exact ⟨rfl, rfl, hb⟩
    | ok f =>
      simp only [updateFile_withoutFile (ne_of_file hd hx hfile)]
      cases hr : d.db.updateFile id owner { FileUpdate.none with name := some name' } with
      | mk result db =>
        cases result with
        | error cause => exact ⟨rfl, rfl, hb⟩
        | ok found =>
          cases found with
          | none => exact ⟨rfl, rfl, hb⟩
          | some g => exact ⟨rfl, rfl, hb⟩

theorem delete (hh : Hides t d e) (hd : d.Orderly) (he : e.Orderly) (hcd : d.Contentful)
    (hce : e.Contentful) (hx : d.db.Hidden t.fileId) (owner : Int) (id : String) :
    (e.delete owner id).1 = (d.delete owner id).1 ∧
      Hides t (d.delete owner id).2 (e.delete owner id).2 := by
  have hf := hh.file_eq hx owner id
  cases hfile : d.file owner id with
  | error cause =>
    rw [delete_of_error hfile, delete_of_error (hf.trans hfile)]
    exact ⟨rfl, hh⟩
  | ok f =>
    have hne := ne_of_file hd hx hfile
    rw [delete_of_file hd hcd hfile, delete_of_file he hce (hf.trans hfile)]
    have hrows : e.db.withFiles (e.db.fileRows.filter fun g => !isFile id owner g) =
        (d.db.withFiles (d.db.fileRows.filter fun g => !isFile id owner g)).withoutFile t.fileId := by
      rw [withoutFile_withFiles, hh.db, fileRows_withoutFile, List.filter_filter, List.filter_filter]
      simp only [Bool.and_comm]
    rw [hrows, adjustSpaceUsed_withoutFile]
    exact ⟨rfl, rfl, hh.blobs.erase hne⟩

/-- A statement that does not look at the file. -/
theorem of_statement {α : Type} {r r' : α × Database} (hh : Hides t d e)
    (hr : r' = (r.1, r.2.withoutFile t.fileId)) :
    r'.1 = r.1 ∧ Hides t { d with db := r.2 } { e with db := r'.2 } := by
  subst hr
  exact ⟨rfl, rfl, hh.blobs⟩

/-- Every operation answers the same, with and without the file, and leaves the same. -/
theorem run (hh : Hides t d e) (hd : d.Orderly) (he : e.Orderly) (hcd : d.Contentful)
    (hce : e.Contentful) (hx : d.db.Hidden t.fileId) (op : Operation) :
    (op.run e).1 = (op.run d).1 ∧ Hides t (op.run d).2 (op.run e).2 := by
  cases op with
  | createUser username quota createdAt =>
    have hr : e.db.createUser username quota createdAt = ((d.db.createUser username quota createdAt).1,
        (d.db.createUser username quota createdAt).2.withoutFile t.fileId) := by
      rw [hh.db, createUser_withoutFile]
    have hs := hh.of_statement hr
    simp only [Operation.run]
    exact ⟨congrArg Answer.account hs.1, hs.2⟩
  | setQuota id quota =>
    have hr : e.db.setQuota id quota = ((d.db.setQuota id quota).1, (d.db.setQuota id quota).2.withoutFile t.fileId) := by
      rw [hh.db, setQuota_withoutFile]
    have hs := hh.of_statement hr
    simp only [Operation.run]
    exact ⟨congrArg Answer.changed hs.1, hs.2⟩
  | createFolder owner name parent id createdAt =>
    have hr : e.db.createFolder owner name parent id createdAt =
        ((d.db.createFolder owner name parent id createdAt).1,
          (d.db.createFolder owner name parent id createdAt).2.withoutFile t.fileId) := by
      rw [hh.db, createFolder_withoutFile]
    have hs := hh.of_statement hr
    simp only [Operation.run]
    exact ⟨congrArg Answer.folder hs.1, hs.2⟩
  | deleteFolder owner ref =>
    have hr : e.db.deleteFolder owner ref =
        ((d.db.deleteFolder owner ref).1, (d.db.deleteFolder owner ref).2.withoutFile t.fileId) := by
      rw [hh.db, deleteFolder_withoutFile hx]
    have hs := hh.of_statement hr
    simp only [Operation.run]
    exact ⟨congrArg Answer.removed hs.1, hs.2⟩
  | listChildren owner ref =>
    exact ⟨congrArg Answer.listing (hh.db ▸ listChildren_withoutFile hx owner ref), hh⟩
  | ancestors owner ref =>
    have hs : e.db.ancestors owner ref = d.db.ancestors owner ref := by
      rw [hh.db]
      rfl
    exact ⟨congrArg Answer.chain hs, hh⟩
  | breadcrumbs owner ref =>
    have hs : e.db.breadcrumbs owner ref = d.db.breadcrumbs owner ref := by
      rw [hh.db]
      rfl
    exact ⟨congrArg Answer.crumbs hs, hh⟩
  | listFiles owner => exact ⟨congrArg Answer.files (hh.db ▸ filesOf_withoutFile hx owner), hh⟩
  | file owner id => exact ⟨congrArg Answer.file (hh.file_eq hx owner id), hh⟩
  | rename owner id name =>
    have hs := hh.rename hd hx owner id name
    simp only [Operation.run, hs.1]
    exact ⟨trivial, hs.2⟩
  | openDownload owner id =>
    exact ⟨congrArg Answer.download (hh.openDownload hd he hcd hx owner id), hh⟩
  | delete owner id =>
    have hs := hh.delete hd he hcd hce hx owner id
    simp only [Operation.run, hs.1]
    exact ⟨trivial, hs.2⟩
  | usage owner =>
    have hs : e.usage owner = d.usage owner := by
      unfold Depot.usage
      rw [hh.db]
      rfl
    exact ⟨congrArg Answer.usage hs, hh⟩

end Hides

end FileDepot
