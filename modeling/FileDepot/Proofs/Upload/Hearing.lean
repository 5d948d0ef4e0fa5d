import FileDepot.Upload
import FileDepot.Proofs.Blob.Tree
import FileDepot.Proofs.Store.Rows

/-!
# What an upload has heard

The content that the events of a body describe, told from the events alone, and what has to be found in the
depot at each stage of an upload that has heard them.
-/

namespace FileDepot

/-- Where in a body an event falls. -/
inductive Place where
  | between
  | inFile
  | inOther
  | ended
  deriving DecidableEq, Repr

/-- The place that is reached in a body and the data of its file part so far. -/
structure Hearing where
  place : Place
  bytes : Bytes
  deriving DecidableEq, Repr

namespace Hearing

/-- Nothing has been heard. -/
def start : Hearing := ⟨.between, []⟩

/-- What is known after one more event. -/
def hear (h : Hearing) (e : Multipart.Event) : Hearing :=
  match h.place, e with
  | .between, .part (some "file") _ => ⟨.inFile, h.bytes⟩
  | .between, .part _ _ => ⟨.inOther, h.bytes⟩
  | .between, .bodyEnd => ⟨.ended, h.bytes⟩
  | .inFile, .data bytes => ⟨.inFile, h.bytes ++ bytes⟩
  | .inFile, .partEnd => ⟨.between, h.bytes⟩
  | .inOther, .partEnd => ⟨.between, h.bytes⟩
  | _, .broken _ => ⟨.ended, h.bytes⟩
  | _, _ => h

/-- What is known after a list of events. -/
def hearAll (h : Hearing) (events : List Multipart.Event) : Hearing := events.foldl hear h

/-- The data of the file part of a body. -/
def filePart (events : List Multipart.Event) : Bytes := (start.hearAll events).bytes

/-- Behind the end of a body nothing is heard. -/
theorem hear_of_ended {h : Hearing} (hp : h.place = .ended) (e : Multipart.Event) : h.hear e = h := by
  obtain ⟨place, bytes⟩ := h
  simp only at hp
  subst hp
  cases e <;> rfl

theorem hearAll_append (h : Hearing) (events more : List Multipart.Event) :
    h.hearAll (events ++ more) = (h.hearAll events).hearAll more :=
  List.foldl_append

end Hearing

namespace Ticket

/-- The path of the content of the upload. -/
def place (t : Ticket) : BlobPath := BlobPath.ofIds t.owner t.fileId

end Ticket

namespace Depot

/-- A depot with all of its tables, whose files have different ids and whose tree holds nothing that is out
    of place. -/
structure Orderly (d : Depot) : Prop where
  whole : d.db.IsWhole
  unique : (d.db.fileRows.map File.id).Nodup
  tidy : d.blobs.Tidy

/-- There is neither a row nor a content of the file. -/
structure Vacant (d : Depot) (t : Ticket) : Prop where
  noRow : ∀ f ∈ d.db.fileRows, f.id ≠ t.fileId
  noBlob : d.blobs.get? t.place = none

/-- There is the stub of the file. -/
def Pending (d : Depot) (t : Ticket) : Prop :=
  ∃ f ∈ d.db.fileRows, f.id = t.fileId ∧ f.ownerId = t.owner ∧ f.state = .pending

/-- There is the stub of the file, and as content the given bytes. -/
structure Stored (d : Depot) (t : Ticket) (staged : Staged) (bytes : Bytes) : Prop where
  pending : d.Pending t
  content : d.blobs.get? t.place = some (.blob bytes)
  size : staged.size = bytes.length

/-- What is there between two parts, depending on whether the file part is over. -/
def Between (d : Depot) (t : Ticket) (bytes : Bytes) (scan : Scan) : Prop :=
  match scan.staged with
  | none => d.Vacant t ∧ bytes = []
  | some staged => d.Stored t staged bytes

/-- There is a row of the file. -/
def HasRow (d : Depot) (t : Ticket) : Prop := ∃ f ∈ d.db.fileRows, f.id = t.fileId

/-- The row of the file, if there is one, tells of a finished upload whose content is what was heard, and
    without a row there is no content. -/
structure Faithful (d : Depot) (t : Ticket) (h : Hearing) : Prop where
  row : ∀ f ∈ d.db.fileRows, f.id = t.fileId →
    f.ownerId = t.owner ∧ f.state = .complete ∧ f.size = h.bytes.length ∧
      d.blobs.get? t.place = some (.blob h.bytes) ∧ h.place = .ended
  backed : d.blobs.get? t.place = none ∨ d.HasRow t

theorem Vacant.faithful {d : Depot} {t : Ticket} (h : d.Vacant t) (hg : Hearing) : d.Faithful t hg :=
  ⟨fun f hf hid => absurd hid (h.noRow f hf), Or.inl h.noBlob⟩

theorem Pending.hasRow {d : Depot} {t : Ticket} (h : d.Pending t) : d.HasRow t := by
  obtain ⟨f, hf, hid, -⟩ := h
  exact ⟨f, hf, hid⟩

end Depot

namespace Upload

open Depot

/-- The place in the body at which the file part is over or not. -/
def placeOf (ended : Bool) : Place := if ended then .between else .inFile

/-- What has to be found in the depot at each stage of an upload that has heard `h`. The row of a file whose
    upload has succeeded may be `gone` only for a reason. -/
def Tracks (gone : Prop) (d : Depot) (t : Ticket) (h : Hearing) : Upload → Prop
  | admission => d.Vacant t ∧ h = .start
  | betweenParts scan => h.place = .between ∧ d.Between t h.bytes scan
  | inParent scan _ => h.place = .inOther ∧ d.Between t h.bytes scan
  | inOther scan => h.place = .inOther ∧ d.Between t h.bytes scan
  | inHead scan _ head => h.place = .inFile ∧ scan.staged = none ∧ d.Vacant t ∧ h.bytes = head
  | inBody _ staged => h.place = .inFile ∧ d.Stored t staged h.bytes
  | insertStub scan _ head ended =>
    h.place = placeOf ended ∧ scan.staged = none ∧ d.Vacant t ∧ h.bytes = head
  | makeDirectory _ staged head ended =>
    h.place = placeOf ended ∧ staged.size = 0 ∧ d.Pending t ∧ d.blobs.get? t.place = none ∧
      h.bytes = head
  | createBlob _ staged head ended =>
    h.place = placeOf ended ∧ staged.size = 0 ∧ d.Pending t ∧
      d.blobs.get? (BlobPath.ofOwner t.owner) = some .directory ∧ h.bytes = head
  | write _ staged bytes ended =>
    h.place = placeOf ended ∧ ∃ before, d.Stored t staged before ∧ h.bytes = before ++ bytes
  | finish _ staged => h.place = .ended ∧ d.Stored t staged h.bytes
  | account f => d.Faithful t h ∧ f ∈ d.db.fileRows ∧ f.id = t.fileId
  | removeBlob _ => d.Pending t
  | removeStub _ => d.Pending t ∧ d.blobs.get? t.place = none
  | explainMiss _ => d.Vacant t
  | done (.ok _) => d.Faithful t h ∧ (gone ∨ d.HasRow t)
  | done (.error _) => d.Faithful t h

variable {gone : Prop} {d : Depot} {t : Ticket} {h : Hearing} {u : Upload}

theorem tracks_abort {scan : Scan} {bytes : Bytes} (hb : d.Between t bytes scan) (h : Hearing)
    (cause : UploadError) : Tracks gone d t h (abort scan cause) := by
  unfold Between at hb
  unfold abort
  cases hs : scan.staged with
  | none =>
    rw [hs] at hb
    exact hb.1.faithful h
  | some staged =>
    rw [hs] at hb
    exact hb.pending

theorem between_of_vacant {scan : Scan} (hv : d.Vacant t) (hs : scan.staged = none) :
    d.Between t [] scan := by
  rw [Between, hs]
  exact ⟨hv, rfl⟩

theorem tracks_headComplete {scan : Scan} {ended : Bool} (hp : h.place = placeOf ended)
    (hs : scan.staged = none) (hv : d.Vacant t) (name : String) :
    Tracks gone d t h (headComplete scan name h.bytes ended) := by
  unfold headComplete
  split
  · exact tracks_abort (between_of_vacant hv hs) h _
  · exact ⟨hp, hs, hv, rfl⟩

/-- A part that begins decides what the data that follow belong to. -/
theorem tracks_part {scan : Scan} {bytes : Bytes} (hb : d.Between t bytes scan)
    (name filename : Option String) :
    Tracks gone d t (Hearing.hear ⟨.between, bytes⟩ (.part name filename))
      (receive (betweenParts scan) (.part name filename)) := by
  by_cases hf : name = some "file"
  · subst hf
    simp only [receive, Hearing.hear]
    cases hs : scan.staged with
    | some staged => exact tracks_abort hb _ _
    | none =>
      rw [Between, hs] at hb
      exact ⟨rfl, hs, hb.1, hb.2⟩
  · have hh : Hearing.hear ⟨.between, bytes⟩ (.part name filename) = ⟨.inOther, bytes⟩ := by
      unfold Hearing.hear
      split <;> simp_all
    rw [hh]
    unfold receive
    split <;> simp_all [Tracks]

/-- What was heard of a finished upload does not change any more. -/
theorem faithful_hear (hf : d.Faithful t h) (e : Multipart.Event) : d.Faithful t (h.hear e) := by
  refine ⟨fun f hmem hid => ?_, hf.backed⟩
  obtain ⟨-, -, -, -, hended⟩ := hf.row f hmem hid
  rw [Hearing.hear_of_ended hended e]
  exact hf.row f hmem hid

/-- What holds of an upload that waits for its body still holds when it takes the next event. -/
theorem tracks_receive (ht : Tracks gone d t h u) (hw : u.stepsLeft = 0) (e : Multipart.Event) :
    Tracks gone d t (h.hear e) (u.receive e) := by
  obtain ⟨place, bytes⟩ := h
  cases u with
  | betweenParts scan =>
    obtain ⟨hp, hb⟩ := ht
    simp only at hp hb
    subst hp
    cases e with
    | part name filename => exact tracks_part hb name filename
    | data more => exact ⟨rfl, hb⟩
    | partEnd => exact ⟨rfl, hb⟩
    | bodyEnd =>
      simp only [receive]
      unfold Between at hb
      cases hs : scan.staged with
      | none =>
        rw [hs] at hb
        exact hb.1.faithful _
      | some staged =>
        rw [hs] at hb
        exact ⟨rfl, hb⟩
    | broken cause => exact tracks_abort hb _ cause
  | inParent scan text =>
    obtain ⟨hp, hb⟩ := ht
    simp only at hp hb
    subst hp
    cases e with
    | part name filename => exact ⟨rfl, hb⟩
    | data more =>
      simp only [receive]
      split
      · exact tracks_abort hb _ _
      · exact ⟨rfl, hb⟩
    | partEnd =>
      simp only [receive]
      split
      · exact tracks_abort hb _ _
      · exact ⟨rfl, hb⟩
    | bodyEnd => exact ⟨rfl, hb⟩
    | broken cause => exact tracks_abort hb _ cause
  | inOther scan =>
    obtain ⟨hp, hb⟩ := ht
    simp only at hp hb
    subst hp
    cases e with
    | broken cause => exact tracks_abort hb _ cause
    | _ => exact ⟨rfl, hb⟩
  | inHead scan name head =>
    obtain ⟨hp, hs, hv, hb⟩ := ht
    simp only at hp hb
    subst hp hb
    cases e with
    | part name filename => exact ⟨rfl, hs, hv, rfl⟩
    | data more =>
      simp only [receive]
      split
      · exact ⟨rfl, hs, hv, rfl⟩
      · exact tracks_headComplete (h := ⟨.inFile, bytes ++ more⟩) rfl hs hv name
    | partEnd => exact tracks_headComplete (h := ⟨.between, bytes⟩) rfl hs hv name
    | bodyEnd => exact ⟨rfl, hs, hv, rfl⟩
    | broken cause => exact tracks_abort (between_of_vacant hv hs) _ cause
  | inBody scan staged =>
    obtain ⟨hp, hb⟩ := ht
    simp only at hp hb
    subst hp
    cases e with
    | part name filename => exact ⟨rfl, hb⟩
    | data more =>
      simp only [receive]
      split
      · exact hb.pending
      · exact ⟨rfl, bytes, hb, rfl⟩
    | partEnd => exact ⟨rfl, hb⟩
    | bodyEnd => exact ⟨rfl, hb⟩
    | broken cause => exact hb.pending
  | done result =>
    cases result with
    | ok f => exact ⟨faithful_hear ht.1 e, ht.2⟩
    | error cause => exact faithful_hear ht e
  | _ => simp [stepsLeft] at hw

end Upload

end FileDepot
