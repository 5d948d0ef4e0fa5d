import FileDepot.Proofs.Traffic.Grants
import FileDepot.Proofs.Upload.Bodies
import FileDepot.Proofs.Upload.Progress

/-!
# Uploads of whole bodies

An upload that nothing interrupts, compared with one that waits for the whole body and looks at each part once
all of its bytes are there. They give the same result and leave the same depot, however the parts are cut into
chunks; only the directory of the owner may be left empty where a file was given up.
-/

namespace FileDepot

open Multipart

namespace Upload

open BlobPath Database Depot

variable {d : Depot} {t : Ticket} {c : Nat} {b : BodyDraft} {p : FormPart} {f : FileDraft}
  {s : Upload × Depot} {received bytes : Bytes} {cause : UploadError} {early : String}

/-! ## Where an upload in pieces stands -/

/-- The depot with one row more, and with a content in the place of the upload. -/
def holding (t : Ticket) (d : Depot) (row : File) (content : Bytes) : Depot :=
  ⟨d.db.withFiles (d.db.fileRows ++ [row]), (d.blobs.withDirectory t.owner).put t.place (.blob content)⟩

/-- The depot while a file is staged: its stub, with the parent that was known early, and its content. -/
def staging (t : Ticket) (d : Depot) (early : String) (f : FileDraft) : Depot :=
  holding t d (stub t early f.staged) f.content

/-- Where an upload stands between two parts that has taken what the draft tells. -/
inductive Drafted (t : Ticket) (d : Depot) (c : Nat) : BodyDraft → Scan → Depot → Prop
  | empty (parent : String) : Drafted t d c ⟨parent, none⟩ ⟨c, parent, none⟩ d
  | staged (parent early : String) (f : FileDraft) :
      Drafted t d c ⟨parent, some f⟩ ⟨c, parent, some f.staged⟩ (staging t d early f)

/-- An upload in pieces that is done, with the result and the depot of one of a whole body. At most the directory
    of its owner is there in addition. -/
structure EndsAs (t : Ticket) (whole : Outcome File × Depot) (s : Upload × Depot) : Prop where
  result : s.1 = done whole.1
  db : s.2.db = whole.2.db
  blobs : s.2.blobs = whole.2.blobs ∨ s.2.blobs = whole.2.blobs.withDirectory t.owner

/-- An upload that failed for a cause and left everything as it was. -/
abbrev Undone (t : Ticket) (d : Depot) (cause : UploadError) : Upload × Depot → Prop :=
  EndsAs t (.error (.upload cause), d)

/-- Where an upload stands within a part of which some bytes have been received. -/
inductive Inside (t : Ticket) (d : Depot) (c : Nat) (b : BodyDraft) (p : FormPart) (received : Bytes) :
    Upload × Depot → Prop
  | parent {scan : Scan} {e : Depot} (hrole : p.role = .parent) (hlen : received.length ≤ maxParentLength)
      (h : Drafted t d c b scan e) : Inside t d c b p received (inParent scan received, e)
  | other {scan : Scan} {e : Depot} (hrole : p.role = .other) (h : Drafted t d c b scan e) :
      Inside t d c b p received (inOther scan, e)
  | head (hrole : p.role = .file) (hfile : b.file = none) (hlen : received.length < Sniff.windowLength) :
      Inside t d c b p received
        (inHead ⟨c, b.parent, none⟩ (Name.ofClient (p.filename.getD "")) received, d)
  | body (hrole : p.role = .file) (hfile : b.file = none) (hlen : Sniff.windowLength ≤ received.length)
      (hc : received.length ≤ c) :
      Inside t d c b p received
        (inBody ⟨c, b.parent, none⟩ (p.draft received).staged, staging t d b.parent (p.draft received))
  | refused {cause : UploadError} {s : Upload × Depot} (hcause : b.refusal c p.role received = some cause)
      (h : Undone t d cause s) : Inside t d c b p received s

/-- A depot that an upload can be made to, as it is with a new id: all tables are there, nothing under the id, and
    no blob in the place of the owner's directory. The id can be a name, and the owner is a 64-bit number. Whatever
    has happened in a session, its depot is prepared for the next upload (`Session.Reached.prepared`). -/
structure Prepared (t : Ticket) (d : Depot) : Prop where
  whole : d.db.IsWhole
  vacant : d.Vacant t
  directory : ∀ content, d.blobs.get? (ofOwner t.owner) ≠ some (.blob content)
  name : BlobTree.IsName t.fileId
  low : int64Min ≤ t.owner
  high : t.owner ≤ int64Max

/-! ## Accesses to a prepared depot -/

namespace Prepared

theorem segment (hp : Prepared t d) : IsSegment t.fileId := hp.name.toIsSegment

theorem fits (hp : Prepared t d) : BlobTree.fits t.owner t.fileId = true :=
  BlobTree.fits_of_isName hp.name hp.low hp.high

theorem directory_made (hp : Prepared t d) :
    (d.blobs.withDirectory t.owner).get? (ofOwner t.owner) = some .directory :=
  BlobTree.get?_withDirectory_ofOwner hp.fits hp.directory

theorem place_vacant (hp : Prepared t d) : (d.blobs.withDirectory t.owner).get? t.place = none := by
  have hne : t.place ≠ ofOwner t.owner := ofIds_ne_ofOwner t.owner t.owner t.fileId
  rw [BlobTree.get?_withDirectory hp.fits hp.directory hne]
  exact hp.vacant.noBlob

theorem not_isFile (hp : Prepared t d) : ∀ g ∈ d.db.fileRows, isFile t.fileId t.owner g = false := by
  intro g hg
  rw [Bool.eq_false_iff]
  intro hself
  exact hp.vacant.noRow g hg (isFile_iff.mp hself).1

theorem insertFile_stub (hp : Prepared t d) (hu : t.owner ∈ d.db.userIds) (parent : String) (staged : Staged) :
    d.db.insertFile (stub t parent staged) =
      (.ok (stub t parent staged), d.db.withFiles (d.db.fileRows ++ [stub t parent staged])) := by
  obtain ⟨table, ht, htable⟩ := hp.whole.userTable
  have huser : hasUser table t.owner = true := by
    rw [Database.userIds, userRows_of_users ht] at hu
    exact hasUser_iff.mpr hu
  have hnew : d.db.fileRows.any (·.id == t.fileId) = false := by
    rw [List.any_eq_false]
    intro g hg
    simpa using hp.vacant.noRow g hg
  simp only [insertFile, hp.whole.fileTable, htable, stub, hnew, huser]
  rfl

/-- The stub goes as it came. -/
theorem deleteFile_stub (hp : Prepared t d) (early : String) (staged : Staged) :
    ((d.db.withFiles (d.db.fileRows ++ [stub t early staged])).deleteFile t.fileId t.owner).2 = d.db := by
  have hstub : isFile t.fileId t.owner (stub t early staged) = true := isFile_iff.mpr ⟨rfl, rfl⟩
  have hkept : (d.db.fileRows.filter fun g => !isFile t.fileId t.owner g) = d.db.fileRows := by
    refine List.filter_eq_self.mpr fun g hg => ?_
    rw [hp.not_isFile g hg]
    rfl
  rw [deleteFile_eq (hp.whole.withFiles _)]
  simp only [fileRows_withFiles, List.filter_append, hkept, List.filter_cons, hstub, Bool.not_true,
    Bool.false_eq_true, if_false, List.filter_nil, List.append_nil]
  exact withFiles_self hp.whole

/-- The finished row takes the place of the stub. -/
theorem updateFile_stub (hp : Prepared t d) (early parent : String) (f : FileDraft) :
    (d.db.withFiles (d.db.fileRows ++ [stub t early f.staged])).updateFile t.fileId t.owner
        (finalFields parent f.staged) =
      if parent = "" ∨ (findFolder d.db.folderRows parent t.owner).isSome then
        (.ok (some (f.row t parent)), d.db.withFiles (d.db.fileRows ++ [f.row t parent]))
      else (.ok none, d.db.withFiles (d.db.fileRows ++ [stub t early f.staged])) := by
  have hw := hp.whole.withFiles (d.db.fileRows ++ [stub t early f.staged])
  have hstub : isFile t.fileId t.owner (stub t early f.staged) = true := isFile_iff.mpr ⟨rfl, rfl⟩
  have hfind : findFile (d.db.fileRows ++ [stub t early f.staged]) t.fileId t.owner =
      some (stub t early f.staged) := by
    have hnone : d.db.fileRows.find? (isFile t.fileId t.owner) = none := by
      refine List.find?_eq_none.mpr fun g hg => ?_
      rw [hp.not_isFile g hg]
      exact Bool.false_ne_true
    show (d.db.fileRows ++ [stub t early f.staged]).find? (isFile t.fileId t.owner) = _
    rw [List.find?_append, hnone, Option.none_or, List.find?_cons_of_pos hstub]
  have hrows : updatedRows (d.db.fileRows ++ [stub t early f.staged]) t.fileId t.owner
      (finalFields parent f.staged) = d.db.fileRows ++ [f.row t parent] := by
    have hothers : ∀ g ∈ d.db.fileRows,
        (if isFile t.fileId t.owner g then (finalFields parent f.staged).apply g else g) = g := by
      intro g hg
      rw [hp.not_isFile g hg]
      rfl
    rw [updatedRows, List.map_append, List.map_congr_left hothers, List.map_id', List.map_singleton, if_pos hstub]
    rfl
  have hallowed : (d.db.withFiles (d.db.fileRows ++ [stub t early f.staged])).allowsParent t.owner
      (finalFields parent f.staged) =
        .ok (decide (parent = "" ∨ (findFolder d.db.folderRows parent t.owner).isSome)) := by
    simp only [allowsParent, finalFields, hw.folderTable, folderRows_withFiles]
    by_cases htop : parent = ""
    · simp [htop]
    · simp [htop, Except.map]
  rw [updateFile_eq hw t.fileId t.owner rfl, hallowed]
  simp only [fileRows_withFiles, hfind, hrows]
  by_cases hparent : parent = "" ∨ (findFolder d.db.folderRows parent t.owner).isSome
  · rw [if_pos hparent, decide_eq_true hparent]
    rfl
  · rw [if_neg hparent, decide_eq_false hparent]

/-- What is written to a content that is held ends up behind it. -/
theorem advance_write (hp : Prepared t d) (row : File) (content : Bytes) (scan : Scan) (staged : Staged)
    (bytes : Bytes) (ended : Bool) :
    advance t (holding t d row content) (write scan staged bytes ended) =
      (if ended then betweenParts { scan with staged := some { staged with size := staged.size + bytes.length } }
        else inBody scan { staged with size := staged.size + bytes.length },
        holding t d row (content ++ bytes)) := by
  have happend : ((d.blobs.withDirectory t.owner).put (ofIds t.owner t.fileId) (.blob content)).append
      (ofFile t.owner t.fileId) bytes =
        (d.blobs.withDirectory t.owner).put (ofIds t.owner t.fileId) (.blob (content ++ bytes)) :=
    BlobTree.append_put hp.segment
  cases ended <;> simp only [advance, holding, Ticket.blobPath, Ticket.place, happend] <;> rfl

/-! ### Until the upload waits again -/

/-- What follows when content and stub are gone. -/
def resume : Aftermath → Upload
  | .fail e => done (.error e)
  | .explain parent => explainMiss parent

theorem settle_removeBlob (hp : Prepared t d) (early : String) (f : FileDraft) (next : Aftermath) :
    settle t (staging t d early f) (removeBlob next) =
      settle t ⟨d.db, d.blobs.withDirectory t.owner⟩ (resume next) := by
  have hremove : ((d.blobs.withDirectory t.owner).put (ofIds t.owner t.fileId) (.blob f.content)).remove
      (ofFile t.owner t.fileId) = .ok (d.blobs.withDirectory t.owner) :=
    BlobTree.remove_put hp.segment hp.fits hp.directory_made hp.place_vacant
  have hblob : advance t (staging t d early f) (removeBlob next) =
      (removeStub next, ⟨(staging t d early f).db, d.blobs.withDirectory t.owner⟩) := by
    simp only [advance, staging, holding, Ticket.blobPath, Ticket.place, hremove]
  have hstub : advance t ⟨(staging t d early f).db, d.blobs.withDirectory t.owner⟩ (removeStub next) =
      (resume next, ⟨d.db, d.blobs.withDirectory t.owner⟩) := by
    cases next <;> simp only [advance, staging, holding, hp.deleteFile_stub, resume]
  rw [settle_of_advance hblob (Nat.succ_pos _), settle_of_advance hstub (Nat.succ_pos _)]

/-- A file that is given up leaves the directory of its owner only. -/
theorem settle_rollback (hp : Prepared t d) (early : String) (f : FileDraft) (cause : UploadError) :
    Undone t d cause (settle t (staging t d early f) (removeBlob (.fail (.upload cause)))) := by
  rw [hp.settle_removeBlob, resume, settle_of_stepsLeft rfl]
  exact ⟨rfl, rfl, Or.inr rfl⟩

/-- The first bytes of the file are written behind a new stub. -/
theorem settle_insertStub (hp : Prepared t d) (hu : t.owner ∈ d.db.userIds) (scan : Scan) (f : FileDraft)
    (ended : Bool) :
    settle t d (insertStub scan f.name f.content ended) =
      (if ended then betweenParts { scan with staged := some f.staged } else inBody scan f.staged,
        staging t d scan.parent f) := by
  have hstub : advance t d (insertStub scan f.name f.content ended) =
      (makeDirectory scan f.begun f.content ended, ⟨(staging t d scan.parent f).db, d.blobs⟩) := by
    have hinsert := hp.insertFile_stub hu scan.parent f.begun
    simp only [FileDraft.begun] at hinsert
    simp only [advance, hinsert]
    rfl
  have hmake : advance t ⟨(staging t d scan.parent f).db, d.blobs⟩ (makeDirectory scan f.begun f.content ended) =
      (createBlob scan f.begun f.content ended,
        ⟨(staging t d scan.parent f).db, d.blobs.withDirectory t.owner⟩) := by
    have hmade := BlobTree.makeDirectory_of_fits hp.fits hp.directory
    simp only [advance, hmade]
  have hcreate : advance t ⟨(staging t d scan.parent f).db, d.blobs.withDirectory t.owner⟩
      (createBlob scan f.begun f.content ended) =
        (write scan f.begun f.content ended, holding t d (stub t scan.parent f.staged) []) := by
    have hcreated := BlobTree.create_vacant hp.segment hp.fits hp.directory_made hp.place_vacant
    simp only [advance, Ticket.blobPath, hcreated]
    rfl
  have hwrite := hp.advance_write (stub t scan.parent f.staged) [] scan f.begun f.content ended
  rw [settle_of_advance hstub (Nat.succ_pos _), settle_of_advance hmake (Nat.succ_pos _),
    settle_of_advance hcreate (Nat.succ_pos _), settle_of_advance hwrite (Nat.succ_pos _)]
  have hsize : 0 + f.content.length = f.content.length := Nat.zero_add _
  cases ended <;> simp only [FileDraft.begun, hsize, List.nil_append] <;> exact settle_of_stepsLeft rfl

/-- What fills the window, or ends before it does, is written behind a new stub if it is within the ceiling. -/
theorem settle_headComplete (hp : Prepared t d) (hu : t.owner ∈ d.db.userIds) (parent : String) (p : FormPart)
    (hc : bytes.length ≤ c) (ended : Bool) :
    settle t d (headComplete ⟨c, parent, none⟩ (Name.ofClient (p.filename.getD "")) bytes ended) =
      (if ended then betweenParts ⟨c, parent, some (p.draft bytes).staged⟩
        else inBody ⟨c, parent, none⟩ (p.draft bytes).staged,
        staging t d parent (p.draft bytes)) := by
  have hinsert := hp.settle_insertStub hu ⟨c, parent, none⟩ (p.draft bytes) ended
  rw [headComplete, if_neg (Nat.not_lt.mpr hc), ← hinsert, FormPart.draft]

theorem detect_append {head : Bytes} (hlen : Sniff.windowLength ≤ head.length) (bytes : Bytes) :
    Sniff.detect (head ++ bytes) = Sniff.detect head := by
  rw [Sniff.detect, Sniff.detect, List.take_append_of_le_length hlen]

/-- More bytes are written behind those that are there, and the type of the file is known already. -/
theorem settle_write (hp : Prepared t d) (hlen : Sniff.windowLength ≤ f.content.length) (scan : Scan)
    (early : String) (bytes : Bytes) :
    settle t (staging t d early f) (write scan f.staged bytes false) =
      (inBody scan (f.grown bytes).staged, staging t d early (f.grown bytes)) := by
  have hgrown : (f.grown bytes).staged = { f.staged with size := f.staged.size + bytes.length } := by
    simp only [FileDraft.staged, FileDraft.grown, detect_append hlen, List.length_append]
  have hstub : stub t early { f.staged with size := f.staged.size + bytes.length } = stub t early f.staged := rfl
  have hwrite := hp.advance_write (stub t early f.staged) f.content scan f.staged bytes false
  rw [staging, settle_of_advance hwrite (Nat.succ_pos _), staging, hgrown, hstub]
  exact settle_of_stepsLeft rfl

/-- The end of the body stores the file if there is a folder for it. -/
theorem settle_finish_of_parent (hp : Prepared t d) (early : String) {parent : String} (f : FileDraft)
    (hparent : parent = "" ∨ (findFolder d.db.folderRows parent t.owner).isSome) :
    settle t (staging t d early f) (finish parent f.staged) =
      (done (d.store t parent f).1, (d.store t parent f).2) := by
  have hfinish : advance t (staging t d early f) (finish parent f.staged) =
      (account (f.row t parent), holding t d (f.row t parent) f.content) := by
    simp only [advance, staging, holding, hp.updateFile_stub, if_pos hparent]
  have hsize : (f.row t parent).size = f.content.length := rfl
  have haccount : advance t (holding t d (f.row t parent) f.content) (account (f.row t parent)) =
      (done (d.store t parent f).1, (d.store t parent f).2) := by
    simp only [advance, holding, store, if_pos hparent, hsize]
    cases (d.db.withFiles (d.db.fileRows ++ [f.row t parent])).adjustSpaceUsed t.owner f.content.length with
    | mk answer db => cases answer <;> rfl
  rw [settle_of_advance hfinish (Nat.succ_pos _), settle_of_advance haccount (Nat.succ_pos _)]
  exact settle_of_stepsLeft rfl

/-- Without a folder for it the file is given up. -/
theorem settle_finish_of_noParent (hp : Prepared t d) (early : String) {parent : String} (f : FileDraft)
    (hparent : ¬(parent = "" ∨ (findFolder d.db.folderRows parent t.owner).isSome)) :
    settle t (staging t d early f) (finish parent f.staged) =
      (done (.error (.parentNotFound parent)), ⟨d.db, d.blobs.withDirectory t.owner⟩) := by
  have hfinish : advance t (staging t d early f) (finish parent f.staged) =
      (removeBlob (.explain parent), staging t d early f) := by
    simp only [advance, staging, holding, hp.updateFile_stub, if_neg hparent]
  rw [not_or, Bool.not_eq_true, Option.isSome_eq_false_iff, Option.isNone_iff_eq_none] at hparent
  have hexplain : advance t ⟨d.db, d.blobs.withDirectory t.owner⟩ (explainMiss parent) =
      (done (.error (.parentNotFound parent)), ⟨d.db, d.blobs.withDirectory t.owner⟩) := by
    have hfolder : d.db.folderById parent t.owner = .ok none := by
      rw [folderById, hp.whole.folderTable, ← hparent.2]
      rfl
    simp only [advance, if_neg hparent.1, hfolder]
  rw [settle_of_advance hfinish (Nat.succ_pos _), hp.settle_removeBlob, resume,
    settle_of_advance hexplain (Nat.succ_pos _)]
  exact settle_of_stepsLeft rfl

end Prepared

/-! ## Steps -/

namespace EndsAs

variable {whole : Outcome File × Depot}

/-- What is done stays as it is. -/
theorem feed (h : EndsAs t whole s) (events : List Event) : EndsAs t whole (feed t s.2 s.1 events) := by
  rw [h.result, feed_of_done]
  exact ⟨rfl, h.db, h.blobs⟩

theorem receive (h : EndsAs t whole s) (e : Event) : EndsAs t whole (settle t s.2 (s.1.receive e)) := h.feed [e]

end EndsAs

/-- Giving up between two parts takes a staged file back. -/
theorem Drafted.abort {scan : Scan} {e : Depot} (h : Drafted t d c b scan e) (hp : Prepared t d)
    (cause : UploadError) : Undone t d cause (settle t e (Upload.abort scan cause)) := by
  cases h with
  | empty parent =>
    rw [Upload.abort, settle_of_stepsLeft rfl]
    exact ⟨rfl, rfl, Or.inl rfl⟩
  | staged parent early f => exact hp.settle_rollback early f cause

theorem receive_part (scan : Scan) (p : FormPart) :
    receive (betweenParts scan) (.part p.name p.filename) =
      match p.role with
      | .parent => inParent scan []
      | .file =>
        if scan.staged.isSome then Upload.abort scan .multipleFiles
        else inHead scan (Name.ofClient (p.filename.getD "")) []
      | .other => inOther scan := by
  unfold receive FormPart.role
  split <;> simp_all

namespace Inside

/-- A part begins. -/
theorem start {scan : Scan} {e : Depot} (h : Drafted t d c b scan e) (hp : Prepared t d) (p : FormPart) :
    Inside t d c b p [] (settle t e (receive (betweenParts scan) (.part p.name p.filename))) := by
  rw [receive_part]
  cases hrole : p.role with
  | parent =>
    simp only
    rw [settle_of_stepsLeft rfl]
    exact .parent hrole (Nat.zero_le _) h
  | other =>
    simp only
    rw [settle_of_stepsLeft rfl]
    exact .other hrole h
  | file =>
    simp only
    cases h with
    | empty parent =>
      rw [if_neg (by simp), settle_of_stepsLeft rfl]
      exact .head hrole rfl (by decide)
    | staged parent early f =>
      have hstaged : Drafted t d c ⟨parent, some f⟩ ⟨c, parent, some f.staged⟩ (staging t d early f) :=
        .staged parent early f
      exact .refused (BodyDraft.refusal_of_second hrole rfl) (hstaged.abort hp .multipleFiles)

/-- More bytes of the part arrive. -/
theorem data (hs : Inside t d c b p received s) (hp : Prepared t d) (hu : t.owner ∈ d.db.userIds)
    (bytes : Bytes) : Inside t d c b p (received ++ bytes) (settle t s.2 (s.1.receive (.data bytes))) := by
  have hgrown : (received ++ bytes).length = received.length + bytes.length := List.length_append
  cases hs with
  | @parent scan e hrole hlen h =>
    simp only [receive, ← hgrown]
    by_cases hlong : maxParentLength < (received ++ bytes).length
    · rw [if_pos hlong]
      refine .refused ?_ (h.abort hp .parentTooLong)
      rw [BodyDraft.refusal_of_parent hrole, if_pos hlong]
    · rw [if_neg hlong, settle_of_stepsLeft rfl]
      exact .parent hrole (Nat.le_of_not_lt hlong) h
  | other hrole h =>
    simp only [receive]
    rw [settle_of_stepsLeft rfl]
    exact .other hrole h
  | head hrole hfile hlen =>
    simp only [receive]
    by_cases hshort : (received ++ bytes).length < Sniff.windowLength
    · rw [if_pos hshort, settle_of_stepsLeft rfl]
      exact .head hrole hfile hshort
    · have hwindow := Nat.le_of_not_lt hshort
      rw [if_neg hshort]
      by_cases hlarge : c < (received ++ bytes).length
      · rw [headComplete, if_pos hlarge]
        refine .refused ?_ (Drafted.abort (.empty b.parent) hp (.payloadTooLarge c))
        rw [BodyDraft.refusal_of_file hrole hfile, if_pos ⟨hwindow, hlarge⟩]
      · have hc := Nat.le_of_not_lt hlarge
        rw [hp.settle_headComplete hu b.parent p hc false]
        exact .body hrole hfile hwindow hc
  | body hrole hfile hlen hc =>
    have hwindow : Sniff.windowLength ≤ (received ++ bytes).length := by omega
    have hsize : (p.draft received).staged.size = received.length := rfl
    simp only [receive, hsize, ← hgrown]
    by_cases hlarge : c < (received ++ bytes).length
    · rw [if_pos hlarge]
      refine .refused ?_ (hp.settle_rollback b.parent (p.draft received) (.payloadTooLarge c))
      rw [BodyDraft.refusal_of_file hrole hfile, if_pos ⟨hwindow, hlarge⟩]
    · have hwritten := hp.settle_write (f := p.draft received) hlen ⟨c, b.parent, none⟩ b.parent bytes
      rw [if_neg hlarge, hwritten, FileDraft.grown_draft]
      exact .body hrole hfile hwindow (Nat.le_of_not_lt hlarge)
  | refused hcause h => exact .refused (BodyDraft.refusal_append hcause bytes) (h.receive _)

/-- The chunks of a part arrive, one after the other. Only their bytes matter. -/
theorem chunks (hs : Inside t d c b p received s) (hp : Prepared t d) (hu : t.owner ∈ d.db.userIds)
    (cs : List Bytes) : Inside t d c b p (received ++ cs.flatten) (feed t s.2 s.1 (cs.map .data)) := by
  induction cs generalizing received s with
  | nil =>
    rw [List.flatten_nil, List.append_nil]
    exact hs
  | cons bytes rest ih =>
    rw [List.flatten_cons, ← List.append_assoc]
    exact ih (hs.data hp hu bytes)

/-- The part breaks off. -/
theorem breakOff (hs : Inside t d c b p received s) (hp : Prepared t d) (cause : UploadError) :
    Undone t d ((b.refusal c p.role received).getD cause) (settle t s.2 (s.1.receive (.broken cause))) := by
  cases hs with
  | parent hrole hlen h =>
    rw [BodyDraft.refusal_of_parent hrole, if_neg (Nat.not_lt.mpr hlen)]
    exact h.abort hp cause
  | other hrole h =>
    rw [BodyDraft.refusal_of_other hrole]
    exact h.abort hp cause
  | head hrole hfile hlen =>
    have hshort : ¬(Sniff.windowLength ≤ received.length ∧ c < received.length) := by omega
    have hempty : Drafted t d c ⟨b.parent, none⟩ ⟨c, b.parent, none⟩ d := .empty b.parent
    rw [BodyDraft.refusal_of_file hrole hfile, if_neg hshort]
    exact hempty.abort hp cause
  | body hrole hfile hlen hc =>
    have hsmall : ¬(Sniff.windowLength ≤ received.length ∧ c < received.length) := by omega
    rw [BodyDraft.refusal_of_file hrole hfile, if_neg hsmall]
    exact hp.settle_rollback b.parent (p.draft received) cause
  | refused hcause h =>
    rw [hcause]
    exact h.receive _

end Inside

/-- Whether an upload stands where a draft says, or has failed for the cause that there is instead of one. -/
def Agrees (t : Ticket) (d : Depot) (c : Nat) : Except UploadError BodyDraft → Upload × Depot → Prop
  | .ok b, s => ∃ scan, s.1 = betweenParts scan ∧ Drafted t d c b scan s.2
  | .error cause, s => Undone t d cause s

/-- The part is over. -/
theorem Inside.finish (hs : Inside t d c b p p.content s) (hp : Prepared t d) (hu : t.owner ∈ d.db.userIds) :
    Agrees t d c (b.take c p) (settle t s.2 (s.1.receive .partEnd)) := by
  unfold BodyDraft.take
  cases hs with
  | @parent scan e hrole hlen h =>
    rw [BodyDraft.refusal_of_parent hrole, if_neg (Nat.not_lt.mpr hlen)]
    simp only [hrole, receive]
    cases htext : Bytes.text? p.content with
    | none => exact h.abort hp (.malformed "parent is not valid UTF-8")
    | some ref =>
      simp only
      rw [settle_of_stepsLeft rfl]
      refine ⟨_, rfl, ?_⟩
      cases h with
      | empty parent => exact .empty _
      | staged parent early f => exact .staged _ early f
  | other hrole h =>
    rw [BodyDraft.refusal_of_other hrole]
    simp only [hrole, receive]
    rw [settle_of_stepsLeft rfl]
    exact ⟨_, rfl, h⟩
  | head hrole hfile hlen =>
    have hshort : ¬(Sniff.windowLength ≤ p.content.length ∧ c < p.content.length) := by omega
    rw [BodyDraft.refusal_of_file hrole hfile, if_neg hshort]
    simp only [hrole, receive]
    by_cases hlarge : c < p.content.length
    · rw [headComplete, if_pos hlarge, if_pos hlarge]
      exact Drafted.abort (.empty b.parent) hp (.payloadTooLarge c)
    · have hc := Nat.le_of_not_lt hlarge
      rw [if_neg hlarge, hp.settle_headComplete hu b.parent p hc true]
      exact ⟨_, rfl, .staged b.parent b.parent (p.draft p.content)⟩
  | body hrole hfile hlen hc =>
    have hsmall : ¬(Sniff.windowLength ≤ p.content.length ∧ c < p.content.length) := by omega
    rw [BodyDraft.refusal_of_file hrole hfile, if_neg hsmall]
    simp only [hrole, receive]
    rw [if_neg (Nat.not_lt.mpr hc), settle_of_stepsLeft rfl]
    exact ⟨_, rfl, .staged b.parent b.parent (p.draft p.content)⟩
  | refused hcause h =>
    rw [hcause]
    exact h.receive _

/-! ## Whole bodies -/

/-- One part, from its beginning to behind its end. -/
theorem agrees_part {scan : Scan} {e : Depot} (h : Drafted t d c b scan e) (hp : Prepared t d)
    (hu : t.owner ∈ d.db.userIds) (p : FormPart) :
    Agrees t d c (b.take c p) (feed t e (betweenParts scan) (p.events ++ [.partEnd])) := by
  rw [FormPart.events, List.cons_append, feed_cons, feed_append]
  exact (((Inside.start h hp p).chunks hp hu p.chunks).finish hp hu)

/-- Several parts. The induction is on the parts, the draft being what those before have told. -/
theorem agrees_parts {scan : Scan} {e : Depot} (h : Drafted t d c b scan e) (hp : Prepared t d)
    (hu : t.owner ∈ d.db.userIds) (parts : List FormPart) :
    Agrees t d c (b.takeAll c parts)
      (feed t e (betweenParts scan) (parts.flatMap fun p => p.events ++ [.partEnd])) := by
  induction parts generalizing b scan e with
  | nil => exact ⟨scan, rfl, h⟩
  | cons p rest ih =>
    have hpart := agrees_part h hp hu p
    rw [List.flatMap_cons, feed_append, BodyDraft.takeAll]
    cases htake : b.take c p with
    | error cause =>
      rw [htake] at hpart
      exact EndsAs.feed hpart _
    | ok b' =>
      rw [htake] at hpart
      obtain ⟨scan', hscan, hdrafted⟩ := hpart
      rw [hscan]
      exact ih hdrafted

/-- The end of the body, of which all whole parts have been taken. -/
theorem endsAs_close {scan : Scan} {e : Depot} (h : Drafted t d c b scan e) (hp : Prepared t d)
    (hu : t.owner ∈ d.db.userIds) (ending : BodyEnd) :
    EndsAs t (d.conclude t (b.close c ending)) (feed t e (betweenParts scan) ending.events) := by
  cases ending with
  | proper =>
    cases h with
    | empty parent =>
      show EndsAs t _ (settle t d (done (.error (.upload .missingFile))))
      rw [settle_of_stepsLeft rfl]
      exact ⟨rfl, rfl, Or.inl rfl⟩
    | staged parent early f =>
      show EndsAs t (d.store t parent f) (settle t (staging t d early f) (finish parent f.staged))
      by_cases hparent : parent = "" ∨ (findFolder d.db.folderRows parent t.owner).isSome
      · rw [hp.settle_finish_of_parent early f hparent]
        exact ⟨rfl, rfl, Or.inl rfl⟩
      · rw [hp.settle_finish_of_noParent early f hparent, store, if_neg hparent]
        exact ⟨rfl, rfl, Or.inr rfl⟩
  | broken cause => exact h.abort hp cause
  | brokenIn p cause =>
    show EndsAs t _ (feed t e (betweenParts scan) (p.events ++ [.broken cause]))
    rw [FormPart.events, List.cons_append, feed_cons, feed_append]
    exact ((Inside.start h hp p).chunks hp hu p.chunks).breakOff hp cause

theorem owner_of_uploadCeiling (h : d.uploadCeiling t.owner t.maxFileSize = .ok c) : t.owner ∈ d.db.userIds := by
  obtain ⟨u, hquota, -⟩ := uploadCeiling_eq_ok h
  obtain ⟨v, hv, -⟩ := Option.map_eq_some_iff.mp hquota
  have hid := id_of_user? hv
  obtain ⟨table, ht, hfound⟩ := Option.bind_eq_some_iff.mp hv
  rw [Database.userIds, userRows_of_users ht, ← hid]
  exact List.mem_map_of_mem (List.mem_of_find?_eq_some hfound)

/-- The whole upload, as one statement about its end. -/
theorem endsAs_run (hp : Prepared t d) (body : FormBody) :
    EndsAs t (d.uploadWhole t body) (run t d body.events) := by
  unfold run uploadWhole
  cases hceiling : d.uploadCeiling t.owner t.maxFileSize with
  | error e =>
    have hrefused : advance t d admission = (done (.error e), d) := by simp only [advance, hceiling]
    have hend : EndsAs t (.error e, d) (done (.error e), d) := ⟨rfl, rfl, Or.inl rfl⟩
    rw [settle_of_advance hrefused (Nat.succ_pos _), settle_of_stepsLeft rfl]
    exact hend.feed body.events
  | ok c =>
    have hadmitted : advance t d admission = (betweenParts ⟨c, "", none⟩, d) := by
      simp only [advance, hceiling]
    have hu := owner_of_uploadCeiling hceiling
    have hblank : Drafted t d c BodyDraft.blank ⟨c, "", none⟩ d := .empty ""
    have hparts := agrees_parts hblank hp hu body.parts
    rw [settle_of_advance hadmitted (Nat.succ_pos _), settle_of_stepsLeft rfl, FormBody.events, feed_append]
    simp only [BodyDraft.read]
    cases htaken : BodyDraft.blank.takeAll c body.parts with
    | error cause =>
      rw [htaken] at hparts
      exact EndsAs.feed hparts body.ending.events
    | ok b =>
      rw [htaken] at hparts
      obtain ⟨scan, hscan, hdrafted⟩ := hparts
      rw [hscan]
      exact endsAs_close hdrafted hp hu body.ending

/-- A user with a folder. -/
def depotWithDocs : Depot :=
  ⟨((fresh.createUser "alice" 0 "2026").2.insertFolder ⟨"d", "docs", "", 1, "2026"⟩).2, .empty⟩

/-- A file in four chunks, two of them empty, and behind it the folder that it goes to. -/
def bodyOfHello : FormBody :=
  ⟨[⟨some "file", some "a.txt", [[], Bytes.ofAscii "he", [], Bytes.ofAscii "llo"]⟩,
    ⟨some "parent", none, [Bytes.ofAscii "d"]⟩], .proper⟩

theorem prepared_depotWithDocs : Prepared ⟨1, "f", "2026", 100⟩ depotWithDocs where
  whole := ⟨rfl, rfl, rfl⟩
  vacant := ⟨(by intro f hf; cases hf), rfl⟩
  directory content h := by cases h
  name := ⟨⟨by decide, by decide, by decide, by decide⟩, by decide, by decide⟩
  low := by decide
  high := by decide

end Upload

end FileDepot
