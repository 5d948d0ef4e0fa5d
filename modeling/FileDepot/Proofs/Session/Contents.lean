import FileDepot.Proofs.Session.Custody
import FileDepot.Proofs.Upload.Whole

/-!
# What a session keeps

The records and the contents of a depot, however it came to be as it is: a finished file has the content that
the body of its upload held, and when no upload is under way there is nothing else.
-/

namespace FileDepot

open BlobPath Database Depot Upload Hearing

namespace Session

variable {s : Session} {a : Sending} {f : File}

/-- A finished file of a session: the upload that made it, and the content it can be downloaded with. -/
def Holds (s : Session) (f : File) : Prop :=
  ∃ a ∈ s.uploads, a.ticket.fileId = f.id ∧ a.ticket.owner = f.ownerId ∧
    f.size = (filePart a.heard).length ∧
    s.depot.blobs.open? (ofFile f.ownerId f.id) = .ok (.blob (filePart a.heard)) ∧
    s.depot.openDownload f.ownerId f.id = .ok ⟨f, .blob (filePart a.heard)⟩

theorem Reached.holds (h : s.Reached) (hf : f ∈ s.depot.db.fileRows) (hs : f.state = .complete) :
    s.Holds f := by
  have hc := h.custody
  obtain ⟨a, ha, hid, hown, -, hfaith⟩ := hc.of_complete hf hs
  obtain ⟨-, -, hsize, hg, -⟩ := hfaith.row f hf hid.symm
  have hseg : IsSegment f.id := hid ▸ hc.segments a ha
  rw [Ticket.place, hid, hown] at hg
  exact ⟨a, ha, hid, hown, hsize, hc.orderly.tidy.open?_blob hseg hg,
    openDownload_of_mem hc.orderly hf hs hseg hg⟩

/-- A file that was uploaded with success and was not taken away can be downloaded. -/
theorem Reached.download_of_ok (h : s.Reached) (ha : a ∈ s.uploads) {g : File}
    (hr : a.result? = some (.ok g)) (hkept : ¬ Removed s.log a.ticket) :
    ∃ f, s.depot.openDownload a.ticket.owner a.ticket.fileId = .ok ⟨f, .blob (filePart a.heard)⟩ := by
  have hc := h.custody
  have ht := hc.tracks a ha
  rw [result?_eq_some.mp hr] at ht
  obtain ⟨hfaith, hremoved | ⟨f, hf, hid⟩⟩ := ht
  · exact absurd hremoved hkept
  · obtain ⟨hown, hs, -, hg, -⟩ := hfaith.row f hf hid
    rw [← hid, ← hown]
    rw [Ticket.place, ← hid, ← hown] at hg
    exact ⟨f, openDownload_of_mem hc.orderly hf hs (hid ▸ hc.segments a ha) hg⟩

/-- While no upload is under way, every row is that of a finished file. -/
theorem Reached.complete_of_done (h : s.Reached) (hdone : ∀ a ∈ s.uploads, a.result?.isSome = true)
    (hf : f ∈ s.depot.db.fileRows) : f.state = .complete := by
  have hc := h.custody
  obtain ⟨a, ha, hid, -⟩ := hc.known f hf
  have ht := hc.tracks a ha
  obtain ⟨result, hr⟩ := Option.isSome_iff_exists.mp (hdone a ha)
  rw [result?_eq_some.mp hr] at ht
  cases result with
  | ok g => exact (ht.1.row f hf hid.symm).2.1
  | error e => exact (ht.row f hf hid.symm).2.1

/-- Every content belongs to exactly one record. -/
theorem Reached.row_of_content (h : s.Reached) {path : BlobPath} {content : Bytes}
    (hg : s.depot.blobs.get? path = some (.blob content)) :
    ∃ f ∈ s.depot.db.fileRows, path = ofIds f.ownerId f.id ∧
      ∀ g ∈ s.depot.db.fileRows, path = ofIds g.ownerId g.id → g = f := by
  have hc := h.custody
  rcases hc.orderly.tidy path _ hg with ⟨he, -⟩ | ⟨-, owner, id, rfl, -⟩
  · cases he
  · obtain ⟨f, hf, rfl, rfl⟩ := hc.backed owner id content hg
    refine ⟨f, hf, rfl, fun g hgmem heq => ?_⟩
    exact List.inj_on_of_nodup_map hc.orderly.unique hgmem hf (ofIds_inj.mp heq).2.symm

/-- Whatever has happened, the depot is prepared for every upload that can be started. -/
theorem Reached.prepared (h : s.Reached) {t : Ticket} {boundary : Bytes} {limit : Nat}
    (ha : s.Admits (.start t boundary limit)) (hname : BlobTree.IsName t.fileId)
    (hlow : int64Min ≤ t.owner) (hhigh : t.owner ≤ int64Max) : Upload.Prepared t s.depot where
  whole := h.custody.orderly.whole
  vacant := h.custody.vacant ha.2
  directory content := h.custody.orderly.tidy.ofOwner_ne_blob t.owner content
  name := hname
  low := hlow
  high := hhigh

/-- Records and contents agree in every session that can come about. A finished file has the size and the
    bytes of the file part of the body of its upload, and a download opens them; a file that was uploaded with
    success and not taken away can be downloaded; and while no upload is under way, there are only finished
    files, and no content but theirs. -/
theorem records_match_contents (h : s.Reached) :
    (∀ f ∈ s.depot.db.fileRows, f.state = .complete → s.Holds f) ∧
      (∀ a ∈ s.uploads, ∀ g, a.result? = some (.ok g) → ¬ Removed s.log a.ticket →
        ∃ f, s.depot.openDownload a.ticket.owner a.ticket.fileId =
          .ok ⟨f, .blob (filePart a.heard)⟩) ∧
      ((∀ a ∈ s.uploads, a.result?.isSome = true) →
        (∀ f ∈ s.depot.db.fileRows, f.state = .complete) ∧
          ∀ path content, s.depot.blobs.get? path = some (.blob content) →
            ∃ f ∈ s.depot.db.fileRows, path = ofIds f.ownerId f.id ∧
              ∀ g ∈ s.depot.db.fileRows, path = ofIds g.ownerId g.id → g = f) :=
  ⟨fun _ hf hs => h.holds hf hs, fun _ ha _ hr hkept => h.download_of_ok ha hr hkept,
    fun hdone => ⟨fun _ hf => h.complete_of_done hdone hf, fun _ _ hg => h.row_of_content hg⟩⟩

/-- A user uploads the two bytes `hi` under the id `f` and makes a folder before the last bytes of the body
    arrive. -/
def uploadOfHi : List Turn :=
  [.operate (.createUser "alice" 0 "2026"),
    .start ⟨1, "f", "2026", 100⟩ (Bytes.ofAscii "b") 1000,
    .deliver 0 (.chunk (Bytes.ofAscii
      "--b\r\nContent-Disposition: form-data; name=\"file\"; filename=\"a.txt\"\r\n\r\nh") false),
    .operate (.createFolder 1 "docs" "" "d" "2026"),
    .deliver 0 (.chunk (Bytes.ofAscii "i\r\n--b--") true)]

/-- The file that comes of it. -/
def fileOfHi : File :=
  ⟨"f", "a.txt", "txt", "text/plain; charset=utf-8", 2, .complete, "", 1, "2026"⟩

theorem admitsAll_uploadOfHi : fresh.AdmitsAll uploadOfHi := by
  have hid : IsSegment "f" := ⟨by decide, by decide, by decide, by decide⟩
  exact ⟨trivial, ⟨hid, by simp [fresh, step]⟩, trivial, trivial, trivial, trivial⟩

theorem reached_uploadOfHi : (fresh.run uploadOfHi).Reached := Reached.fresh.run admitsAll_uploadOfHi

theorem records_match_contents_of_hi :
    (fresh.run uploadOfHi).Reached ∧ (fresh.run uploadOfHi).depot.db.fileRows = [fileOfHi] ∧
      (fresh.run uploadOfHi).Holds fileOfHi := by
  have hrows : (fresh.run uploadOfHi).depot.db.fileRows = [fileOfHi] := by decide +kernel
  refine ⟨reached_uploadOfHi, hrows, (records_match_contents reached_uploadOfHi).1 fileOfHi ?_ rfl⟩
  rw [hrows]
  exact List.mem_singleton_self _

end Session

end FileDepot
