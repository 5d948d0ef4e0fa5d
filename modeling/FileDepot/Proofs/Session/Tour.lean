import FileDepot.Proofs.Session.Contents
import FileDepot.Proofs.Session.Statements
import FileDepot.Proofs.Store.Tour

/-!
# Tours in a session

Whatever has happened in a session, every owner finds everything on a tour through the listings: each folder and
each finished file once, each listing in order, and with every listing the way back.
-/

namespace FileDepot

open Database

namespace Database

/-- What is found at a place of a tour of an owner: the way up from there, what is listed, in strict order, and the
    way back in breadcrumbs. The top level has none; below it they are the folders above, nearest first, each by its
    name and id, and then the top level. -/
structure Presents (db : Database) (owner : Int) (v : Visit) : Prop where
  way : IsWay db.folderRows owner v.way
  listed : db.listChildren owner (refOf v.way) = .ok v.listing
  folderOrder : v.listing.folders.Pairwise (ComesBefore Folder.name Folder.id)
  fileOrder : v.listing.files.Pairwise (ComesBefore File.name File.id)
  crumbsAtTop : v.way = [] → v.listing.breadcrumbs = []
  crumbsBelow : ∀ f above, v.way = f :: above →
    v.listing.breadcrumbs = above.map (fun g => { label := g.name, folderId := g.id }) ++
      [{ label := "/", folderId := rootFolderId }]

/-- A tour of an owner that comes to an end without a failure, to every folder of the owner once, and to every
    finished file of the owner once. None of it depends on the order of the rows. -/
structure FindsEverything (db : Database) (owner : Int) (visits : List Visit) (files : List File) : Prop where
  ends : ∀ depth, db.folderRows.countP (·.ownerId == owner) < depth → db.tour owner depth [] = some visits
  allFolders : (visits.map (·.way.head?)).Perm (none :: (db.folderRows.filter (·.ownerId == owner)).map some)
  allFiles : (visits.flatMap (·.listing.files)).Perm files
  once : files.Nodup
  places : ∀ v ∈ visits, db.Presents owner v
  anyOrder : ∀ db', db.Reordered db' → ∀ depth, db'.tour owner depth [] = db.tour owner depth []

theorem Shows.presents {db : Database} {owner : Int} {v : Visit} (h : db.Shows owner v.way v.listing)
    (hway : IsWay db.folderRows owner v.way) (hlisted : db.listChildren owner (refOf v.way) = .ok v.listing) :
    db.Presents owner v where
  way := hway
  listed := hlisted
  folderOrder := h.folderOrder
  fileOrder := h.fileOrder
  crumbsAtTop htop := by rw [h.crumbs, htop, crumbsOf]
  crumbsBelow f above hbelow := by rw [h.crumbs, hbelow, crumbsOf]

/-- In a forest whose ids stand for themselves a tour finds everything. -/
theorem Sound.findsEverything {db : Database} (hs : db.Sound) (hl : db.Lawful)
    (hids : ∀ f ∈ db.folderRows, FolderRef.IsId f.id) (owner : Int) :
    ∃ visits files, db.filesOf owner = .ok files ∧ db.FindsEverything owner visits files := by
  have hn := hl.fileIds
  have hstart : IsWay db.folderRows owner [] := .nil
  obtain ⟨visits, hvisits⟩ := exists_tour hs hn hids hstart (Nat.lt_succ_self _)
  refine ⟨visits, _, by rw [filesOf, hs.whole.fileTable]; rfl, ?_, perm_places_of_tour hs hn hids hvisits,
    perm_files_of_tour hs hn hids hvisits, ?_, ?_, ?_⟩
  · intro depth hdepth
    exact tour_mono hvisits hdepth
  · exact nodup_of_ascending (ascending_inOrder (hn.sublist (List.filter_sublist.map _)))
  · intro v hv
    obtain ⟨hway, -, hlist⟩ := shows_of_tour hs hn hids .nil hvisits v hv
    exact (hs.shows_of_way hn hids hway hlist).presents hway hlist
  · intro db' hdb' depth
    exact tour_congr (fun ref => (hdb'.samePart hl owner).listChildren_eq hl (hdb'.lawful hl) ref) depth []

end Database

/-- The folders have ids that were generated for them. -/
theorem Database.Steps.folderIds {p : String → Prop} {owner? : Option Int} {newId? : Option String}
    {db db' : Database} (h : Steps (Statement.MadeBy owner? newId?) db db') (hw : db.IsWhole)
    (hnew : ∀ id, newId? = some id → p id) (hids : ∀ f ∈ db.folderRows, p f.id) :
    ∀ f ∈ db'.folderRows, p f.id := by
  refine (h.keeps (P := fun db => db.IsWhole ∧ ∀ f ∈ db.folderRows, p f.id) ⟨hw, hids⟩ ?_).2
  intro db st hst hdb
  refine ⟨(st.write_apply hdb.1 hst.guarded).whole hdb.1, fun f hf => ?_⟩
  rcases st.mem_folderRows_apply hdb.1 hf with hf | hid
  · exact hdb.2 f hf
  · rcases hst.newId with hnone | hsome
    · cases hnone.symm.trans hid
    · exact hnew f.id (hsome.symm.trans hid)

namespace Session

variable {s : Session} {turns : List Turn}

theorem Reached.folderIds_run {p : String → Prop} (h : s.Reached) (ha : s.AdmitsAll turns)
    (hnew : ∀ turn ∈ turns, ∀ id, turn.newId? = some id → p id) (hids : ∀ f ∈ s.depot.db.folderRows, p f.id) :
    ∀ f ∈ (s.run turns).depot.db.folderRows, p f.id := by
  induction turns generalizing s with
  | nil => exact hids
  | cons turn rest ih =>
    refine ih (h.step ha.1) ha.2 (fun turn' hmem => hnew turn' (List.mem_cons_of_mem turn hmem)) ?_
    exact (s.steps_step turn).folderIds h.sound.whole (hnew turn List.mem_cons_self) hids

/-- In every session, every owner finds everything on a tour that starts at the top level and goes on to each
    folder that is listed. The ids that are generated for folders have to stand for themselves. -/
theorem tour_finds_everything (ha : fresh.AdmitsAll turns)
    (hids : ∀ turn ∈ turns, ∀ id, turn.newId? = some id → FolderRef.IsId id) (owner : Int) :
    ∃ visits files, (fresh.run turns).depot.db.filesOf owner = .ok files ∧
      (fresh.run turns).depot.db.FindsEverything owner visits files := by
  have hreached := Reached.fresh.run ha
  have hs : (fresh.run turns).depot.db.Sound := hreached.sound
  have hl : (fresh.run turns).depot.db.Lawful := hreached.lawful_numbered.1
  have hrefs : ∀ f ∈ (fresh.run turns).depot.db.folderRows, FolderRef.IsId f.id :=
    Reached.fresh.folderIds_run ha hids fun f hf => by cases hf
  exact hs.findsEverything hl hrefs owner

/-- A user makes a folder in another one, and uploads a file into the inner one. -/
def nestedUpload : List Turn :=
  [.operate (.createUser "alice" 0 "2026"), .operate (.createFolder 1 "docs" "" "d" "2026"),
    .operate (.createFolder 1 "letters" "d" "e" "2026"),
    .start ⟨1, "f", "2026", 100⟩ (Bytes.ofAscii "b") 1000,
    .deliver 0 (.chunk (Bytes.ofAscii
      ("--b\r\nContent-Disposition: form-data; name=\"parent\"\r\n\r\ne\r\n" ++
        "--b\r\nContent-Disposition: form-data; name=\"file\"; filename=\"a.txt\"\r\n\r\nhi\r\n--b--")) true)]

theorem tour_finds_everything_of_nested :
    ∃ visits, (fresh.run nestedUpload).depot.db.tour 1 3 [] = some visits ∧
      (visits.map (·.way.head?)).Perm
        [none, some ⟨"d", "docs", "", 1, "2026"⟩, some ⟨"e", "letters", "d", 1, "2026"⟩] ∧
      (visits.flatMap (·.listing.files)).Perm
        [⟨"f", "a.txt", "txt", "text/plain; charset=utf-8", 2, .complete, "e", 1, "2026"⟩] := by
  have ha : fresh.AdmitsAll nestedUpload := by
    have hid : BlobPath.IsSegment "f" := ⟨by decide, by decide, by decide, by decide⟩
    exact ⟨trivial, trivial, trivial, ⟨hid, by simp [fresh, step]⟩, trivial, trivial⟩
  have hids : ∀ turn ∈ nestedUpload, ∀ id, turn.newId? = some id → FolderRef.IsId id := by
    have hd : FolderRef.IsId "d" := ⟨by decide, by decide⟩
    have he : FolderRef.IsId "e" := ⟨by decide, by decide⟩
    simp [nestedUpload, Turn.newId?, Operation.newId?, hd, he]
  have hdb : (fresh.run nestedUpload).depot.db =
      { Database.fresh with
        users := some ⟨[⟨1, "alice", 0, .exact 2, "2026"⟩], 1⟩
        folders := some [⟨"d", "docs", "", 1, "2026"⟩, ⟨"e", "letters", "d", 1, "2026"⟩]
        files := some [⟨"f", "a.txt", "txt", "text/plain; charset=utf-8", 2, .complete, "e", 1, "2026"⟩] } := by
    decide +kernel
  have hlisted : (fresh.run nestedUpload).depot.db.filesOf 1 =
      .ok [⟨"f", "a.txt", "txt", "text/plain; charset=utf-8", 2, .complete, "e", 1, "2026"⟩] := by
    rw [hdb]
    decide +kernel
  obtain ⟨visits, files, hfiles, hfound⟩ := tour_finds_everything ha hids 1
  rw [hlisted] at hfiles
  rw [hdb] at hfound ⊢
  cases hfiles
  exact ⟨visits, hfound.ends 3 (by decide), hfound.allFolders, hfound.allFiles⟩

end Session

end FileDepot
