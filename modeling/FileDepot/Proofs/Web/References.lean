import FileDepot.Proofs.Store.Listings
import FileDepot.Proofs.Upload.Parents
import FileDepot.Proofs.Web.Names

/-!
# References to folders

A folder is named by its id, with white space around it or without, and the top level by nothing as well as by an id
that no folder has. Wherever a reference is taken only its stored form counts. Parents are stored in that form, so
that what clients are shown of a record leads back to where the record lies.
-/

namespace FileDepot

open Database Multipart

/-! ## Where references are taken -/

theorem FolderRef.isRoot_normalize (ref : String) : isRoot (normalize ref) = isRoot ref := by
  rw [Bool.eq_iff_iff, isRoot_iff, isRoot_iff, normalize_normalize]

namespace Database

open FolderRef

variable {db : Database} {owner : Int} {parent ref : String}

theorem ancestors_normalize (db : Database) (owner : Int) (ref : String) :
    db.ancestors owner (normalize ref) = db.ancestors owner ref := by
  simp only [ancestors, normalize_normalize]

theorem breadcrumbs_normalize (db : Database) (owner : Int) (ref : String) :
    db.breadcrumbs owner (normalize ref) = db.breadcrumbs owner ref := by
  simp only [breadcrumbs, isRoot_normalize, ancestors_normalize]

theorem listChildren_normalize (db : Database) (owner : Int) (ref : String) :
    db.listChildren owner (normalize ref) = db.listChildren owner ref := by
  simp only [listChildren, normalize_normalize]

theorem deleteFolder_normalize (db : Database) (owner : Int) (ref : String) :
    db.deleteFolder owner (normalize ref) = db.deleteFolder owner ref := by
  simp only [deleteFolder, normalize_normalize]

theorem createFolder_normalize (db : Database) (owner : Int) (name ref id createdAt : String) :
    db.createFolder owner name (normalize ref) id createdAt = db.createFolder owner name ref id createdAt := by
  simp only [createFolder, normalize_normalize]

/-! ## Where references lead -/

/-- From a parent that can be used there are breadcrumbs. -/
theorem Sound.breadcrumbs_of_parent (hs : db.Sound) (hp : IsParent db.folderRows owner parent)
    (hn : normalize parent = parent) : ∃ crumbs, db.breadcrumbs owner parent = .ok crumbs := by
  by_cases htop : parent = ""
  · exact ⟨[], by rw [breadcrumbs, if_pos (isRoot_iff.mpr (hn.trans htop))]⟩
  · obtain ⟨g, hg, rfl, rfl⟩ := hp.resolve_left htop
    obtain ⟨path, hpath, hnodup⟩ := hs.grown.ascent hg
    exact ⟨_, hs.breadcrumbs_of_mem hg hpath hnodup hn htop⟩

/-- What is listed under a reference to a parent that can be used. -/
theorem Sound.listChildren_of_parent (hs : db.Sound) (hp : IsParent db.folderRows owner parent)
    (href : normalize ref = parent) :
    ∃ crumbs, db.listChildren owner ref =
      .ok ⟨sortFolders (db.folderRows.filter fun f => f.ownerId == owner && f.parent == parent),
        sortFiles (db.fileRows.filter fun f => f.ownerId == owner && f.parent == parent && f.state == .complete),
        crumbs⟩ := by
  have hn : normalize parent = parent := by rw [← href, normalize_normalize]
  obtain ⟨crumbs, hcrumbs⟩ := hs.breadcrumbs_of_parent hp hn
  have hfound : ¬ (parent ≠ "" ∧ (findFolder db.folderRows parent owner).isNone) := by
    rintro ⟨hne, hnone⟩
    have hsome := findFolder_isSome_iff.mpr (hp.resolve_left hne)
    rw [Option.isNone_iff_eq_none.mp hnone] at hsome
    cases hsome
  refine ⟨crumbs, ?_⟩
  simp only [listChildren, href, hs.whole.folderTable, if_neg hfound, foldersUnder, filesUnder,
    hs.whole.fileTable, hcrumbs]
  rfl

theorem Sound.lists_folder (hs : db.Sound) {f : Folder} (hf : f ∈ db.folderRows)
    (href : normalize ref = f.parent) :
    ∃ listing, db.listChildren f.ownerId ref = .ok listing ∧ f ∈ listing.folders := by
  obtain ⟨crumbs, hlist⟩ := hs.listChildren_of_parent (hs.grown.isParent hf) href
  refine ⟨_, hlist, ?_⟩
  rw [sortFolders_eq, (inOrder_perm _ _ _).mem_iff]
  exact List.mem_filter.mpr ⟨hf, by simp⟩

theorem Sound.lists_file (hs : db.Sound) {f : File} (hf : f ∈ db.fileRows) (hc : f.state = .complete)
    (href : normalize ref = f.parent) :
    ∃ listing, db.listChildren f.ownerId ref = .ok listing ∧ f ∈ listing.files := by
  obtain ⟨crumbs, hlist⟩ := hs.listChildren_of_parent (hs.housed f hf hc) href
  refine ⟨_, hlist, ?_⟩
  rw [sortFiles_eq, (inOrder_perm _ _ _).mem_iff]
  exact List.mem_filter.mpr ⟨hf, by simp [hc]⟩

end Database

/-! ## Stored parents -/

/-- The folders of a session have their parents in stored form. -/
theorem Session.Reached.normal_folders {s : Session} (h : s.Reached) :
    ∀ f ∈ s.depot.db.folderRows, FolderRef.normalize f.parent = f.parent := by
  induction h with
  | fresh => exact fun f hf => (List.not_mem_nil hf).elim
  | @step s turn h ha ih =>
    have hw := h.lawful_numbered.1.whole
    cases turn with
    | operate op =>
      intro f hf
      rcases op.mem_folderRows_run hw hf with hf | ⟨-, hnormal⟩
      · exact ih f hf
      · exact hnormal
    | start t boundary limit =>
      exact fun f hf => ih f ((Upload.steps_settle t s.depot .admission).folderRows_subset hw hf)
    | deliver n x =>
      simp only [Session.step]
      cases hn : s.uploads[n]? with
      | none => exact ih
      | some a =>
        have hsubset :=
          (Upload.steps_feed a.ticket s.depot a.intake.upload (x.events a.intake)).folderRows_subset hw
        rw [← a.feed_of_take] at hsubset
        exact fun f hf => ih f (hsubset hf)

/-- The parent in a record as clients see it. -/
def Json.parent? : Json → Option String
  | .record fields =>
    match fields.lookup "parent" with
    | some (.text parent) => some parent
    | _ => none
  | _ => none

theorem Folder.parent?_json (f : Folder) : f.json.parent? = some (FolderRef.forClient f.parent) := rfl

theorem File.parent?_json (f : File) : f.json.parent? = some (FolderRef.forClient f.parent) := rfl

namespace Service

variable {s : Service}

open FolderRef Upload

theorem Reached.normal_folders (h : s.Reached) :
    ∀ f ∈ s.depot.db.folderRows, normalize f.parent = f.parent := by
  obtain ⟨σ, hσ, hshows⟩ := h.shows
  rw [← hshows.depot]
  exact hσ.normal_folders

theorem Reached.normal_files (h : s.Reached) : ∀ f ∈ s.depot.db.fileRows, normalize f.parent = f.parent :=
  h.carried Upload.carries_hasNormalParent fun _ _ _ hnormal => hnormal

theorem Reached.sound (h : s.Reached) : s.depot.db.Sound := by
  obtain ⟨σ, hσ, hshows⟩ := h.shows
  rw [← hshows.depot]
  exact hσ.sound

/-- A reference means the same wherever it is taken. The top level is what has no stored form; the stored form is
    its own; and for listings, walks, the creation and the removal of folders and the parent part of an upload, in
    whatever chunks it comes, a reference is as good as its stored form. The parent that clients are shown of a
    folder or a file stands for the stored parent, and what is listed there has the record in it. -/
theorem references_mean_the_same (h : s.Reached) (ref : String) (owner : Int) :
    ((isRoot ref = true ↔ normalize ref = "") ∧ normalize (normalize ref) = normalize ref) ∧
    (s.depot.db.listChildren owner ref = s.depot.db.listChildren owner (normalize ref) ∧
      s.depot.db.ancestors owner ref = s.depot.db.ancestors owner (normalize ref) ∧
      s.depot.db.breadcrumbs owner ref = s.depot.db.breadcrumbs owner (normalize ref) ∧
      s.depot.db.deleteFolder owner ref = s.depot.db.deleteFolder owner (normalize ref) ∧
      ∀ name id createdAt, s.depot.db.createFolder owner name ref id createdAt =
        s.depot.db.createFolder owner name (normalize ref) id createdAt) ∧
    ((Bytes.ofText ref).length ≤ 1024 → ∀ p q : FormPart, p.role = .parent → q.role = .parent →
      p.content = Bytes.ofText ref → q.content = Bytes.ofText (normalize ref) →
        (∀ t d scan, feed t d (betweenParts scan) (p.events ++ [.partEnd]) =
            (betweenParts { scan with parent := normalize ref }, d) ∧
          feed t d (betweenParts scan) (q.events ++ [.partEnd]) =
            (betweenParts { scan with parent := normalize ref }, d)) ∧
        ∀ t d before after ending, Upload.run t d (FormBody.events ⟨before ++ p :: after, ending⟩) =
          Upload.run t d (FormBody.events ⟨before ++ q :: after, ending⟩)) ∧
    (∀ f ∈ s.depot.db.folderRows, ∃ shown, f.json.parent? = some shown ∧ normalize shown = f.parent ∧
      ∃ listing, s.depot.db.listChildren f.ownerId shown = .ok listing ∧ f ∈ listing.folders) ∧
    ∀ f ∈ s.depot.db.fileRows, ∃ shown, f.json.parent? = some shown ∧ normalize shown = f.parent ∧
      (f.state = .complete →
        ∃ listing, s.depot.db.listChildren f.ownerId shown = .ok listing ∧ f ∈ listing.files) := by
  refine ⟨⟨isRoot_iff, normalize_normalize ref⟩, ⟨(listChildren_normalize _ _ _).symm,
    (ancestors_normalize _ _ _).symm, (breadcrumbs_normalize _ _ _).symm, (deleteFolder_normalize _ _ _).symm,
    fun _ _ _ => (createFolder_normalize _ _ _ _ _ _).symm⟩, ?_, fun f hf => ?_, fun f hf => ?_⟩
  · intro hlen p q hp hq hpcontent hqcontent
    have hplen : p.content.length ≤ maxParentLength := hpcontent ▸ hlen
    have hqlen : q.content.length ≤ maxParentLength :=
      hqcontent ▸ Nat.le_trans (length_ofText_normalize_le ref) hlen
    have hptext : Bytes.text? p.content = some ref := by rw [hpcontent, Bytes.text?_ofText]
    have hqtext : Bytes.text? q.content = some (normalize ref) := by rw [hqcontent, Bytes.text?_ofText]
    refine ⟨fun t d scan => ⟨feed_parent t d scan hp hplen hptext, ?_⟩, fun t d before after ending => ?_⟩
    · rw [feed_parent t d scan hq hqlen hqtext, normalize_normalize]
    · exact run_congr_parent t d before after ending hp hq hplen hqlen hptext hqtext
        (normalize_normalize ref).symm
  · have hshown := normalize_forClient (h.normal_folders f hf)
    exact ⟨_, f.parent?_json, hshown, h.sound.lists_folder hf hshown⟩
  · have hshown := normalize_forClient (h.normal_files f hf)
    exact ⟨_, f.parent?_json, hshown, fun hc => h.sound.lists_file hf hc hshown⟩

/-- A user with a folder and another one in it, named with white space around the id of the first. -/
def withNested : Service :=
  fresh.run [.turn (.operate (.createUser "alice" 0 "2026")),
    .turn (.operate (.createFolder 1 "docs" " " "d" "2026")),
    .turn (.operate (.createFolder 1 "drafts" " d\u00a0" "e" "2026"))]

theorem references_mean_the_same_of_nested :
    withNested.Reached ∧ withNested.depot.db.folderRows = [⟨"d", "docs", "", 1, "2026"⟩, ⟨"e", "drafts", "d", 1, "2026"⟩] ∧
      withNested.depot.db.listChildren 1 "\td\n" = withNested.depot.db.listChildren 1 (normalize "\td\n") ∧
      (∀ t before after ending,
        Upload.run t withNested.depot (FormBody.events
            ⟨before ++ ⟨some "parent", none, [Bytes.ofAscii "\td", Bytes.ofAscii "\n"]⟩ :: after, ending⟩) =
          Upload.run t withNested.depot (FormBody.events
            ⟨before ++ ⟨some "parent", none, [Bytes.ofAscii "d"]⟩ :: after, ending⟩)) ∧
      ∃ shown, (Folder.json ⟨"d", "docs", "", 1, "2026"⟩).parent? = some shown ∧ normalize shown = "" ∧
        ∃ listing, withNested.depot.db.listChildren 1 shown = .ok listing ∧
          ⟨"d", "docs", "", 1, "2026"⟩ ∈ listing.folders := by
  have hreached : withNested.Reached := Reached.fresh.run ⟨trivial, trivial, trivial, trivial⟩
  have hrows : withNested.depot.db.folderRows =
      [⟨"d", "docs", "", 1, "2026"⟩, ⟨"e", "drafts", "d", 1, "2026"⟩] := by decide +kernel
  obtain ⟨-, ⟨hlist, -⟩, hupload, hfolders, -⟩ := references_mean_the_same hreached "\td\n" 1
  have hparts := hupload (by decide) ⟨some "parent", none, [Bytes.ofAscii "\td", Bytes.ofAscii "\n"]⟩
    ⟨some "parent", none, [Bytes.ofAscii "d"]⟩ rfl rfl (by decide) (by decide)
  exact ⟨hreached, hrows, hlist, fun t => hparts.2 t _, hfolders _ (by rw [hrows]; exact List.mem_cons_self)⟩

end Service

end FileDepot
