import FileDepot.Proofs.Store.Writes
import Mathlib.Data.List.Perm.Subperm

/-!
# The forest of folders

The folders of a database form a forest that grows at its leaves and is cut at its leaves only. The order in
which folders were made is a rank: a parent is always older than what lies in it, so every way up ends at the
top level.
-/

namespace FileDepot

namespace Database

variable {db db' : Database} {id : String} {owner : Int} {rows : List Folder} {f : Folder}
  {path : List Folder}

/-- Folders in the order in which they were made. Each has a new id and lies at the top level or in a folder
    of its owner that was there before. -/
inductive Grown : List Folder → Prop
  | nil : Grown []
  | snoc {rows : List Folder} {f : Folder} (h : Grown rows) (hp : IsParent rows f.ownerId f.parent)
      (hnew : ∀ g ∈ rows, g.id ≠ f.id) : Grown (rows ++ [f])

/-- The folders on the way from a folder up to the top level. -/
inductive Ascent (rows : List Folder) : Folder → List Folder → Prop
  | top {f : Folder} (hp : f.parent = "") : Ascent rows f [f]
  | up {f g : Folder} {path : List Folder} (hp : f.parent ≠ "")
      (hg : findFolder rows f.parent f.ownerId = some g) (h : Ascent rows g path) :
      Ascent rows f (f :: path)

/-- A whole database whose folders form a forest and whose finished files all lie in it. -/
structure Sound (db : Database) : Prop where
  whole : db.IsWhole
  grown : Grown db.folderRows
  housed : ∀ f ∈ db.fileRows, f.state = .complete → IsParent db.folderRows f.ownerId f.parent

/-- A folder that is found is found as well when another one is added. -/
theorem findFolder_append (h : findFolder rows id owner = some f) (g : Folder) :
    findFolder (rows ++ [g]) id owner = some f := by
  rw [findFolder] at h ⊢
  rw [List.find?_append, h, Option.some_or]

theorem sound_fresh : fresh.Sound :=
  ⟨isWhole_fresh, .nil, fun f hf => by cases hf⟩

namespace IsParent

theorem append {parent : String} (h : IsParent rows owner parent) (f : Folder) :
    IsParent (rows ++ [f]) owner parent := by
  rcases h with htop | ⟨g, hg, hid, hown⟩
  · exact Or.inl htop
  · exact Or.inr ⟨g, List.mem_append_left _ hg, hid, hown⟩

/-- A parent is still there when another folder is removed. -/
theorem drop {parent : String} {owner' : Int} (h : IsParent rows owner' parent)
    (hne : owner' = owner → parent ≠ id) :
    IsParent (foldersWithout rows id owner) owner' parent := by
  rcases h with htop | ⟨g, hg, hid, hown⟩
  · exact Or.inl htop
  · refine Or.inr ⟨g, mem_foldersWithout.mpr ⟨hg, ?_⟩, hid, hown⟩
    rintro ⟨hgid, hgown⟩
    exact hne (hown.symm.trans hgown) (hid.symm.trans hgid)

end IsParent

namespace Grown

/-- The parent of a folder is there, however young the folder is. -/
theorem isParent (h : Grown rows) (hf : f ∈ rows) : IsParent rows f.ownerId f.parent := by
  induction h with
  | nil => cases hf
  | @snoc rows g h hp hnew ih =>
    rcases List.mem_append.mp hf with hf | hf
    · exact (ih hf).append g
    · rw [List.mem_singleton.mp hf]
      exact hp.append g

/-- Ids are not used twice, so a folder is found under its own. -/
theorem find_of_mem (h : Grown rows) (hf : f ∈ rows) : findFolder rows f.id f.ownerId = some f := by
  induction h with
  | nil => cases hf
  | @snoc rows x h hp hnew ih =>
    rcases List.mem_append.mp hf with hf | hf
    · exact findFolder_append (ih hf) x
    · have hnone : rows.find? (fun g => g.id == x.id && g.ownerId == x.ownerId) = none := by
        rw [List.find?_eq_none]
        intro g hg
        simp [hnew g hg]
      rw [List.mem_singleton.mp hf, findFolder, List.find?_append, hnone]
      simp

/-- Cutting off a folder that holds no folder leaves a forest. -/
theorem drop (h : Grown rows) (hb : ∀ g ∈ rows, g.ownerId = owner → g.parent ≠ id) :
    Grown (foldersWithout rows id owner) := by
  induction h with
  | nil => exact .nil
  | @snoc rows f h hp hnew ih =>
    have hrest := ih fun g hg => hb g (List.mem_append_left _ hg)
    have hself := hb f (List.mem_append_right _ (List.mem_singleton_self f))
    rw [foldersWithout_snoc]
    split
    · exact hrest
    · exact .snoc hrest (hp.drop hself) fun g hg => hnew g (mem_foldersWithout.mp hg).1

end Grown

namespace Ascent

theorem mem (h : Ascent rows f path) (hf : f ∈ rows) : ∀ g ∈ path, g ∈ rows ∧ g.ownerId = f.ownerId := by
  induction h with
  | top hp =>
    intro g hg
    rw [List.mem_singleton.mp hg]
    exact ⟨hf, rfl⟩
  | @up f parent path hp hfind h ih =>
    obtain ⟨hmem, -, hown⟩ := findFolder_some hfind
    intro g hg
    rcases List.mem_cons.mp hg with rfl | hg
    · exact ⟨hf, rfl⟩
    · obtain ⟨hgmem, hgown⟩ := ih hmem g hg
      exact ⟨hgmem, hgown.trans hown⟩

/-- A way up is not changed by a folder that is made later. -/
theorem append (h : Ascent rows f path) (x : Folder) : Ascent (rows ++ [x]) f path := by
  induction h with
  | top hp => exact .top hp
  | up hp hfind h ih =>
    exact .up hp (findFolder_append hfind x) ih

end Ascent

/-- From every folder of a forest there is a way up to the top level that visits no folder twice. -/
theorem Grown.ascent (h : Grown rows) (hf : f ∈ rows) :
    ∃ path, Ascent rows f path ∧ (path.map Folder.id).Nodup := by
  -- The way of the youngest folder is the way of its parent, on which the folder, being new, does not lie.
  induction h generalizing f with
  | nil => cases hf
  | @snoc rows x h hp hnew ih =>
    rcases List.mem_append.mp hf with hf | hf
    · obtain ⟨path, hpath, hn⟩ := ih hf
      exact ⟨path, hpath.append x, hn⟩
    · rw [List.mem_singleton.mp hf]
      by_cases htop : x.parent = ""
      · exact ⟨[x], .top htop, List.nodup_singleton _⟩
      · have hsome := findFolder_isSome_iff.mpr (hp.resolve_left htop)
        obtain ⟨g, hg⟩ := Option.isSome_iff_exists.mp hsome
        obtain ⟨hmem, -, -⟩ := findFolder_some hg
        obtain ⟨path, hpath, hn⟩ := ih hmem
        refine ⟨x :: path, .up htop (findFolder_append hg x) (hpath.append x), ?_⟩
        rw [List.map_cons, List.nodup_cons]
        refine ⟨?_, hn⟩
        intro hx
        obtain ⟨y, hy, hid⟩ := List.mem_map.mp hx
        exact hnew y (hpath.mem hmem y hy).1 hid

/-- A climb that is given enough folders follows the way up. -/
theorem climb_of_ascent (h : Ascent rows f path) (hown : f.ownerId = owner)
    (hn : (path.map Folder.id).Nodup) {bound : Nat} (hlen : path.length ≤ bound) {seen : List String}
    (hseen : ∀ g ∈ path, g.id ∉ seen) :
    climb (fun id => findFolder rows id owner) bound seen f = .ok path := by
  induction h generalizing bound seen with
  | @top f hp =>
    cases bound with
    | zero => simp at hlen
    | succ bound =>
      have hnew := hseen f (List.mem_singleton_self f)
      simp only [climb, if_neg hnew, if_pos hp]
  | @up f g path hp hfind h ih =>
    cases bound with
    | zero => simp at hlen
    | succ bound =>
      have hnew := hseen f List.mem_cons_self
      obtain ⟨-, -, hgown⟩ := findFolder_some hfind
      rw [List.map_cons, List.nodup_cons] at hn
      have hrest : climb (fun id => findFolder rows id owner) bound (f.id :: seen) g = .ok path := by
        refine ih (hgown.trans hown) hn.2 (by simpa using hlen) ?_
        intro x hx hmem
        rcases List.mem_cons.mp hmem with hid | hmem
        · exact hn.1 (List.mem_map.mpr ⟨x, hx, hid⟩)
        · exact hseen x (List.mem_cons_of_mem _ hx) hmem
      rw [hown] at hfind
      simp only [climb, if_neg hnew, if_neg hp, hfind, hrest]
      rfl

/-- A way up that visits no folder twice is not longer than the owner has folders. -/
theorem Ascent.length_le (h : Ascent rows f path) (hf : f ∈ rows) (hn : (path.map Folder.id).Nodup) :
    path.length ≤ rows.countP (·.ownerId == f.ownerId) := by
  rw [List.countP_eq_length_filter]
  refine (hn.of_map.subperm ?_).length_le
  intro g hg
  obtain ⟨hmem, hown⟩ := h.mem hf g hg
  exact List.mem_filter.mpr ⟨hmem, by simpa using hown⟩

/-! ## What statements keep -/

/-- Whatever a statement writes, the folders still form a forest in which the finished files lie. -/
theorem Write.sound (h : Write db db') (hs : db.Sound) : db'.Sound := by
  have hw := h.whole hs.whole
  cases h with
  | users h =>
    refine ⟨hw, ?_, ?_⟩
    · rw [h.folderRows]
      exact hs.grown
    · rw [h.fileRows, h.folderRows]
      exact hs.housed
  | addFolder f hp hnew =>
    refine ⟨hw, .snoc hs.grown hp hnew, ?_⟩
    intro g hg hgs
    exact (hs.housed g hg hgs).append f
  | dropFolder id owner hb =>
    refine ⟨hw, hs.grown.drop hb.folders, ?_⟩
    intro g hg hgs
    exact (hs.housed g hg hgs).drop fun hown => hb.files g hg hown hgs
  | addFile f hf hnew =>
    refine ⟨hw, hs.grown, ?_⟩
    intro g hg hgs
    rcases List.mem_append.mp hg with hg | hg
    · exact hs.housed g hg hgs
    · rw [List.mem_singleton.mp hg] at hgs
      exact absurd hgs hf
  | editFile id owner u hp hu =>
    refine ⟨hw, hs.grown, ?_⟩
    intro g hg hgs
    obtain ⟨g', hg', ⟨-, hown, rfl⟩ | ⟨-, rfl⟩⟩ := mem_updatedRows.mp hg
    · cases hparent : u.parent with
      | some parent =>
        have hset := hp parent hparent
        simpa [FileUpdate.apply_eq, hparent, hown] using hset
      | none =>
        -- Without a parent no state is set, so the file was finished before.
        have hstate : u.state = none := by
          cases hstate : u.state with
          | none => rfl
          | some state => simp [hparent, hstate] at hu
        have hold : g'.state = .complete := by simpa [FileUpdate.apply_eq, hstate] using hgs
        simpa [FileUpdate.apply_eq, hparent] using hs.housed g' hg' hold
    · exact hs.housed g hg' hgs
  | dropFiles p =>
    refine ⟨hw, hs.grown, ?_⟩
    intro g hg hgs
    exact hs.housed g (List.mem_filter.mp hg).1 hgs

/-! ## What walks find -/

theorem isRoot_iff {ref : String} : FolderRef.isRoot ref = true ↔ FolderRef.normalize ref = "" := by
  simp only [FolderRef.isRoot, FolderRef.normalize, Bool.or_eq_true, beq_iff_eq, String.isEmpty_iff]
  split
  · next h => simp [h]
  · next h => simp [h]

namespace Sound

/-- A walk to the top level finds the way up. -/
theorem ancestors_of_mem (hs : db.Sound) (hf : f ∈ db.folderRows) (hpath : Ascent db.folderRows f path)
    (hn : (path.map Folder.id).Nodup) {ref : String} (href : FolderRef.normalize ref = f.id)
    (hne : f.id ≠ "") : db.ancestors f.ownerId ref = .ok path := by
  have hlen := hpath.length_le hf hn
  simp only [ancestors, href, if_neg hne, hs.whole.folderTable, hs.grown.find_of_mem hf]
  exact climb_of_ascent hpath rfl hn (Nat.le_trans hlen (Nat.le_max_left _ _)) fun g _ => List.not_mem_nil

/-- A walk fails only because there is no folder to start at. -/
theorem ancestors_error (hs : db.Sound) {ref : String} {e : Error}
    (h : db.ancestors owner ref = .error e) : e = .notFound "folder" := by
  by_cases htop : FolderRef.normalize ref = ""
  · simp [ancestors, htop] at h
  · cases hf : findFolder db.folderRows (FolderRef.normalize ref) owner with
    | none =>
      simp only [ancestors, if_neg htop, hs.whole.folderTable, hf, Except.error.injEq] at h
      exact h.symm
    | some f =>
      obtain ⟨hmem, hid, rfl⟩ := findFolder_some hf
      obtain ⟨path, hpath, hn⟩ := hs.grown.ascent hmem
      rw [hs.ancestors_of_mem hmem hpath hn hid.symm (hid ▸ htop)] at h
      cases h

/-- The breadcrumbs of a folder are those of the folders above it and of the top level. -/
theorem breadcrumbs_of_mem (hs : db.Sound) (hf : f ∈ db.folderRows) (hpath : Ascent db.folderRows f path)
    (hn : (path.map Folder.id).Nodup) {ref : String} (href : FolderRef.normalize ref = f.id)
    (hne : f.id ≠ "") :
    db.breadcrumbs f.ownerId ref = .ok ((path.drop 1).map Breadcrumb.ofFolder ++ [Breadcrumb.root]) := by
  have hroot : ¬ FolderRef.isRoot ref = true := by
    intro h
    exact hne (href.symm.trans (isRoot_iff.mp h))
  rw [breadcrumbs, if_neg hroot, hs.ancestors_of_mem hf hpath hn href hne]
  rfl

theorem breadcrumbs_error (hs : db.Sound) {ref : String} {e : Error}
    (h : db.breadcrumbs owner ref = .error e) : e = .notFound "folder" := by
  unfold breadcrumbs at h
  split at h
  · cases h
  · cases ha : db.ancestors owner ref with
    | ok chain =>
      rw [ha] at h
      cases h
    | error cause =>
      rw [ha] at h
      cases h
      exact hs.ancestors_error ha

end Sound

end Database

end FileDepot
