import FileDepot.Proofs.Store.Forest
import FileDepot.Proofs.Store.Parts

/-!
# Tours through the folders

A tour lists the top level, then every folder that is listed there, and so on. In a forest a tour comes to an
end, finds every folder and every finished file of the owner exactly once, and reaches each folder on its only
way up.
-/

namespace FileDepot

namespace FolderRef

/-- Whether a text is the id of a folder as they are generated: it stands for itself and not for the top
    level. -/
structure IsId (id : String) : Prop where
  ne_empty : id ≠ ""
  normalized : normalize id = id

end FolderRef

/-- What is found at one place of a tour: the way up from there, nearest folder first and empty at the top level,
    and what is listed. -/
structure Visit where
  way : List Folder
  listing : Listing
  deriving DecidableEq, Repr

/-- What is found from all of some places, provided that it is found from each. -/
def gather {α β : Type} (find : α → Option (List β)) : List α → Option (List β)
  | [] => some []
  | x :: rest =>
    match find x, gather find rest with
    | some found, some more => some (found ++ more)
    | _, _ => none

namespace Database

/-- The reference to the place from which a way leads up. -/
def refOf : List Folder → String
  | [] => rootFolderId
  | f :: _ => f.id

/-- The parent that is stored for what lies there. -/
def parentOf : List Folder → String
  | [] => ""
  | f :: _ => f.id

/-- The breadcrumbs at the place from which a way leads up: the folders above by name and id, then the top level. -/
def crumbsOf : List Folder → List Breadcrumb
  | [] => []
  | _ :: above => above.map (fun g => ⟨g.name, g.id⟩) ++ [⟨"/", rootFolderId⟩]

/-- The tour of an owner that starts where the given way leads up, through at most `depth` levels. Nothing is
    found if a listing fails or there are more levels. -/
def tour (db : Database) (owner : Int) : (depth : Nat) → (way : List Folder) → Option (List Visit)
  | 0, _ => none
  | depth + 1, way =>
    match db.listChildren owner (refOf way) with
    | .error _ => none
    | .ok listing =>
      (gather (fun f => db.tour owner depth (f :: way)) listing.folders).map fun below => ⟨way, listing⟩ :: below

/-- Whether each of some folders of an owner lies in the next one, and the last one at the top level. -/
def IsWay (rows : List Folder) (owner : Int) : List Folder → Prop
  | [] => True
  | f :: above => (f ∈ rows ∧ f.ownerId = owner ∧ f.parent = parentOf above) ∧ IsWay rows owner above

end Database

/-! ## Gathering -/

section Gather

variable {α β : Type} {find find' : α → Option (List β)} {l : List α} {ys : List β}

theorem gather_cons {x : α} {rest : List α} (h : gather find (x :: rest) = some ys) :
    ∃ found more, find x = some found ∧ gather find rest = some more ∧ ys = found ++ more := by
  unfold gather at h
  split at h
  · next found more hfound hmore => exact ⟨found, more, hfound, hmore, (Option.some.inj h).symm⟩
  · cases h

theorem gather_of_forall (h : ∀ x ∈ l, ∃ found, find x = some found) : ∃ ys, gather find l = some ys := by
  induction l with
  | nil => exact ⟨[], rfl⟩
  | cons x rest ih =>
    obtain ⟨found, hfound⟩ := h x List.mem_cons_self
    obtain ⟨more, hmore⟩ := ih fun y hy => h y (List.mem_cons_of_mem x hy)
    exact ⟨found ++ more, by simp only [gather, hfound, hmore]⟩

theorem exists_of_gather (hys : gather find l = some ys) {x : α} (hx : x ∈ l) :
    ∃ found, find x = some found := by
  induction l generalizing ys with
  | nil => cases hx
  | cons y rest ih =>
    obtain ⟨found, more, hfound, hmore, -⟩ := gather_cons hys
    rcases List.mem_cons.mp hx with rfl | hx
    · exact ⟨found, hfound⟩
    · exact ih hmore hx

theorem gather_mono (h : ∀ x ∈ l, ∀ found, find x = some found → find' x = some found)
    (hys : gather find l = some ys) : gather find' l = some ys := by
  induction l generalizing ys with
  | nil => exact hys
  | cons x rest ih =>
    obtain ⟨found, more, hfound, hmore, rfl⟩ := gather_cons hys
    have hfound' := h x List.mem_cons_self found hfound
    have hmore' := ih (fun y hy => h y (List.mem_cons_of_mem x hy)) hmore
    simp only [gather, hfound', hmore']

theorem mem_gather (hys : gather find l = some ys) {y : β} :
    y ∈ ys ↔ ∃ x ∈ l, ∃ found, find x = some found ∧ y ∈ found := by
  induction l generalizing ys with
  | nil =>
    cases hys
    simp
  | cons x rest ih =>
    obtain ⟨found, more, hfound, hmore, rfl⟩ := gather_cons hys
    rw [List.mem_append, ih hmore]
    simp [hfound]

/-- What is gathered is different if it is so from each place, and from different places. -/
theorem nodup_gather {γ : Type} {key : β → γ} (hn : l.Nodup)
    (heach : ∀ x ∈ l, ∀ found, find x = some found → (found.map key).Nodup)
    (hapart : ∀ x ∈ l, ∀ x' ∈ l, ∀ found found', find x = some found → find x' = some found' →
      ∀ y ∈ found, ∀ y' ∈ found', key y = key y' → x = x')
    (hys : gather find l = some ys) : (ys.map key).Nodup := by
  induction l generalizing ys with
  | nil =>
    cases hys
    exact List.nodup_nil
  | cons x rest ih =>
    obtain ⟨hx, hrest⟩ := List.nodup_cons.mp hn
    obtain ⟨found, more, hfound, hmore, rfl⟩ := gather_cons hys
    rw [List.map_append, List.nodup_append]
    refine ⟨heach x List.mem_cons_self found hfound, ?_, ?_⟩
    · refine ih hrest (fun y hy => heach y (List.mem_cons_of_mem x hy)) ?_ hmore
      intro y hy y' hy'
      exact hapart y (List.mem_cons_of_mem x hy) y' (List.mem_cons_of_mem x hy')
    · rintro k hk k' hk' rfl
      obtain ⟨y, hy, rfl⟩ := List.mem_map.mp hk
      obtain ⟨y', hy', heq⟩ := List.mem_map.mp hk'
      obtain ⟨x', hx', found', hfound', hmem'⟩ := (mem_gather hmore).mp hy'
      have hsame := hapart x List.mem_cons_self x' (List.mem_cons_of_mem x hx') found found' hfound hfound' y hy y'
        hmem' heq.symm
      exact hx (hsame ▸ hx')

end Gather

namespace Database

variable {db db' : Database} {owner : Int} {rows : List Folder} {f : Folder} {way way' : List Folder}
  {visits : List Visit} {depth : Nat}

/-! ## Ways -/

namespace IsWay

theorem nil : IsWay rows owner [] := trivial

theorem of_suffix (h : IsWay rows owner way') (hs : way <:+ way') : IsWay rows owner way := by
  induction way' with
  | nil =>
    rw [List.suffix_nil.mp hs]
    trivial
  | cons f above ih =>
    rcases List.suffix_cons_iff.mp hs with rfl | hs
    · exact h
    · exact ih h.2 hs

/-- Where ids are unique, there is only one way up from a place. -/
theorem unique (hn : (rows.map Folder.id).Nodup) (hids : ∀ f ∈ rows, f.id ≠ "") (h : IsWay rows owner way)
    (h' : IsWay rows owner way') (heq : parentOf way = parentOf way') : way = way' := by
  induction way generalizing way' with
  | nil =>
    cases way' with
    | nil => rfl
    | cons g above => exact absurd heq.symm (hids g h'.1.1)
  | cons f above ih =>
    cases way' with
    | nil => exact absurd heq (hids f h.1.1)
    | cons g above' =>
      obtain rfl := List.inj_on_of_nodup_map hn h.1.1 h'.1.1 heq
      rw [ih h.2 h'.2 (h.1.2.2.symm.trans h'.1.2.2)]

/-- A way is the way up to the top level. -/
theorem ascent (hg : Grown rows) (hids : ∀ f ∈ rows, f.id ≠ "") (h : IsWay rows owner (f :: way)) :
    Ascent rows f (f :: way) := by
  induction way generalizing f with
  | nil => exact .top h.1.2.2
  | cons g above ih =>
    obtain ⟨⟨hf, hown, hparent⟩, hrest⟩ := h
    have hfind := hg.find_of_mem hrest.1.1
    rw [hrest.1.2.1, ← hown] at hfind
    refine .up ?_ ?_ (ih hrest)
    · rw [hparent]
      exact hids g hrest.1.1
    · rw [hparent]
      exact hfind

end IsWay

theorem Ascent.isWay {path : List Folder} (h : Ascent rows f path) (hf : f ∈ rows) :
    IsWay rows f.ownerId path ∧ ∃ above, path = f :: above := by
  induction h with
  | top hp => exact ⟨⟨⟨hf, rfl, hp⟩, trivial⟩, [], rfl⟩
  | @up f g path hp hfind h ih =>
    obtain ⟨hg, hid, hown⟩ := findFolder_some hfind
    obtain ⟨hway, above, rfl⟩ := ih hg
    rw [hown] at hway
    exact ⟨⟨⟨hf, rfl, hid.symm⟩, hway⟩, g :: above, rfl⟩

/-- In a forest there is a way up from every folder, and no folder lies on it twice. -/
theorem Grown.exists_way (h : Grown rows) (hf : f ∈ rows) :
    ∃ above, IsWay rows f.ownerId (f :: above) ∧ ((f :: above).map Folder.id).Nodup := by
  obtain ⟨path, hpath, hn⟩ := h.ascent hf
  obtain ⟨hway, above, rfl⟩ := hpath.isWay hf
  exact ⟨above, hway, hn⟩

theorem Grown.unique (h : Grown rows) : (rows.map Folder.id).Nodup := by
  induction h with
  | nil => exact List.nodup_nil
  | snoc h hp hnew ih => exact Database.nodup_ids_append ih hnew

/-- A way is not longer than the owner has folders. -/
theorem IsWay.length_le (hg : Grown rows) (hids : ∀ f ∈ rows, f.id ≠ "") (h : IsWay rows owner way) :
    way.length ≤ rows.countP (·.ownerId == owner) := by
  cases way with
  | nil => exact Nat.zero_le _
  | cons f above =>
    obtain ⟨hf, rfl, -⟩ := h.1
    obtain ⟨above', hway, hn⟩ := hg.exists_way hf
    rw [h.unique hg.unique hids hway rfl]
    exact (hway.ascent hg hids).length_le hf hn

/-! ## Listings on the way -/

theorem normalize_refOf (hids : ∀ f ∈ rows, FolderRef.IsId f.id) (h : IsWay rows owner way) :
    FolderRef.normalize (refOf way) = parentOf way := by
  cases way with
  | nil => decide
  | cons f above => exact (hids f h.1.1).normalized

/-- What is listed where a way leads up: what lies there, and the way in breadcrumbs. -/
theorem Sound.listChildren_of_way (hs : db.Sound) (hids : ∀ f ∈ db.folderRows, FolderRef.IsId f.id)
    (h : IsWay db.folderRows owner way) :
    db.listChildren owner (refOf way) =
      .ok ⟨sortFolders (db.folderRows.filter fun f => f.ownerId == owner && f.parent == parentOf way),
        sortFiles (db.fileRows.filter fun f => f.ownerId == owner && f.parent == parentOf way && f.state == .complete),
        crumbsOf way⟩ := by
  have hcrumbs : db.breadcrumbs owner (parentOf way) = .ok (crumbsOf way) := by
    cases way with
    | nil => rfl
    | cons f above =>
      obtain ⟨hf, rfl, -⟩ := h.1
      obtain ⟨above', hway, hn⟩ := hs.grown.exists_way hf
      have hne : ∀ g ∈ db.folderRows, g.id ≠ "" := fun g hg => (hids g hg).ne_empty
      obtain rfl : above = above' := (List.cons.inj (h.unique hs.grown.unique hne hway rfl)).2
      exact hs.breadcrumbs_of_mem hf (h.ascent hs.grown hne) hn (hids f hf).normalized (hids f hf).ne_empty
  have hfound : ¬ (parentOf way ≠ "" ∧ (findFolder db.folderRows (parentOf way) owner).isNone) := by
    rintro ⟨hne, hnone⟩
    cases way with
    | nil => exact hne rfl
    | cons f above =>
      obtain ⟨hf, rfl, -⟩ := h.1
      rw [parentOf, hs.grown.find_of_mem hf] at hnone
      cases hnone
  simp only [listChildren, normalize_refOf hids h, hs.whole.folderTable, if_neg hfound, foldersUnder, filesUnder,
    hs.whole.fileTable, hcrumbs]
  rfl

/-- What a listing shows where a way leads up: exactly what lies there, in strict order. -/
structure Shows (db : Database) (owner : Int) (way : List Folder) (listing : Listing) : Prop where
  folders : ∀ f, f ∈ listing.folders ↔ IsWay db.folderRows owner (f :: way)
  files : ∀ f, f ∈ listing.files ↔
    f ∈ db.fileRows ∧ f.ownerId = owner ∧ f.parent = parentOf way ∧ f.state = .complete
  folderOrder : listing.folders.Pairwise (ComesBefore Folder.name Folder.id)
  fileOrder : listing.files.Pairwise (ComesBefore File.name File.id)
  crumbs : listing.breadcrumbs = crumbsOf way

theorem ComesBefore.irrefl {α : Type} {name id : α → String} (a : α) : ¬ ComesBefore name id a a := by
  rintro (h | ⟨-, h⟩)
  · exact List.lt_irrefl _ h
  · exact List.lt_irrefl _ h

theorem nodup_of_ascending {α : Type} {name id : α → String} {l : List α} (h : l.Pairwise (ComesBefore name id)) :
    l.Nodup := by
  refine h.imp ?_
  rintro a b hab rfl
  exact ComesBefore.irrefl a hab

theorem Sound.shows_of_way (hs : db.Sound) (hn : (db.fileRows.map File.id).Nodup)
    (hids : ∀ f ∈ db.folderRows, FolderRef.IsId f.id) (h : IsWay db.folderRows owner way) {listing : Listing}
    (hl : db.listChildren owner (refOf way) = .ok listing) : db.Shows owner way listing := by
  rw [hs.listChildren_of_way hids h] at hl
  cases hl
  refine ⟨fun f => ?_, fun f => ?_, ?_, ?_, rfl⟩
  · rw [sortFolders_eq, (inOrder_perm _ _ _).mem_iff, List.mem_filter, IsWay]
    simp [h]
  · rw [sortFiles_eq, (inOrder_perm _ _ _).mem_iff, List.mem_filter]
    simp [and_assoc]
  · exact ascending_inOrder (hs.grown.unique.sublist (List.filter_sublist.map _))
  · exact ascending_inOrder (hn.sublist (List.filter_sublist.map _))

/-! ## Tours -/

theorem tour_succ (h : db.tour owner (depth + 1) way = some visits) :
    ∃ listing below, db.listChildren owner (refOf way) = .ok listing ∧
      gather (fun f => db.tour owner depth (f :: way)) listing.folders = some below ∧
      visits = ⟨way, listing⟩ :: below := by
  rw [tour] at h
  split at h
  · cases h
  · next listing hl =>
    obtain ⟨below, hbelow, rfl⟩ := Option.map_eq_some_iff.mp h
    exact ⟨listing, below, hl, hbelow, rfl⟩

theorem tour_succ_of_tour (h : db.tour owner depth way = some visits) :
    db.tour owner (depth + 1) way = some visits := by
  induction depth generalizing way visits with
  | zero => cases h
  | succ depth ih =>
    obtain ⟨listing, below, hl, hbelow, rfl⟩ := tour_succ h
    have hmore := gather_mono (fun f _ found hfound => ih hfound) hbelow
    rw [tour, hl]
    simp only [hmore, Option.map_some]

/-- A tour that comes to an end finds the same with more levels allowed. -/
theorem tour_mono {depth' : Nat} (h : db.tour owner depth way = some visits) (hle : depth ≤ depth') :
    db.tour owner depth' way = some visits := by
  induction hle with
  | refl => exact h
  | step hle ih => exact tour_succ_of_tour ih

/-- A tour depends on the listings only. -/
theorem tour_congr (h : ∀ ref, db'.listChildren owner ref = db.listChildren owner ref) (depth : Nat)
    (way : List Folder) : db'.tour owner depth way = db.tour owner depth way := by
  induction depth generalizing way with
  | zero => rfl
  | succ depth ih => simp only [tour, h, ih]

section Tour

variable (hs : db.Sound) (hn : (db.fileRows.map File.id).Nodup)
  (hids : ∀ f ∈ db.folderRows, FolderRef.IsId f.id)

include hs hn hids

/-- With more levels allowed than folders are left, a tour comes to an end. -/
theorem exists_tour (hw : IsWay db.folderRows owner way)
    (hdepth : db.folderRows.countP (·.ownerId == owner) < depth + way.length) :
    ∃ visits, db.tour owner depth way = some visits := by
  have hne : ∀ f ∈ db.folderRows, f.id ≠ "" := fun f hf => (hids f hf).ne_empty
  induction depth generalizing way with
  | zero =>
    have hle := hw.length_le hs.grown hne
    omega
  | succ depth ih =>
    have hl := hs.listChildren_of_way hids hw
    have hshows := hs.shows_of_way hn hids hw hl
    have hbelow : ∀ f ∈ _, ∃ found, db.tour owner depth (f :: way) = some found := fun f hf =>
      ih ((hshows.folders f).mp hf) (by rw [List.length_cons]; omega)
    obtain ⟨below, hgather⟩ := gather_of_forall hbelow
    exact ⟨_, by rw [tour, hl]; simp only [hgather, Option.map_some]; rfl⟩

/-- Everything that is found on a tour lies below its start, and is what is listed there. -/
theorem shows_of_tour (hw : IsWay db.folderRows owner way) (h : db.tour owner depth way = some visits) :
    ∀ v ∈ visits, IsWay db.folderRows owner v.way ∧ way <:+ v.way ∧
      db.listChildren owner (refOf v.way) = .ok v.listing := by
  induction depth generalizing way visits with
  | zero => cases h
  | succ depth ih =>
    obtain ⟨listing, below, hl, hbelow, rfl⟩ := tour_succ h
    have hshows := hs.shows_of_way hn hids hw hl
    intro v hv
    rcases List.mem_cons.mp hv with rfl | hv
    · exact ⟨hw, List.suffix_rfl, hl⟩
    · obtain ⟨f, hf, found, hfound, hv⟩ := (mem_gather hbelow).mp hv
      obtain ⟨hway, hsuffix, hlist⟩ := ih ((hshows.folders f).mp hf) hfound v hv
      exact ⟨hway, (List.suffix_cons f way).trans hsuffix, hlist⟩

/-- A tour finds every place below its start. -/
theorem mem_tour (hw : IsWay db.folderRows owner way) (h : db.tour owner depth way = some visits)
    (hw' : IsWay db.folderRows owner way') (hs' : way <:+ way') : way' ∈ visits.map Visit.way := by
  induction depth generalizing way visits with
  | zero => cases h
  | succ depth ih =>
    obtain ⟨listing, below, hl, hbelow, rfl⟩ := tour_succ h
    have hshows := hs.shows_of_way hn hids hw hl
    obtain ⟨steps, rfl⟩ := hs'
    rcases List.eq_nil_or_concat' steps with rfl | ⟨first, f, rfl⟩
    · exact List.mem_map.mpr ⟨⟨way, listing⟩, List.mem_cons_self, rfl⟩
    · -- The first folder on the way down is listed at the start.
      have hsuffix : f :: way <:+ first ++ [f] ++ way := ⟨first, by simp⟩
      have hstep : IsWay db.folderRows owner (f :: way) := hw'.of_suffix hsuffix
      have hf := (hshows.folders f).mpr hstep
      obtain ⟨found, hfound⟩ := exists_of_gather hbelow hf
      obtain ⟨v, hv, heq⟩ := List.mem_map.mp (ih hstep hfound hsuffix)
      exact List.mem_map.mpr ⟨v, List.mem_cons_of_mem _ ((mem_gather hbelow).mpr ⟨f, hf, found, hfound, hv⟩), heq⟩

/-- A tour comes to every place once. -/
theorem nodup_tour (hw : IsWay db.folderRows owner way) (h : db.tour owner depth way = some visits) :
    (visits.map Visit.way).Nodup := by
  induction depth generalizing way visits with
  | zero => cases h
  | succ depth ih =>
    obtain ⟨listing, below, hl, hbelow, rfl⟩ := tour_succ h
    have hshows := hs.shows_of_way hn hids hw hl
    have hbelow' : ∀ f ∈ listing.folders, ∀ found, db.tour owner depth (f :: way) = some found →
        ∀ v ∈ found, f :: way <:+ v.way := fun f hf found hfound v hv =>
      (shows_of_tour hs hn hids ((hshows.folders f).mp hf) hfound v hv).2.1
    rw [List.map_cons, List.nodup_cons]
    refine ⟨?_, ?_⟩
    · intro hmem
      obtain ⟨v, hv, heq⟩ := List.mem_map.mp hmem
      obtain ⟨f, hf, found, hfound, hv⟩ := (mem_gather hbelow).mp hv
      have hlen := (hbelow' f hf found hfound v hv).length_le
      simp only [heq, List.length_cons] at hlen
      omega
    · refine nodup_gather (nodup_of_ascending hshows.folderOrder) ?_ ?_ hbelow
      · intro f hf found hfound
        exact ih ((hshows.folders f).mp hf) hfound
      · intro f hf f' hf' found found' hfound hfound' v hv v' hv' heq
        have hsuffix := hbelow' f hf found hfound v hv
        have hsuffix' := hbelow' f' hf' found' hfound' v' hv'
        rw [← heq] at hsuffix'
        have hsame := List.suffix_of_suffix_length_le hsuffix hsuffix' (by simp)
        exact (List.cons.inj (hsame.eq_of_length (by simp))).1

/-- A tour from the top level comes to the top level and to every folder of the owner, once to each. -/
theorem perm_places_of_tour (h : db.tour owner depth [] = some visits) :
    (visits.map (·.way.head?)).Perm (none :: (db.folderRows.filter (·.ownerId == owner)).map some) := by
  have hne : ∀ f ∈ db.folderRows, f.id ≠ "" := fun f hf => (hids f hf).ne_empty
  have hways : ∀ way ∈ visits.map Visit.way, IsWay db.folderRows owner way := by
    intro way hmem
    obtain ⟨v, hv, rfl⟩ := List.mem_map.mp hmem
    exact (shows_of_tour hs hn hids .nil h v hv).1
  have hmap : visits.map (·.way.head?) = (visits.map Visit.way).map List.head? := by
    rw [List.map_map]
    rfl
  have hparent : ∀ way : List Folder, parentOf way = (way.head?.map Folder.id).getD "" := by
    intro way
    cases way <;> rfl
  have hleft : ((visits.map Visit.way).map List.head?).Nodup := by
    refine List.Nodup.map_on ?_ (nodup_tour hs hn hids .nil h)
    intro way hw way' hw' heq
    exact (hways way hw).unique hs.grown.unique hne (hways way' hw') (by rw [hparent, hparent, heq])
  have hright : (none :: (db.folderRows.filter (·.ownerId == owner)).map some).Nodup := by
    refine List.nodup_cons.mpr ⟨by simp, ?_⟩
    exact ((hs.grown.unique.of_map Folder.id).filter _).map (Option.some_injective Folder)
  rw [hmap]
  refine (List.perm_ext_iff_of_nodup hleft hright).mpr fun place => ?_
  rw [List.mem_map, List.mem_cons, List.mem_map]
  constructor
  · rintro ⟨way, hmem, rfl⟩
    cases way with
    | nil => exact Or.inl rfl
    | cons f above =>
      obtain ⟨hf, hown, -⟩ := (hways _ hmem).1
      exact Or.inr ⟨f, List.mem_filter.mpr ⟨hf, by simpa using hown⟩, rfl⟩
  · rintro (rfl | ⟨f, hf, rfl⟩)
    · exact ⟨[], mem_tour hs hn hids .nil h .nil List.suffix_rfl, rfl⟩
    · obtain ⟨hf, hown⟩ := List.mem_filter.mp hf
      obtain ⟨above, hway, -⟩ := hs.grown.exists_way hf
      rw [beq_iff_eq.mp hown] at hway
      exact ⟨f :: above, mem_tour hs hn hids .nil h hway List.nil_suffix, rfl⟩

/-- And what is listed on it are the finished files of the owner, each of them once. -/
theorem perm_files_of_tour (h : db.tour owner depth [] = some visits) :
    (visits.flatMap (·.listing.files)).Perm
      (sortFiles (db.fileRows.filter fun f => f.ownerId == owner && f.state == .complete)) := by
  have hne : ∀ f ∈ db.folderRows, f.id ≠ "" := fun f hf => (hids f hf).ne_empty
  have hshows : ∀ v ∈ visits, IsWay db.folderRows owner v.way ∧ db.Shows owner v.way v.listing := by
    intro v hv
    obtain ⟨hway, -, hl⟩ := shows_of_tour hs hn hids .nil h v hv
    exact ⟨hway, hs.shows_of_way hn hids hway hl⟩
  have hleft : (visits.flatMap (·.listing.files)).Nodup := by
    refine List.nodup_flatMap.mpr ⟨fun v hv => nodup_of_ascending (hshows v hv).2.fileOrder, ?_⟩
    refine (List.pairwise_map.mp (nodup_tour hs hn hids .nil h)).imp_of_mem ?_
    intro v v' hv hv' hdiffer f hf hf'
    -- A file lies in one place only.
    obtain ⟨-, -, hparent, -⟩ := ((hshows v hv).2.files f).mp hf
    obtain ⟨-, -, hparent', -⟩ := ((hshows v' hv').2.files f).mp hf'
    exact hdiffer ((hshows v hv).1.unique hs.grown.unique hne (hshows v' hv').1 (hparent.symm.trans hparent'))
  have hright := (inOrder_perm File.name File.id
    (db.fileRows.filter fun f => f.ownerId == owner && f.state == .complete)).nodup_iff.mpr
      ((hn.of_map File.id).filter _)
  refine (List.perm_ext_iff_of_nodup hleft hright).mpr fun f => ?_
  rw [List.mem_flatMap, (inOrder_perm _ _ _).mem_iff, List.mem_filter]
  constructor
  · rintro ⟨v, hv, hf⟩
    obtain ⟨hmem, hown, -, hstate⟩ := ((hshows v hv).2.files f).mp hf
    exact ⟨hmem, by simp [hown, hstate]⟩
  · rintro ⟨hmem, hf⟩
    simp only [Bool.and_eq_true, beq_iff_eq] at hf
    obtain ⟨way, hway, hparent⟩ : ∃ way, IsWay db.folderRows owner way ∧ f.parent = parentOf way := by
      rcases hs.housed f hmem hf.2 with htop | ⟨g, hg, hid, hown⟩
      · exact ⟨[], trivial, htop⟩
      · obtain ⟨above, hway, -⟩ := hs.grown.exists_way hg
        rw [hown, hf.1] at hway
        exact ⟨g :: above, hway, hid.symm⟩
    obtain ⟨v, hv, rfl⟩ := List.mem_map.mp (mem_tour hs hn hids .nil h hway List.nil_suffix)
    exact ⟨v, hv, ((hshows v hv).2.files f).mpr ⟨hmem, hf.1, hparent, hf.2⟩⟩

end Tour

end Database

end FileDepot
