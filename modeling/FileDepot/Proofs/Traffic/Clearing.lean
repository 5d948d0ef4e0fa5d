import FileDepot.Proofs.Blob.Removal
import FileDepot.Proofs.Store.Adjustments
import FileDepot.Proofs.Traffic.Ledger

/-!
# Deletions that overtake each other

Any number of deletions of files of one owner, cut into their accesses and mixed in any way, some of them of the
same file. Whoever removes the row of a file gives its bytes back; all others find the file gone. The counter of
the owner covers at every moment what is stored and what is still to be given back, so that nothing is ever cut
off at zero.
-/

namespace FileDepot

open Database BlobPath

/-- A finished file of an owner in the depot. -/
structure Depot.IsFileOf (d : Depot) (owner : Int) (f : File) : Prop where
  mem : f ∈ d.db.fileRows
  ownerId : f.ownerId = owner
  state : f.state = .complete

/-- A depot in which the counter of an owner, which is a 64-bit number, shows the bytes of the finished files and
    the content of each of them is in its place or gone. -/
structure Depot.IsSettled (d : Depot) (owner : Int) : Prop where
  lawful : d.db.Lawful
  counted : d.db.spaceUsed owner = .ok (storedBytes d.db.fileRows owner)
  range : storedBytes d.db.fileRows owner ≤ int64Max
  sizes : ∀ f, d.IsFileOf owner f → 0 ≤ f.size
  places : ∀ f, d.IsFileOf owner f → d.blobs.HoldsAtMostBlob (ofFile owner f.id)

namespace Request

/-- The file whose row a deletion has removed. -/
def taken? : Request → Option File
  | fileDeletion _ _ (.release f) => some f
  | fileDeletion _ _ (.done (.ok f)) => some f
  | _ => none

/-- The id of the file that is to be deleted. -/
def target? : Request → Option String
  | fileDeletion _ id _ => some id
  | _ => none

end Request

/-- Whether a move asks for a deletion of a file of an owner, or makes an access. -/
def Move.IsDeletionOf (owner : Int) : Move → Prop
  | .arrive (.delete o _) => o = owner
  | .advance _ => True
  | _ => False

namespace Traffic

variable {d : Depot} {owner : Int} {s : Traffic} {f g : File} {id : String} {n : Nat} {x x' : Deletion}
  {move : Move} {moves : List Move}

/-- The ids of the files that are to be deleted. -/
def targets (s : Traffic) : List String := s.requests.filterMap Request.target?

/-- For each request the file whose row it has removed. -/
def takings (s : Traffic) : List (Option File) := s.requests.map Request.taken?

/-- How far the deletion of a file with a given id can have come. What it saw of the file is still true, and the
    content is gone before the row. -/
def Stage (d : Depot) (owner : Int) (id : String) (s : Traffic) : Deletion → Prop
  | .lookup => True
  | .removeBlob f => d.IsFileOf owner f ∧ f.id = id
  | .removeRow f => d.IsFileOf owner f ∧ f.id = id ∧ s.depot.blobs.contains (ofFile owner f.id) = .ok false
  | .release f => d.IsFileOf owner f ∧ f.id = id ∧ s.depot.blobs.contains (ofFile owner f.id) = .ok false
  | .done (.ok f) => d.IsFileOf owner f ∧ f.id = id ∧ s.depot.blobs.contains (ofFile owner f.id) = .ok false
  | .done (.error e) => ∀ f, d.IsFileOf owner f → f.id = id → e = .notFound "file" ∧ some f ∈ s.takings

/-- What deletions of files of an owner make of a settled depot. Nothing but the rows that were taken, their
    contents, and the counter is different from what it was, and no row is taken twice. -/
structure Clears (d : Depot) (owner : Int) (s : Traffic) : Prop where
  stages : ∀ r ∈ s.requests, ∃ id x, r = .fileDeletion owner id x ∧ Stage d owner id s x
  once : ∀ (i j : Nat) (f : File), s.takings[i]? = some (some f) → s.takings[j]? = some (some f) → i = j
  db : s.depot.db = (d.db.withFiles (d.db.fileRows.filter fun f => some f ∉ s.takings)).withCounter owner
    (.exact (s.stored owner - s.dues owner))
  range : s.stored owner - s.dues owner ≤ int64Max
  places : ∀ f, d.IsFileOf owner f → s.depot.blobs.HoldsAtMostBlob (ofFile owner f.id)
  elsewhere : ∀ q, (∀ f, d.IsFileOf owner f → f.id ∈ s.targets → resolve (ofFile owner f.id) ≠ .ok q) →
    s.depot.blobs.get? q = d.blobs.get? q

/-- What the next access of a deletion does, and what it found. -/
inductive Progress (d : Depot) (owner : Int) (id : String) (s : Traffic) : Deletion → Deletion × Depot → Prop
  | rests (result : Outcome File) : Progress d owner id s (.done result) (.done result, s.depot)
  | misses (e : Error)
      (hgone : ∀ f, d.IsFileOf owner f → f.id = id → e = .notFound "file" ∧ some f ∈ s.takings) :
      Progress d owner id s .lookup (.done (.error e), s.depot)
  | finds (f : File) (hf : d.IsFileOf owner f) (hid : f.id = id) :
      Progress d owner id s .lookup (.removeBlob f, s.depot)
  | passes (f : File) (hf : d.IsFileOf owner f) (hid : f.id = id)
      (hgone : s.depot.blobs.contains (ofFile owner f.id) = .ok false) :
      Progress d owner id s (.removeBlob f) (.removeRow f, s.depot)
  | erases (f : File) (path : BlobPath) (content : Bytes) (hf : d.IsFileOf owner f) (hid : f.id = id)
      (hpath : resolve (ofFile owner f.id) = .ok path) (hget : s.depot.blobs.get? path = some (.blob content))
      (hgone : (s.depot.blobs.erase path).contains (ofFile owner f.id) = .ok false) :
      Progress d owner id s (.removeBlob f) (.removeRow f, { s.depot with blobs := s.depot.blobs.erase path })
  | loses (f : File) (hf : d.IsFileOf owner f) (hid : f.id = id) (htaken : some f ∈ s.takings) :
      Progress d owner id s (.removeRow f) (.done (.error (.notFound "file")), s.depot)
  | wins (f : File) (hf : d.IsFileOf owner f) (hid : f.id = id)
      (hgone : s.depot.blobs.contains (ofFile owner f.id) = .ok false) (hnew : some f ∉ s.takings) :
      Progress d owner id s (.removeRow f) (.release f, { s.depot with
        db := s.depot.db.withFiles (s.depot.db.fileRows.filter fun g => !isFile f.id owner g) })
  | pays (f : File) (hf : d.IsFileOf owner f) (hid : f.id = id)
      (hgone : s.depot.blobs.contains (ofFile owner f.id) = .ok false) (hnonneg : 0 ≤ f.size)
      (hle : f.size ≤ s.stored owner - s.dues owner) :
      Progress d owner id s (.release f) (.done (.ok f), { s.depot with
        db := s.depot.db.withCounter owner (.exact (s.stored owner - s.dues owner - f.size)) })

/-! ## One access -/

theorem unique (hd : d.IsSettled owner) (hf : d.IsFileOf owner f) (hg : g ∈ d.db.fileRows) (h : g.id = f.id) :
    g = f :=
  List.inj_on_of_nodup_map hd.lawful.fileIds hg hf.mem h

/-- Requests of which each adds nothing to the counter add nothing together. -/
theorem dues_nonpos (h : ∀ r ∈ s.requests, (r.due owner).getD 0 ≤ 0) : s.dues owner ≤ 0 := by
  have hsum := List.sum_le_card_nsmul (s.requests.map fun r => (r.due owner).getD 0) 0 ?_
  · simpa [dues] using hsum
  · intro n hn
    obtain ⟨r, hr, rfl⟩ := List.mem_map.mp hn
    exact h r hr

namespace Clears

theorem whole (h : Clears d owner s) (hd : d.IsSettled owner) : s.depot.db.IsWhole := by
  rw [h.db]
  exact (hd.lawful.whole.withFiles _).withCounter owner _

theorem mem_fileRows_iff (h : Clears d owner s) :
    f ∈ s.depot.db.fileRows ↔ f ∈ d.db.fileRows ∧ some f ∉ s.takings := by
  rw [h.db]
  simp

theorem counter (h : Clears d owner s) (hd : d.IsSettled owner) :
    s.depot.db.counter? owner = some (.exact (s.stored owner - s.dues owner)) := by
  rw [h.db]
  exact counter?_withCounter (spaceUsed_eq_ok_iff.mp hd.counted) _

theorem ids_nodup (h : Clears d owner s) (hd : d.IsSettled owner) :
    (s.depot.db.fileRows.map File.id).Nodup := by
  rw [h.db]
  exact hd.lawful.fileIds.sublist (List.filter_sublist.map _)

theorem stage (h : Clears d owner s) (hr : s.requests[n]? = some (.fileDeletion owner id x)) :
    Stage d owner id s x := by
  obtain ⟨id', x', heq, hstage⟩ := h.stages _ (List.mem_of_getElem? hr)
  cases heq
  exact hstage

theorem stored_nonneg (h : Clears d owner s) (hd : d.IsSettled owner) : 0 ≤ s.stored owner := by
  refine storedBytes_nonneg fun f hf hown hs => hd.sizes f ⟨?_, hown, hs⟩
  exact (h.mem_fileRows_iff.mp hf).1

/-- A file of the depot has a size whose opposite is a 64-bit number. -/
theorem opposite_size (hd : d.IsSettled owner) (hf : d.IsFileOf owner f) :
    Deletion.opposite f.size = -f.size := Deletion.opposite_of_nonneg (hd.sizes f hf)

/-- No deletion is going to add to the counter. -/
theorem due_nonpos (hd : d.IsSettled owner) (hx : Stage d owner id s x) :
    ((Request.fileDeletion owner id x).due owner).getD 0 ≤ 0 := by
  cases x with
  | release f =>
    have := hd.sizes f hx.1
    simp only [Request.due, if_true, Option.getD_some, opposite_size hd hx.1]
    omega
  | _ => exact Int.le_refl 0

/-- What is to be given back is counted. -/
theorem size_le (h : Clears d owner s) (hd : d.IsSettled owner)
    (hr : s.requests[n]? = some (.fileDeletion owner id (.release f))) :
    f.size ≤ s.stored owner - s.dues owner := by
  have hf := (h.stage hr).1
  -- Without the deletion the others would still owe nothing more than they give back.
  have hrest : dues ⟨s.depot, s.requests.set n (.fileDeletion owner id .lookup)⟩ owner ≤ 0 := by
    refine dues_nonpos fun r hmem => ?_
    rcases List.mem_or_eq_of_mem_set hmem with hmem | rfl
    · obtain ⟨id', x, rfl, hx⟩ := h.stages r hmem
      exact due_nonpos hd hx
    · exact Int.le_refl 0
  rw [dues_set hr] at hrest
  simp only [Request.due, if_true, Option.getD_some, Option.getD_none, opposite_size hd hf] at hrest
  have := h.stored_nonneg hd
  omega

/-- The look-up finds the file unless it is gone. -/
theorem progress_lookup (h : Clears d owner s) (hd : d.IsSettled owner) (id : String) :
    Progress d owner id s .lookup (Deletion.step owner id s.depot .lookup) := by
  have hlook : ∀ f, d.IsFileOf owner f → f.id = id → some f ∉ s.takings →
      s.depot.file owner id = .ok f := by
    rintro f hf rfl hnew
    have hcomplete := completeFile_of_mem (h.whole hd) (h.ids_nodup hd)
      (h.mem_fileRows_iff.mpr ⟨hf.mem, hnew⟩) hf.state
    rw [hf.ownerId] at hcomplete
    rw [Depot.file, hcomplete]
  simp only [Deletion.step]
  cases hfile : s.depot.file owner id with
  | error e =>
    refine .misses e fun f hf hid => ?_
    have htaken : some f ∈ s.takings := by
      by_contra hnew
      rw [hlook f hf hid hnew] at hfile
      cases hfile
    refine ⟨?_, htaken⟩
    -- The only row with the id is the one that was taken.
    have hnone : findFile s.depot.db.fileRows id owner = none := by
      cases hfind : findFile s.depot.db.fileRows id owner with
      | none => rfl
      | some g =>
        obtain ⟨hmem, hgid, -⟩ := findFile_some hfind
        obtain ⟨hmem, hnew⟩ := h.mem_fileRows_iff.mp hmem
        rw [unique hd hf hmem (hgid.trans hid.symm)] at hnew
        exact absurd htaken hnew
    simp only [Depot.file, completeFile, fileById, (h.whole hd).fileTable, hnone] at hfile
    cases hfile
    rfl
  | ok f =>
    unfold Depot.file at hfile
    split at hfile
    · cases hfile
    · cases hfile
    · next g hg =>
      cases hfile
      obtain ⟨hmem, hid, hown, hs⟩ := completeFile_some (h.whole hd) hg
      exact .finds f ⟨(h.mem_fileRows_iff.mp hmem).1, hown, hs⟩ hid

/-- The row of the file is there exactly as long as nobody has taken it. -/
theorem any_isFile_iff (h : Clears d owner s) (hd : d.IsSettled owner) (hf : d.IsFileOf owner f) :
    s.depot.db.fileRows.any (isFile f.id owner) = true ↔ some f ∉ s.takings := by
  rw [List.any_eq_true]
  constructor
  · rintro ⟨g, hg, hself⟩
    obtain ⟨hmem, hnew⟩ := h.mem_fileRows_iff.mp hg
    rwa [unique hd hf hmem (isFile_iff.mp hself).1] at hnew
  · intro hnew
    exact ⟨f, h.mem_fileRows_iff.mpr ⟨hf.mem, hnew⟩, isFile_iff.mpr ⟨rfl, hf.ownerId⟩⟩

theorem progress (h : Clears d owner s) (hd : d.IsSettled owner)
    (hr : s.requests[n]? = some (.fileDeletion owner id x)) :
    Progress d owner id s x (x.step owner id s.depot) := by
  have hstage := h.stage hr
  cases x with
  | lookup => exact h.progress_lookup hd id
  | removeBlob f =>
    obtain ⟨hf, hid⟩ := hstage
    rcases (h.places f hf).remove_cases with ⟨herr, hgone⟩ | ⟨path, content, hpath, hget, hok, hgone⟩
    · simp only [Deletion.step, herr]
      exact .passes f hf hid hgone
    · simp only [Deletion.step, hok]
      exact .erases f path content hf hid hpath hget hgone
  | removeRow f =>
    obtain ⟨hf, hid, hgone⟩ := hstage
    simp only [Deletion.step, deleteFile_eq (h.whole hd)]
    by_cases hnew : some f ∉ s.takings
    · rw [(h.any_isFile_iff hd hf).mpr hnew]
      exact .wins f hf hid hgone hnew
    · have hany : s.depot.db.fileRows.any (isFile f.id owner) = false := by
        rwa [← Bool.not_eq_true, h.any_isFile_iff hd hf]
      rw [hany, List.filter_eq_self.mpr fun g hg => by simpa using List.any_eq_false.mp hany g hg,
        withFiles_self (h.whole hd)]
      exact .loses f hf hid (not_not.mp hnew)
  | release f =>
    obtain ⟨hf, hid, hgone⟩ := hstage
    have hnonneg := hd.sizes f hf
    have hle := h.size_le hd hr
    have hrange := h.range
    have hsum : (Counter.exact (s.stored owner - s.dues owner)).add (Deletion.opposite f.size) =
        .exact (s.stored owner - s.dues owner - f.size) := by
      rw [opposite_size hd hf, Counter.add_of_range]
      · rw [Int.max_eq_right (by omega), Int.add_neg_eq_sub]
      · simp only [int64Min]
        omega
      · omega
    simp only [Deletion.step, adjustSpaceUsed_eq (h.counter hd), hsum, Counter.read]
    exact .pays f hf hid hgone hnonneg hle
  | done result => exact .rests result

end Clears

/-! ## One move -/

/-- A value that is not changed at one place is not changed at all. -/
theorem map_set_of_eq {α β : Type} {l : List α} {a b : α} {g : α → β} (ha : l[n]? = some a) (hg : g b = g a) :
    (l.set n b).map g = l.map g := by
  obtain ⟨hn, rfl⟩ := List.getElem?_eq_some_iff.mp ha
  have hn' : n < (l.map g).length := by rwa [List.length_map]
  have hset : (l.map g).set n (l.map g)[n] = l.map g := List.set_getElem_self hn'
  rw [List.map_set, hg]
  rwa [List.getElem_map] at hset

theorem getElem?_takings (hr : s.requests[n]? = some (.fileDeletion owner id x)) :
    s.takings[n]? = some (Request.fileDeletion owner id x).taken? := by
  rw [takings, List.getElem?_map, hr, Option.map_some]

theorem mem_targets (hr : s.requests[n]? = some (.fileDeletion owner id x)) : id ∈ s.targets :=
  List.mem_filterMap.mpr ⟨_, List.mem_of_getElem? hr, rfl⟩

theorem targets_set (hr : s.requests[n]? = some (.fileDeletion owner id x)) (d' : Depot) (x' : Deletion) :
    targets ⟨d', s.requests.set n (.fileDeletion owner id x')⟩ = s.targets := by
  have hmap := map_set_of_eq (g := Request.target?) hr (b := .fileDeletion owner id x') rfl
  have hids := congrArg (List.filterMap fun id? => id?) hmap
  rw [List.filterMap_map, List.filterMap_map] at hids
  exact hids

theorem Stage.mono {s' : Traffic} (h : Stage d owner id s x)
    (hgone : ∀ rel, s.depot.blobs.contains rel = .ok false → s'.depot.blobs.contains rel = .ok false)
    (htaken : ∀ f, some f ∈ s.takings → some f ∈ s'.takings) : Stage d owner id s' x := by
  cases x with
  | lookup => trivial
  | removeBlob f => exact h
  | removeRow f => exact ⟨h.1, h.2.1, hgone _ h.2.2⟩
  | release f => exact ⟨h.1, h.2.1, hgone _ h.2.2⟩
  | done result =>
    cases result with
    | ok f => exact ⟨h.1, h.2.1, hgone _ h.2.2⟩
    | error e =>
      intro f hf hid
      exact ⟨(h f hf hid).1, htaken f (h f hf hid).2⟩

/-- Contents that may follow: no content has come back or come up, and none is gone but those of files that are
    to be deleted. -/
structure Empties (d : Depot) (owner : Int) (s : Traffic) (blobs : BlobTree) : Prop where
  gone : ∀ rel, s.depot.blobs.contains rel = .ok false → blobs.contains rel = .ok false
  places : ∀ f, d.IsFileOf owner f → blobs.HoldsAtMostBlob (ofFile owner f.id)
  elsewhere : ∀ q, (∀ f, d.IsFileOf owner f → f.id ∈ s.targets → resolve (ofFile owner f.id) ≠ .ok q) →
    blobs.get? q = d.blobs.get? q

namespace Clears

theorem empties (h : Clears d owner s) : Empties d owner s s.depot.blobs :=
  ⟨fun _ hgone => hgone, h.places, h.elsewhere⟩

theorem empties_erase (h : Clears d owner s) {path : BlobPath} {content : Bytes} (hf : d.IsFileOf owner f)
    (hmem : f.id ∈ s.targets) (hpath : resolve (ofFile owner f.id) = .ok path)
    (hget : s.depot.blobs.get? path = some (.blob content)) :
    Empties d owner s (s.depot.blobs.erase path) where
  gone rel hgone := BlobTree.contains_erase hget hgone
  places g hg := (h.places g hg).erase hget
  elsewhere q hq := by
    rw [BlobTree.get?_erase, if_neg, h.elsewhere q hq]
    rintro rfl
    exact hq f hf hmem hpath

/-- A request goes on: what is to be shown of the depot and of the request after it. -/
theorem set (h : Clears d owner s) (hr : s.requests[n]? = some (.fileDeletion owner id x)) {d' : Depot}
    {s' : Traffic} (hs' : s' = ⟨d', s.requests.set n (.fileDeletion owner id x')⟩)
    (hblobs : Empties d owner s d'.blobs) (hstage : Stage d owner id s' x')
    (htaken : ∀ f, some f ∈ s.takings → some f ∈ s'.takings)
    (honce : ∀ (i j : Nat) (f : File), s'.takings[i]? = some (some f) → s'.takings[j]? = some (some f) → i = j)
    (hdb : d'.db = (d.db.withFiles (d.db.fileRows.filter fun f => some f ∉ s'.takings)).withCounter owner
      (.exact (s'.stored owner - s'.dues owner)))
    (hrange : s'.stored owner - s'.dues owner ≤ int64Max) : Clears d owner s' where
  stages := by
    intro r hmem
    rw [hs'] at hmem
    rcases List.mem_or_eq_of_mem_set hmem with hmem | rfl
    · obtain ⟨id', y, rfl, hy⟩ := h.stages r hmem
      exact ⟨id', y, rfl, hy.mono (by rw [hs']; exact hblobs.gone) htaken⟩
    · exact ⟨id, x', rfl, hstage⟩
  once := honce
  db := by
    rw [hs'] at hdb ⊢
    exact hdb
  range := hrange
  places := by
    rw [hs']
    exact hblobs.places
  elsewhere := by
    rw [hs', targets_set hr]
    exact hblobs.elsewhere

/-- A request goes on that neither takes a row nor calls on the counter. -/
theorem set_of_same (h : Clears d owner s) (hr : s.requests[n]? = some (.fileDeletion owner id x)) {d' : Depot}
    {s' : Traffic} (hs' : s' = ⟨d', s.requests.set n (.fileDeletion owner id x')⟩) (hdb : d'.db = s.depot.db)
    (hblobs : Empties d owner s d'.blobs) (hstage : s'.takings = s.takings → Stage d owner id s' x')
    (htaken : (Request.fileDeletion owner id x').taken? = (Request.fileDeletion owner id x).taken?)
    (hdue : (Request.fileDeletion owner id x').due owner = (Request.fileDeletion owner id x).due owner) :
    Clears d owner s' := by
  have htakings : s'.takings = s.takings := by
    rw [hs']
    exact map_set_of_eq hr htaken
  have hsum : s'.stored owner - s'.dues owner = s.stored owner - s.dues owner := by
    rw [hs', dues_set hr, hdue]
    simp only [stored, hdb]
    omega
  refine h.set hr hs' hblobs (hstage htakings) ?_ ?_ ?_ ?_
  · rw [htakings]
    exact fun _ hf => hf
  · rw [htakings]
    exact h.once
  · rw [htakings, hsum, hdb]
    exact h.db
  · rw [hsum]
    exact h.range

/-- The row of a file is taken. The bytes that are stored no longer are due from now on. -/
theorem set_of_win (h : Clears d owner s) (hd : d.IsSettled owner)
    (hr : s.requests[n]? = some (.fileDeletion owner id (.removeRow f))) (hf : d.IsFileOf owner f)
    (hid : f.id = id) (hgone : s.depot.blobs.contains (ofFile owner f.id) = .ok false)
    (hnew : some f ∉ s.takings) {s' : Traffic}
    (hs' : s' = ⟨{ s.depot with
      db := s.depot.db.withFiles (s.depot.db.fileRows.filter fun g => !isFile f.id owner g) },
      s.requests.set n (.fileDeletion owner id (.release f))⟩) : Clears d owner s' := by
  have htakings : s'.takings = s.takings.set n (some f) := by
    rw [hs', takings, takings, List.map_set]
    rfl
  have hnone : s.takings[n]? = some none := getElem?_takings hr
  have hat : ∀ (i : Nat) (g : File), s'.takings[i]? = some (some g) →
      (i = n ∧ g = f) ∨ (i ≠ n ∧ s.takings[i]? = some (some g)) := by
    intro i g hi
    rw [htakings] at hi
    by_cases hin : i = n
    · subst hin
      rw [List.getElem?_set_self (List.getElem?_eq_some_iff.mp hnone).1] at hi
      cases hi
      exact Or.inl ⟨rfl, rfl⟩
    · rw [List.getElem?_set_ne (Ne.symm hin)] at hi
      exact Or.inr ⟨hin, hi⟩
  have hmem : ∀ g, some g ∈ s'.takings ↔ g = f ∨ some g ∈ s.takings := by
    intro g
    constructor
    · intro hg
      obtain ⟨i, hi⟩ := List.mem_iff_getElem?.mp hg
      rcases hat i g hi with ⟨-, rfl⟩ | ⟨-, hi⟩
      · exact Or.inl rfl
      · exact Or.inr (List.mem_of_getElem? hi)
    · rintro (rfl | hg)
      · rw [htakings]
        exact List.mem_set (List.getElem?_eq_some_iff.mp hnone).1 _
      · obtain ⟨i, hi⟩ := List.mem_iff_getElem?.mp hg
        have hin : n ≠ i := by
          rintro rfl
          rw [hnone] at hi
          cases hi
        refine List.mem_of_getElem? (i := i) ?_
        rw [htakings, List.getElem?_set_ne hin, hi]
  have hrow : f ∈ s.depot.db.fileRows := h.mem_fileRows_iff.mpr ⟨hf.mem, hnew⟩
  have hrows : (s.depot.db.fileRows.filter fun g => !isFile f.id owner g) =
      d.db.fileRows.filter fun g => some g ∉ s'.takings := by
    rw [h.db, fileRows_withCounter, fileRows_withFiles, List.filter_filter]
    refine List.filter_congr fun g hg => ?_
    have hself : isFile f.id owner g = true ↔ g = f := by
      rw [isFile_iff]
      constructor
      · rintro ⟨hgid, -⟩
        exact unique hd hf hg hgid
      · rintro rfl
        exact ⟨rfl, hf.ownerId⟩
    rw [Bool.eq_iff_iff]
    simp only [Bool.and_eq_true, Bool.not_eq_true', ← Bool.not_eq_true, hself, decide_eq_true_eq, hmem]
    tauto
  have hsum : s'.stored owner - s'.dues owner = s.stored owner - s.dues owner := by
    have hbytes := storedBytes_filter (h.ids_nodup hd) hrow owner
    rw [hf.ownerId, File.counted, if_pos ⟨hf.ownerId, hf.state⟩] at hbytes
    rw [hs', dues_set hr]
    simp only [stored, fileRows_withFiles, hbytes, Request.due, if_true, Option.getD_some, Option.getD_none,
      opposite_size hd hf]
    omega
  refine h.set hr hs' h.empties ⟨hf, hid, by rw [hs']; exact hgone⟩ ?_ ?_ ?_ ?_
  · intro g hg
    exact (hmem g).mpr (Or.inr hg)
  · intro i j g hi hj
    rcases hat i g hi with ⟨rfl, rfl⟩ | ⟨-, hi⟩ <;> rcases hat j g hj with ⟨rfl, hjg⟩ | ⟨-, hj⟩
    · rfl
    · exact absurd (List.mem_of_getElem? hj) hnew
    · exact absurd (hjg ▸ List.mem_of_getElem? hi) hnew
    · exact h.once i j g hi hj
  · rw [hsum, hrows, h.db]
    rfl
  · rw [hsum]
    exact h.range

/-- The bytes of a file are given back, and are due no longer. -/
theorem set_of_pay (h : Clears d owner s) (hd : d.IsSettled owner)
    (hr : s.requests[n]? = some (.fileDeletion owner id (.release f))) (hf : d.IsFileOf owner f)
    (hid : f.id = id) (hgone : s.depot.blobs.contains (ofFile owner f.id) = .ok false) {s' : Traffic}
    (hs' : s' = ⟨{ s.depot with
      db := s.depot.db.withCounter owner (.exact (s.stored owner - s.dues owner - f.size)) },
      s.requests.set n (.fileDeletion owner id (.done (.ok f)))⟩) : Clears d owner s' := by
  have htakings : s'.takings = s.takings := by
    rw [hs']
    exact map_set_of_eq hr rfl
  have hsum : s'.stored owner - s'.dues owner = s.stored owner - s.dues owner - f.size := by
    rw [hs', dues_set hr]
    simp only [stored, fileRows_withCounter, Request.due, if_true, Option.getD_some, Option.getD_none,
      opposite_size hd hf]
    omega
  refine h.set hr hs' h.empties ⟨hf, hid, by rw [hs']; exact hgone⟩ ?_ ?_ ?_ ?_
  · rw [htakings]
    exact fun _ hf => hf
  · rw [htakings]
    exact h.once
  · rw [htakings, hsum, h.db]
    exact withCounter_withCounter _ owner _ _
  · have := h.range
    have := hd.sizes f hf
    rw [hsum]
    omega

theorem advance (h : Clears d owner s) (hd : d.IsSettled owner)
    (hr : s.requests[n]? = some (.fileDeletion owner id x)) :
    Clears d owner ⟨(x.step owner id s.depot).2,
      s.requests.set n (.fileDeletion owner id (x.step owner id s.depot).1)⟩ := by
  have hp := h.progress hd hr
  have hstage := h.stage hr
  generalize x.step owner id s.depot = out at hp ⊢
  cases hp with
  | rests result =>
    refine h.set_of_same hr rfl rfl h.empties (fun htakings => ?_) rfl rfl
    exact hstage.mono (fun _ hgone => hgone) fun f hf => by rwa [htakings]
  | misses e hgone =>
    refine h.set_of_same hr rfl rfl h.empties (fun htakings => ?_) rfl rfl
    intro f hf hid
    rw [htakings]
    exact hgone f hf hid
  | finds f hf hid => exact h.set_of_same hr rfl rfl h.empties (fun _ => ⟨hf, hid⟩) rfl rfl
  | passes f hf hid hgone => exact h.set_of_same hr rfl rfl h.empties (fun _ => ⟨hf, hid, hgone⟩) rfl rfl
  | erases f path content hf hid hpath hget hgone =>
    have hmem : f.id ∈ s.targets := hid ▸ mem_targets hr
    exact h.set_of_same hr rfl rfl (h.empties_erase hf hmem hpath hget) (fun _ => ⟨hf, hid, hgone⟩) rfl rfl
  | loses f hf hid htaken =>
    refine h.set_of_same hr rfl rfl h.empties (fun htakings => ?_) rfl rfl
    intro g hg hgid
    rw [htakings, unique hd hf hg.mem (hgid.trans hid.symm)]
    exact ⟨rfl, htaken⟩
  | wins f hf hid hgone hnew => exact h.set_of_win hd hr hf hid hgone hnew rfl
  | pays f hf hid hgone hnonneg hle => exact h.set_of_pay hd hr hf hid hgone rfl

theorem arrive (h : Clears d owner s) (id : String) :
    Clears d owner (s.step (.arrive (.delete owner id))) := by
  have htakings : (s.step (.arrive (.delete owner id))).takings = s.takings ++ [none] := by
    simp only [step, takings, List.map_append]
    rfl
  have hmem : ∀ f, some f ∈ s.takings ++ [none] ↔ some f ∈ s.takings := by simp
  have hsum : (s.step (.arrive (.delete owner id))).stored owner -
      (s.step (.arrive (.delete owner id))).dues owner = s.stored owner - s.dues owner := by
    simp [step, stored, dues, Order.request, Request.due]
  refine ⟨?_, ?_, ?_, ?_, h.places, ?_⟩
  · intro r hr
    rcases List.mem_append.mp hr with hr | hr
    · obtain ⟨id', x, rfl, hx⟩ := h.stages r hr
      refine ⟨id', x, rfl, hx.mono (fun _ hgone => hgone) fun f hf => ?_⟩
      rw [htakings]
      exact (hmem f).mpr hf
    · exact ⟨id, .lookup, List.mem_singleton.mp hr, trivial⟩
  · have hat : ∀ (i : Nat) (f : File), (s.takings ++ [none])[i]? = some (some f) →
        s.takings[i]? = some (some f) := by
      intro i f hi
      rw [List.getElem?_append] at hi
      split at hi
      · exact hi
      · have hlast := List.mem_of_getElem? hi
        simp at hlast
    rw [htakings]
    exact fun i j f hi hj => h.once i j f (hat i f hi) (hat j f hj)
  · rw [htakings, hsum]
    simp only [hmem]
    exact h.db
  · rw [hsum]
    exact h.range
  · intro q hq
    refine h.elsewhere q fun f hf hid => hq f hf ?_
    simp only [step, targets, List.filterMap_append]
    exact List.mem_append_left _ hid

theorem step (h : Clears d owner s) (hd : d.IsSettled owner) (hmove : move.IsDeletionOf owner) :
    Clears d owner (s.step move) := by
  cases move with
  | arrive o =>
    cases o with
    | delete o id =>
      obtain rfl : o = owner := hmove
      exact h.arrive id
    | _ => exact hmove.elim
  | advance n =>
    simp only [Traffic.step]
    cases hr : s.requests[n]? with
    | none => exact h
    | some r =>
      obtain ⟨id, x, rfl, -⟩ := h.stages r (List.mem_of_getElem? hr)
      exact h.advance hd hr
  | _ => exact hmove.elim

end Clears

theorem clears_quiet (hd : d.IsSettled owner) : Clears d owner (quiet d) where
  stages r hr := by cases hr
  once i j f hi := by simp [takings, quiet] at hi
  db := by
    have hrows : (d.db.fileRows.filter fun f => some f ∉ (quiet d).takings) = d.db.fileRows := by
      simp [takings, quiet]
    have hsum : (quiet d).stored owner - (quiet d).dues owner = storedBytes d.db.fileRows owner := by
      simp [quiet, stored, dues]
    rw [hrows, hsum, withFiles_self hd.lawful.whole, withCounter_self hd.lawful (spaceUsed_eq_ok_iff.mp hd.counted)]
    rfl
  range := by simpa [quiet, stored, dues] using hd.range
  places := hd.places
  elsewhere q _ := rfl

/-! ## Whole runs -/

/-- A deletion gives the bytes of a file back and succeeds. They are taken off the counter in full. -/
structure Pays (owner : Int) (s : Traffic) (n : Nat) (f : File) : Prop where
  before : s.requests[n]? = some (.fileDeletion owner f.id (.release f))
  after : (s.step (.advance n)).requests[n]? = some (.fileDeletion owner f.id (.done (.ok f)))
  counter : ∃ used, s.depot.db.spaceUsed owner = .ok used ∧ 0 ≤ f.size ∧ f.size ≤ used ∧
    (s.step (.advance n)).depot.db = s.depot.db.withCounter owner (.exact (used - f.size))

/-- A move with which a deletion succeeds and pays, or with which none succeeds and no user changes. -/
def Settles (owner : Int) (s : Traffic) (move : Move) : Prop :=
  (∃ n f, move = .advance n ∧ Pays owner s n f) ∨
    ((s.step move).depot.db.users = s.depot.db.users ∧
      ∀ (n : Nat) (id : String) (f : File),
        (s.step move).requests[n]? = some (.fileDeletion owner id (.done (.ok f))) →
          s.requests[n]? = some (.fileDeletion owner id (.done (.ok f))))

namespace Clears

theorem settles (h : Clears d owner s) (hd : d.IsSettled owner) (hmove : move.IsDeletionOf owner) :
    Settles owner s move := by
  cases move with
  | arrive o =>
    refine Or.inr ⟨rfl, fun n id f hn => ?_⟩
    simp only [Traffic.step, List.getElem?_append] at hn
    split at hn
    · exact hn
    · have hlast := List.mem_singleton.mp (List.mem_of_getElem? hn)
      cases o <;> cases hlast
  | advance n =>
    cases hr : s.requests[n]? with
    | none =>
      have hstep : s.step (.advance n) = s := by simp only [Traffic.step, hr]
      exact Or.inr ⟨by rw [hstep], fun m id f hm => by rwa [hstep] at hm⟩
    | some r =>
      obtain ⟨id, x, rfl, -⟩ := h.stages r (List.mem_of_getElem? hr)
      have hstep : s.step (.advance n) = ⟨(x.step owner id s.depot).2,
          s.requests.set n (.fileDeletion owner id (x.step owner id s.depot).1)⟩ := by
        simp only [Traffic.step, hr, Request.step]
      have hlt := (List.getElem?_eq_some_iff.mp hr).1
      have hp := h.progress hd hr
      generalize x.step owner id s.depot = out at hp hstep
      have hother : (∀ f, out.1 = .done (.ok f) → x = .done (.ok f)) →
          ∀ (m : Nat) (id' : String) (f : File),
            (s.step (.advance n)).requests[m]? = some (.fileDeletion owner id' (.done (.ok f))) →
              s.requests[m]? = some (.fileDeletion owner id' (.done (.ok f))) := by
        intro hsame m id' f hm
        rw [hstep] at hm
        by_cases hmn : m = n
        · subst hmn
          rw [List.getElem?_set_self hlt] at hm
          simp only [Option.some.injEq, Request.fileDeletion.injEq, true_and] at hm
          obtain ⟨rfl, hx⟩ := hm
          rw [hr, hsame f hx]
        · rwa [List.getElem?_set_ne (Ne.symm hmn)] at hm
      cases hp with
      | pays f hf hid hgone hnonneg hle =>
        subst hid
        refine Or.inl ⟨n, f, rfl, hr, ?_, _, spaceUsed_eq_ok_iff.mpr (h.counter hd), hnonneg, hle, ?_⟩
        · rw [hstep, List.getElem?_set_self hlt]
        · rw [hstep]
      | rests result => exact Or.inr ⟨by rw [hstep], hother fun f hf => hf⟩
      | wins f hf hid hgone hnew => exact Or.inr ⟨by rw [hstep]; rfl, hother fun f hf => by cases hf⟩
      | _ => exact Or.inr ⟨by rw [hstep], hother fun f hf => by cases hf⟩
  | _ => exact hmove.elim

theorem run (h : Clears d owner s) (hd : d.IsSettled owner) (hmoves : ∀ move ∈ moves, move.IsDeletionOf owner) :
    Clears d owner (s.run moves) ∧ Along (Settles owner) s moves := by
  induction moves generalizing s with
  | nil => exact ⟨h, trivial⟩
  | cons move rest ih =>
    have hmove := hmoves move List.mem_cons_self
    obtain ⟨hrun, halong⟩ := ih (h.step hd hmove) fun m hm => hmoves m (List.mem_cons_of_mem _ hm)
    exact ⟨hrun, h.settles hd hmove, halong⟩

/-- A request that is done has deleted a file or found it gone. -/
theorem done_of_isDone (h : Clears d owner s) (hdone : s.IsDone) {r : Request} (hr : r ∈ s.requests) :
    ∃ id result, r = .fileDeletion owner id (.done result) ∧ Stage d owner id s (.done result) := by
  obtain ⟨id, x, rfl, hx⟩ := h.stages r hr
  have hisDone := hdone _ hr
  cases x with
  | done result => exact ⟨id, result, rfl, hx⟩
  | _ => cases hisDone

/-- A row that was taken is that of a file that was to be deleted, and one request has deleted it. -/
theorem winner (h : Clears d owner s) (hdone : s.IsDone) (htaken : some f ∈ s.takings) :
    ∃ n : Nat, s.requests[n]? = some (.fileDeletion owner f.id (.done (.ok f))) ∧ d.IsFileOf owner f ∧
      s.depot.blobs.contains (ofFile owner f.id) = .ok false := by
  obtain ⟨n, hn⟩ := List.mem_iff_getElem?.mp htaken
  rw [takings, List.getElem?_map, Option.map_eq_some_iff] at hn
  obtain ⟨r, hr, htaken⟩ := hn
  obtain ⟨id, result, rfl, hstage⟩ := h.done_of_isDone hdone (List.mem_of_getElem? hr)
  cases result with
  | error e => cases htaken
  | ok g =>
    cases htaken
    obtain ⟨hf, rfl, hgone⟩ := hstage
    exact ⟨n, hr, hf, hgone⟩

theorem taken_of_target (h : Clears d owner s) (hd : d.IsSettled owner) (hdone : s.IsDone)
    (hf : d.IsFileOf owner f) (hmem : f.id ∈ s.targets) : some f ∈ s.takings := by
  obtain ⟨r, hr, htarget⟩ := List.mem_filterMap.mp hmem
  obtain ⟨id, result, rfl, hstage⟩ := h.done_of_isDone hdone hr
  cases htarget
  cases result with
  | error e => exact (hstage f hf rfl).2
  | ok g =>
    obtain ⟨hg, hid, -⟩ := hstage
    rw [← unique hd hf hg.mem hid]
    exact List.mem_map.mpr ⟨_, hr, rfl⟩

theorem taken_iff (h : Clears d owner s) (hd : d.IsSettled owner) (hdone : s.IsDone) :
    some f ∈ s.takings ↔ d.IsFileOf owner f ∧ f.id ∈ s.targets := by
  constructor
  · intro htaken
    obtain ⟨n, hn, hf, -⟩ := h.winner hdone htaken
    exact ⟨hf, mem_targets hn⟩
  · rintro ⟨hf, hmem⟩
    exact h.taken_of_target hd hdone hf hmem

/-- Of the requests for one file only one can have deleted it. -/
theorem loses_of_ne (h : Clears d owner s) (hd : d.IsSettled owner) (hdone : s.IsDone) {m : Nat}
    (hf : d.IsFileOf owner f) (hn : s.requests[n]? = some (.fileDeletion owner f.id (.done (.ok f))))
    (hm : s.requests[m]? = some (.fileDeletion owner f.id x)) (hne : m ≠ n) :
    x = .done (.error (.notFound "file")) := by
  obtain ⟨id, result, heq, hstage⟩ := h.done_of_isDone hdone (List.mem_of_getElem? hm)
  cases heq
  cases result with
  | error e => rw [(hstage f hf rfl).1]
  | ok g =>
    obtain ⟨hg, hid, -⟩ := hstage
    obtain rfl : g = f := unique hd hf hg.mem hid
    exact absurd (h.once m n g (getElem?_takings hm) (getElem?_takings hn)) hne

end Clears

/-- The rows of files without the finished files of an owner with given ids. -/
def rowsWithout (rows : List File) (owner : Int) (ids : List String) : List File :=
  rows.filter fun f => ¬ (f.ownerId = owner ∧ f.state = .complete ∧ f.id ∈ ids)

/-- Deletions of files of one owner may overtake each other in any way. Along every run a deletion succeeds only
    with the access that takes the size of its file off the counter, in full, and no other access touches the
    counter. Once all are done, each finished file among those to be deleted was deleted by exactly one of the
    requests for it, the others found it gone, and its content is gone; the depot is otherwise as it was, and the
    counter shows the bytes of the finished files that are left. -/
theorem deletions_release_once (hd : d.IsSettled owner) (hmoves : ∀ move ∈ moves, move.IsDeletionOf owner) :
    Along (Settles owner) (quiet d) moves ∧
      (((quiet d).run moves).IsDone →
        let s := (quiet d).run moves
        let rows := rowsWithout d.db.fileRows owner s.targets
        (∀ f, d.IsFileOf owner f → f.id ∈ s.targets →
          (∃ n : Nat, s.requests[n]? = some (.fileDeletion owner f.id (.done (.ok f))) ∧
            ∀ (m : Nat) (x : Deletion), m ≠ n → s.requests[m]? = some (.fileDeletion owner f.id x) →
              x = .done (.error (.notFound "file"))) ∧
          s.depot.blobs.contains (ofFile owner f.id) = .ok false) ∧
        (∀ q, (∀ f, d.IsFileOf owner f → f.id ∈ s.targets → resolve (ofFile owner f.id) ≠ .ok q) →
          s.depot.blobs.get? q = d.blobs.get? q) ∧
        s.depot.db = (d.db.withFiles rows).withCounter owner (.exact (storedBytes rows owner)) ∧
        s.depot.db.spaceUsed owner = .ok (storedBytes rows owner)) := by
  obtain ⟨h, halong⟩ := (clears_quiet hd).run hd hmoves
  refine ⟨halong, ?_⟩
  intro hdone s rows
  have hrows : (d.db.fileRows.filter fun f => some f ∉ s.takings) = rows := by
    refine List.filter_congr fun f hf => ?_
    have hiff : some f ∈ s.takings ↔ f.ownerId = owner ∧ f.state = .complete ∧ f.id ∈ s.targets := by
      rw [h.taken_iff hd hdone]
      exact ⟨fun hh => ⟨hh.1.ownerId, hh.1.state, hh.2⟩, fun hh => ⟨⟨hf, hh.1, hh.2.1⟩, hh.2.2⟩⟩
    simp only [hiff]
  have hstored : s.stored owner - s.dues owner = storedBytes rows owner := by
    rw [dues_of_isDone hdone, Int.sub_zero, stored, h.db, fileRows_withCounter, fileRows_withFiles, hrows]
  refine ⟨?_, h.elsewhere, ?_, ?_⟩
  · intro f hf hmem
    obtain ⟨n, hn, -, hgone⟩ := h.winner hdone (h.taken_of_target hd hdone hf hmem)
    exact ⟨⟨n, hn, fun m x hne hm => h.loses_of_ne hd hdone hf hn hm hne⟩, hgone⟩
  · rw [← hstored, ← hrows]
    exact h.db
  · rw [spaceUsed_eq_ok_iff, h.counter hd, hstored]

/-- A finished file of five bytes. -/
def helloFile : File := ⟨"f", "a.txt", "txt", "text/plain", 5, .complete, "", 1, "2026"⟩

/-- The depot of a user who has stored the file. -/
def depotWithHello : Depot where
  db := (depotOfAlice.db.withFiles [helloFile]).withCounter 1 (.exact 5)
  blobs := ⟨[(["1"], .directory), (["1", "f"], .blob (Bytes.ofAscii "hello"))]⟩

/-- The file is deleted by two requests, both of which have found it before either goes on. The second one takes
    the row. -/
def twoDeletions : List Move :=
  [.arrive (.delete 1 "f"), .arrive (.delete 1 "f"), .advance 0, .advance 1, .advance 1, .advance 0, .advance 1,
    .advance 0, .advance 1]

theorem isFileOf_depotWithHello (h : depotWithHello.IsFileOf 1 f) : f = helloFile := by
  have hmem : f ∈ [helloFile] := h.mem
  simpa using hmem

theorem isSettled_depotWithHello : depotWithHello.IsSettled 1 where
  lawful :=
    { whole := ⟨rfl, rfl, rfl⟩
      userIds := by decide +kernel
      folderIds := List.nodup_nil
      fileIds := by decide +kernel
      folderOwners := fun f hf => by cases hf
      fileOwners := by decide +kernel }
  counted := spaceUsed_eq_ok_iff.mpr (by decide +kernel)
  range := by decide +kernel
  sizes f hf := by
    rw [isFileOf_depotWithHello hf]
    decide
  places f hf := by
    rw [isFileOf_depotWithHello hf]
    exact Or.inr ⟨Bytes.ofAscii "hello", by rfl⟩

theorem deletions_release_once_of_hello :
    depotWithHello.IsSettled 1 ∧ (∀ move ∈ twoDeletions, move.IsDeletionOf 1) ∧
      ((quiet depotWithHello).run twoDeletions).IsDone ∧
      ((quiet depotWithHello).run twoDeletions).depot.db.spaceUsed 1 = .ok 0 ∧
      ((quiet depotWithHello).run twoDeletions).depot.blobs.contains (ofFile 1 "f") = .ok false := by
  have hmoves : ∀ move ∈ twoDeletions, move.IsDeletionOf 1 := by simp [twoDeletions, Move.IsDeletionOf]
  have hdone : ((quiet depotWithHello).run twoDeletions).IsDone := by decide +kernel
  have hmem : helloFile.id ∈ ((quiet depotWithHello).run twoDeletions).targets := by decide +kernel
  have hf : depotWithHello.IsFileOf 1 helloFile := ⟨List.mem_singleton_self _, rfl, rfl⟩
  obtain ⟨hfiles, -, -, hused⟩ := (deletions_release_once isSettled_depotWithHello hmoves).2 hdone
  refine ⟨isSettled_depotWithHello, hmoves, hdone, ?_, (hfiles helloFile hf hmem).2⟩
  rw [hused]
  decide +kernel

end Traffic

end FileDepot
