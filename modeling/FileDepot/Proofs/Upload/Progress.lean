import FileDepot.Proofs.Upload.Hearing

/-!
# The accesses of an upload

What a single access of an upload to the depot can change, and that after it the depot holds what it has to
hold at the next stage. Both carry over to all the accesses that an upload makes before it waits again.
-/

namespace FileDepot

namespace Upload

open BlobPath Database Depot

variable {gone gone' : Prop} {d d' d'' : Depot} {t t' : Ticket} {h : Hearing} {u : Upload}

/-- What the accesses of one upload may change: its own row and content, and the directory of its owner. The
    counters of users are not spoken of. -/
structure Touches (t : Ticket) (d d' : Depot) : Prop where
  orderly : d'.Orderly
  owned : ∀ f ∈ d'.db.fileRows, f.id = t.fileId → f.ownerId = t.owner
  versions : d'.db.versions = d.db.versions
  surroundings : d'.db.surroundings = d.db.surroundings
  folders : d'.db.folders = d.db.folders
  others : d'.db.fileRows.filter (·.id != t.fileId) = d.db.fileRows.filter (·.id != t.fileId)
  blobs : BlobTree.Confined t.owner t.fileId d.blobs d'.blobs

namespace Touches

theorem refl (ho : d.Orderly) (hown : ∀ f ∈ d.db.fileRows, f.id = t.fileId → f.ownerId = t.owner) :
    Touches t d d :=
  ⟨ho, hown, rfl, rfl, rfl, rfl, .refl ho.tidy⟩

theorem trans (h : Touches t d d') (h' : Touches t d' d'') : Touches t d d'' where
  orderly := h'.orderly
  owned := h'.owned
  versions := h'.versions.trans h.versions
  surroundings := h'.surroundings.trans h.surroundings
  folders := h'.folders.trans h.folders
  others := h'.others.trans h.others
  blobs := h.blobs.trans h'.blobs

/-- Only the tree of contents has changed. -/
theorem of_blobs (ho : d.Orderly) (hown : ∀ f ∈ d.db.fileRows, f.id = t.fileId → f.ownerId = t.owner)
    {blobs : BlobTree} (hc : BlobTree.Confined t.owner t.fileId d.blobs blobs) :
    Touches t d { d with blobs } :=
  ⟨⟨ho.whole, ho.unique, hc.tidy⟩, hown, rfl, rfl, rfl, rfl, hc⟩

/-- Only the rows of files have changed. -/
theorem of_rows (ho : d.Orderly) {rows : List File} (hn : (rows.map File.id).Nodup)
    (hown : ∀ f ∈ rows, f.id = t.fileId → f.ownerId = t.owner)
    (hrest : rows.filter (·.id != t.fileId) = d.db.fileRows.filter (·.id != t.fileId)) :
    Touches t d { d with db := d.db.withFiles rows } :=
  ⟨⟨ho.whole.withFiles rows, hn, ho.tidy⟩, hown, rfl, rfl, rfl, hrest, .refl ho.tidy⟩

/-- At most the counters of users have changed. -/
theorem of_users (ho : d.Orderly) (hown : ∀ f ∈ d.db.fileRows, f.id = t.fileId → f.ownerId = t.owner)
    {db : Database} (hu : OnlyUsers d.db db) : Touches t d { d with db } := by
  have hrows := hu.fileRows
  refine ⟨⟨hu.whole ho.whole, ?_, ho.tidy⟩, ?_, hu.versions, hu.surroundings, hu.folders, ?_, .refl ho.tidy⟩
  · simpa only [hrows] using ho.unique
  · simpa only [hrows] using hown
  · simp only [hrows]

/-- Rows with another id are there before and after. -/
theorem mem_iff (h : Touches t d d') {f : File} (hf : f.id ≠ t.fileId) :
    f ∈ d'.db.fileRows ↔ f ∈ d.db.fileRows := by
  have hmem : f ∈ d'.db.fileRows.filter (·.id != t.fileId) ↔
      f ∈ d.db.fileRows.filter (·.id != t.fileId) := by rw [h.others]
  simpa [List.mem_filter, hf] using hmem

end Touches

/-- An access of an upload changes nothing but what belongs to the upload. -/
theorem touches_advance (ho : d.Orderly)
    (hown : ∀ f ∈ d.db.fileRows, f.id = t.fileId → f.ownerId = t.owner) (hid : IsSegment t.fileId)
    (u : Upload) : Touches t d (advance t d u).2 := by
  cases u with
  | admission =>
    simp only [advance]
    split <;> exact .refl ho hown
  | insertStub scan name head ended =>
    simp only [advance]
    rcases insertFile_cases ho.whole (stub t scan.parent ⟨name, Name.extension name, Sniff.detect head, 0⟩)
      with ⟨e, he⟩ | ⟨hok, hnew⟩
    · rw [he]
      exact .refl ho hown
    · rw [hok]
      refine .of_rows ho (nodup_ids_append ho.unique hnew) ?_ ?_
      · intro f hf hfid
        rcases List.mem_append.mp hf with hf | hf
        · exact hown f hf hfid
        · rw [List.mem_singleton.mp hf]
          rfl
      · rw [List.filter_append]
        simp [stub]
  | makeDirectory scan staged head ended =>
    have hc := ho.tidy.confined_makeDirectory t.owner t.fileId
    simp only [advance]
    split
    · next e blobs hb =>
      rw [hb] at hc
      exact .of_blobs ho hown hc
    · next blobs hb =>
      rw [hb] at hc
      exact .of_blobs ho hown hc
  | createBlob scan staged head ended =>
    simp only [advance]
    split
    · exact .refl ho hown
    · next blobs hb => exact .of_blobs ho hown (ho.tidy.confined_create hid hb)
  | write scan staged bytes ended =>
    simp only [advance]
    split <;> exact .of_blobs ho hown (ho.tidy.confined_append t.owner hid bytes)
  | finish parent staged =>
    simp only [advance]
    rcases updateFile_cases ho.whole t.fileId t.owner (u := finalFields parent staged) rfl
      with ⟨f, -, -, hok⟩ | ⟨hsame, -⟩
    · rw [hok]
      have htouch : Touches t d
          { d with db := d.db.withFiles (updatedRows d.db.fileRows t.fileId t.owner
            (finalFields parent staged)) } := by
        refine .of_rows ho ?_ ?_ (filter_updatedRows _ _ _ _)
        · rw [map_id_updatedRows]
          exact ho.unique
        · intro g hg hgid
          obtain ⟨g', hg', ⟨-, hown', rfl⟩ | ⟨-, rfl⟩⟩ := mem_updatedRows.mp hg
          · exact hown'
          · exact hown g hg' hgid
      exact htouch
    · have htouch : Touches t d { d with db := (d.db.updateFile t.fileId t.owner
          (finalFields parent staged)).2 } := by
        rw [hsame]
        exact .refl ho hown
      split <;> simp_all
  | account f =>
    have hu := onlyUsers_adjustSpaceUsed d.db t.owner f.size
    simp only [advance]
    split
    · next e db hdb =>
      rw [hdb] at hu
      exact .of_users ho hown hu
    · next n db hdb =>
      rw [hdb] at hu
      exact .of_users ho hown hu
  | removeBlob next =>
    simp only [advance]
    split
    · exact .refl ho hown
    · next blobs hb => exact .of_blobs ho hown (ho.tidy.confined_remove hid hb)
  | removeStub next =>
    have htouch : Touches t d { d with db := (d.db.deleteFile t.fileId t.owner).2 } := by
      rw [deleteFile_eq ho.whole]
      refine .of_rows ho ?_ ?_ ?_
      · exact ho.unique.sublist (List.filter_sublist.map _)
      · intro f hf
        exact hown f (List.mem_filter.mp hf).1
      · rw [filter_isFile_of_owned hown, List.filter_filter]
        simp
    cases next with
    | fail e => exact htouch
    | explain parent => exact htouch
  | explainMiss parent =>
    simp only [advance]
    split
    · exact .refl ho hown
    · split <;> exact .refl ho hown
  | betweenParts scan => exact .refl ho hown
  | inParent scan text => exact .refl ho hown
  | inOther scan => exact .refl ho hown
  | inHead scan name head => exact .refl ho hown
  | inBody scan staged => exact .refl ho hown
  | done result => exact .refl ho hown

/-- When the stub is removed after the content, nothing is left of the file. -/
theorem vacant_removeStub (ho : d.Orderly)
    (hown : ∀ f ∈ d.db.fileRows, f.id = t.fileId → f.ownerId = t.owner)
    (hg : d.blobs.get? t.place = none) :
    Vacant { d with db := (d.db.deleteFile t.fileId t.owner).2 } t := by
  rw [deleteFile_eq ho.whole]
  refine ⟨fun f hf => ?_, hg⟩
  rw [fileRows_withFiles, filter_isFile_of_owned hown] at hf
  simpa using (List.mem_filter.mp hf).2

/-- After an access the depot holds what it has to hold at the next stage. -/
theorem tracks_advance (ho : d.Orderly)
    (hown : ∀ f ∈ d.db.fileRows, f.id = t.fileId → f.ownerId = t.owner) (hid : IsSegment t.fileId)
    (ht : Tracks gone d t h u) : Tracks gone (advance t d u).2 t h (advance t d u).1 := by
  cases u with
  | admission =>
    obtain ⟨hv, rfl⟩ := ht
    simp only [advance]
    split
    · exact hv.faithful _
    · exact ⟨rfl, hv, rfl⟩
  | insertStub scan name head ended =>
    obtain ⟨hp, -, hv, hb⟩ := ht
    simp only [advance]
    rcases insertFile_cases ho.whole (stub t scan.parent ⟨name, Name.extension name, Sniff.detect head, 0⟩)
      with ⟨e, he⟩ | ⟨hok, -⟩
    · rw [he]
      exact hv.faithful h
    · rw [hok]
      exact ⟨hp, rfl, ⟨_, List.mem_append_right _ (List.mem_singleton_self _), rfl, rfl, rfl⟩, hv.noBlob, hb⟩
  | makeDirectory scan staged head ended =>
    obtain ⟨hp, hs, hpend, -, hb⟩ := ht
    simp only [advance]
    split
    · exact hpend
    · next blobs hmade =>
      have hdir : (d.blobs.makeDirectory (toString t.owner)).2.get? (ofOwner t.owner) = some .directory :=
        ho.tidy.makeDirectory_ok (by rw [hmade])
      rw [hmade] at hdir
      exact ⟨hp, hs, hpend, hdir, hb⟩
  | createBlob scan staged head ended =>
    obtain ⟨hp, hs, hpend, -, hb⟩ := ht
    simp only [advance]
    split
    · exact hpend
    · next blobs hmade =>
      obtain ⟨rfl, -, -⟩ := ho.tidy.create_ok hid hmade
      refine ⟨hp, [], ⟨hpend, ?_, hs⟩, hb⟩
      exact (BlobTree.get?_put d.blobs t.place t.place _).trans (if_pos rfl)
  | write scan staged bytes ended =>
    obtain ⟨hp, before, ⟨hpend, hc, hs⟩, hb⟩ := ht
    have hstored : Stored { d with blobs := d.blobs.append t.blobPath bytes } t
        { staged with size := staged.size + bytes.length } h.bytes := by
      refine ⟨hpend, ?_, ?_⟩
      · rw [hb]
        exact BlobTree.get?_append_self hid hc bytes
      · simp only [hb, hs, List.length_append]
    simp only [advance]
    cases ended with
    | true => exact ⟨hp, hstored⟩
    | false => exact ⟨hp, hstored⟩
  | finish parent staged =>
    obtain ⟨hp, hpend, hc, hs⟩ := ht
    simp only [advance]
    rcases updateFile_cases ho.whole t.fileId t.owner (u := finalFields parent staged) rfl
      with ⟨f, hf, -, hok⟩ | ⟨hsame, hnone⟩
    · rw [hok]
      obtain ⟨hmem, hfid, hfown⟩ := findFile_some hf
      have hmem' : (finalFields parent staged).apply f ∈
          updatedRows d.db.fileRows t.fileId t.owner (finalFields parent staged) :=
        mem_updatedRows.mpr ⟨f, hmem, Or.inl ⟨hfid, hfown, rfl⟩⟩
      refine ⟨⟨?_, Or.inr ⟨_, hmem', hfid⟩⟩, hmem', hfid⟩
      intro g hg hgid
      obtain ⟨g', hg', ⟨-, hown', rfl⟩ | ⟨hne, rfl⟩⟩ := mem_updatedRows.mp hg
      · refine ⟨hown', rfl, ?_, hc, hp⟩
        rw [← hs]
        rfl
      · exact absurd ⟨hgid, hown g hg' hgid⟩ hne
    · have hpend' : Pending { d with db := (d.db.updateFile t.fileId t.owner
          (finalFields parent staged)).2 } t := by
        rw [hsame]
        exact hpend
      cases hr : d.db.updateFile t.fileId t.owner (finalFields parent staged) with
      | mk result db =>
        rw [hr] at hnone hpend'
        cases result with
        | error e => exact hpend'
        | ok found =>
          cases found with
          | none => exact hpend'
          | some f => exact absurd rfl (hnone f)
  | account f =>
    obtain ⟨hf, hmem, hfid⟩ := ht
    have hu := (onlyUsers_adjustSpaceUsed d.db t.owner f.size).fileRows
    simp only [advance]
    split
    · next e db hdb =>
      rw [hdb] at hu
      exact ⟨fun g hg => hf.row g (hu ▸ hg), Or.inr ⟨f, hu ▸ hmem, hfid⟩⟩
    · next n db hdb =>
      rw [hdb] at hu
      have hrow : HasRow { d with db } t := ⟨f, hu ▸ hmem, hfid⟩
      exact ⟨⟨fun g hg => hf.row g (hu ▸ hg), Or.inr hrow⟩, Or.inr hrow⟩
  | removeBlob next =>
    simp only [advance]
    rcases ho.tidy.remove_cases t.owner hid with ⟨e, he, hg⟩ | ⟨blobs, hr, hg⟩
    · rw [Ticket.blobPath, he]
      exact ⟨ht, hg⟩
    · rw [Ticket.blobPath, hr]
      exact ⟨ht, hg⟩
  | removeStub next =>
    have hv := vacant_removeStub ho hown ht.2
    cases next with
    | fail e => exact hv.faithful h
    | explain parent => exact hv
  | explainMiss parent =>
    have hv : d.Vacant t := ht
    simp only [advance]
    split
    · exact hv.faithful h
    · split <;> exact hv.faithful h
  | betweenParts scan => exact ht
  | inParent scan text => exact ht
  | inOther scan => exact ht
  | inHead scan name head => exact ht
  | inBody scan staged => exact ht
  | done result => exact ht

theorem result?_eq_some {result : Outcome File} : u.result? = some result ↔ u = .done result := by
  cases u <;> simp [result?]

/-! ## Several accesses -/

theorem settle_of_pos (t : Ticket) (d : Depot) (hs : 0 < u.stepsLeft) :
    settle t d u = settle t (advance t d u).2 (advance t d u).1 := by
  rw [settle, dif_pos hs]

theorem settle_of_waiting (t : Ticket) (d : Depot) (hs : ¬ 0 < u.stepsLeft) : settle t d u = (u, d) := by
  rw [settle, dif_neg hs]

theorem settle_of_advance {v : Upload} {e : Depot} (h : advance t d u = (v, e)) (hs : 0 < u.stepsLeft) :
    settle t d u = settle t e v := by
  rw [settle_of_pos t d hs, h]

theorem settle_of_stepsLeft (hw : u.stepsLeft = 0) : settle t d u = (u, d) := by
  refine settle_of_waiting t d ?_
  omega

theorem feed_cons (t : Ticket) (d : Depot) (u : Upload) (e : Multipart.Event)
    (rest : List Multipart.Event) :
    feed t d u (e :: rest) = feed t (settle t d (u.receive e)).2 (settle t d (u.receive e)).1 rest := rfl

theorem feed_append (t : Ticket) (d : Depot) (u : Upload) (events more : List Multipart.Event) :
    feed t d u (events ++ more) = feed t (feed t d u events).2 (feed t d u events).1 more := by
  rw [feed, List.foldl_append]
  rfl

/-- What every access keeps is kept until the upload waits again. -/
theorem settle_keeps {P : Upload → Depot → Prop}
    (hstep : ∀ u d, 0 < u.stepsLeft → P u d → P (advance t d u).1 (advance t d u).2)
    (d : Depot) (u : Upload) (hp : P u d) : P (settle t d u).1 (settle t d u).2 := by
  induction d, u using settle.induct t with
  | case1 d u hs ih =>
    rw [settle_of_pos t d hs]
    exact ih (hstep u d hs hp)
  | case2 d u hs =>
    rw [settle_of_waiting t d hs]
    exact hp

theorem stepsLeft_settle (t : Ticket) (d : Depot) (u : Upload) : (settle t d u).1.stepsLeft = 0 := by
  induction d, u using settle.induct t with
  | case1 d u hs ih =>
    rw [settle_of_pos t d hs]
    exact ih
  | case2 d u hs =>
    rw [settle_of_waiting t d hs]
    exact Nat.eq_zero_of_not_pos hs

/-- After every event an upload waits for the next one, if it is not done. -/
theorem stepsLeft_feed (t : Ticket) (d : Depot) {u : Upload} (hw : u.stepsLeft = 0)
    (events : List Multipart.Event) : (feed t d u events).1.stepsLeft = 0 := by
  induction events generalizing d u with
  | nil => exact hw
  | cons event rest ih =>
    rw [feed_cons]
    exact ih _ (stepsLeft_settle t d _)

/-- An upload that is done takes no notice of further events. -/
theorem feed_of_done (t : Ticket) (d : Depot) (result : Outcome File) (events : List Multipart.Event) :
    feed t d (.done result) events = (.done result, d) := by
  induction events with
  | nil => rfl
  | cons event rest ih =>
    have hreceive : receive (.done result) event = .done result := by cases event <;> rfl
    rw [feed_cons, hreceive, settle_of_waiting t d (by simp [stepsLeft])]
    exact ih

/-- What an upload keeps when it takes an event and with every access, it keeps over a list of events. -/
theorem feed_keeps {P : Hearing → Upload → Depot → Prop}
    (hstep : ∀ h u d, 0 < u.stepsLeft → P h u d → P h (advance t d u).1 (advance t d u).2)
    (hreceive : ∀ h u d e, u.stepsLeft = 0 → P h u d → P (h.hear e) (u.receive e) d)
    (events : List Multipart.Event) (d : Depot) (h : Hearing) (u : Upload) (hw : u.stepsLeft = 0)
    (hp : P h u d) :
    P (h.hearAll events) (feed t d u events).1 (feed t d u events).2 ∧
      (feed t d u events).1.stepsLeft = 0 := by
  induction events generalizing d h u with
  | nil => exact ⟨hp, hw⟩
  | cons e rest ih =>
    exact ih _ (h.hear e) _ (stepsLeft_settle t d _)
      (settle_keeps (hstep (h.hear e)) d _ (hreceive h u d e hw hp))

/-- What is kept by an upload that starts in the depot `d` and has heard `h`. -/
structure Kept (gone : Prop) (t : Ticket) (d₀ : Depot) (h : Hearing) (u : Upload) (d : Depot) : Prop where
  touches : Touches t d₀ d
  tracks : Tracks gone d t h u

theorem kept_advance {d₀ : Depot} (hid : IsSegment t.fileId) (hk : Kept gone t d₀ h u d) :
    Kept gone t d₀ h (advance t d u).1 (advance t d u).2 :=
  ⟨hk.touches.trans (touches_advance hk.touches.orderly hk.touches.owned hid u),
    tracks_advance hk.touches.orderly hk.touches.owned hid hk.tracks⟩

/-- An upload that takes events of its body touches only what is its own, and the depot keeps pace. -/
theorem kept_feed (hid : IsSegment t.fileId) (ho : d.Orderly)
    (hown : ∀ f ∈ d.db.fileRows, f.id = t.fileId → f.ownerId = t.owner) (hw : u.stepsLeft = 0)
    (ht : Tracks gone d t h u) (events : List Multipart.Event) :
    Kept gone t d (h.hearAll events) (feed t d u events).1 (feed t d u events).2 ∧
      (feed t d u events).1.stepsLeft = 0 :=
  feed_keeps (P := Kept gone t d) (fun _ _ _ _ hk => kept_advance hid hk)
    (fun _ _ _ e hw hk => ⟨hk.touches, tracks_receive hk.tracks hw e⟩) events d h u hw
    ⟨.refl ho hown, ht⟩

/-! ## Other uploads -/

/-- Neither the row nor the content of the file of `t` is changed, and the directory of its owner stays. -/
structure Undisturbed (t : Ticket) (d d' : Depot) : Prop where
  rows : ∀ f, f.id = t.fileId → (f ∈ d'.db.fileRows ↔ f ∈ d.db.fileRows)
  content : d'.blobs.get? t.place = d.blobs.get? t.place
  directory : d.blobs.get? (ofOwner t.owner) = some .directory →
    d'.blobs.get? (ofOwner t.owner) = some .directory

theorem Touches.undisturbed (h : Touches t' d d') (hne : t.fileId ≠ t'.fileId) : Undisturbed t d d' where
  rows _ hf := h.mem_iff (hf ▸ hne)
  content := h.blobs.ofIds_of_ne hne
  directory := h.blobs.ofOwner_directory

theorem Undisturbed.vacant (hu : Undisturbed t d d') (hv : d.Vacant t) : d'.Vacant t where
  noRow f hf hid := hv.noRow f ((hu.rows f hid).mp hf) hid
  noBlob := hu.content.trans hv.noBlob

theorem Undisturbed.pending (hu : Undisturbed t d d') (hp : d.Pending t) : d'.Pending t := by
  obtain ⟨f, hf, hid, hown, hs⟩ := hp
  exact ⟨f, (hu.rows f hid).mpr hf, hid, hown, hs⟩

theorem Undisturbed.stored {staged : Staged} {bytes : Bytes} (hu : Undisturbed t d d')
    (hs : d.Stored t staged bytes) : d'.Stored t staged bytes :=
  ⟨hu.pending hs.pending, hu.content.trans hs.content, hs.size⟩

theorem Undisturbed.between {scan : Scan} {bytes : Bytes} (hu : Undisturbed t d d')
    (hb : d.Between t bytes scan) : d'.Between t bytes scan := by
  unfold Between at hb ⊢
  split
  · next hs =>
    rw [hs] at hb
    exact ⟨hu.vacant hb.1, hb.2⟩
  · next staged hs =>
    rw [hs] at hb
    exact hu.stored hb

theorem Undisturbed.hasRow (hu : Undisturbed t d d') (hr : d.HasRow t) : d'.HasRow t := by
  obtain ⟨f, hf, hid⟩ := hr
  exact ⟨f, (hu.rows f hid).mpr hf, hid⟩

theorem Undisturbed.faithful (hu : Undisturbed t d d') (hf : d.Faithful t h) : d'.Faithful t h := by
  refine ⟨fun f hmem hid => ?_, ?_⟩
  · rw [hu.content]
    exact hf.row f ((hu.rows f hid).mp hmem) hid
  · rw [hu.content]
    exact hf.backed.imp_right hu.hasRow

/-- What holds of an upload still holds when others change what is not its own. -/
theorem tracks_of_undisturbed (hu : Undisturbed t d d') (hgone : gone → gone')
    (ht : Tracks gone d t h u) : Tracks gone' d' t h u := by
  cases u with
  | admission => exact ⟨hu.vacant ht.1, ht.2⟩
  | betweenParts scan => exact ⟨ht.1, hu.between ht.2⟩
  | inParent scan text => exact ⟨ht.1, hu.between ht.2⟩
  | inOther scan => exact ⟨ht.1, hu.between ht.2⟩
  | inHead scan name head => exact ⟨ht.1, ht.2.1, hu.vacant ht.2.2.1, ht.2.2.2⟩
  | inBody scan staged => exact ⟨ht.1, hu.stored ht.2⟩
  | insertStub scan name head ended => exact ⟨ht.1, ht.2.1, hu.vacant ht.2.2.1, ht.2.2.2⟩
  | makeDirectory scan staged head ended =>
    obtain ⟨hp, hs, hpend, hblob, hb⟩ := ht
    exact ⟨hp, hs, hu.pending hpend, hu.content.trans hblob, hb⟩
  | createBlob scan staged head ended =>
    obtain ⟨hp, hs, hpend, hdir, hb⟩ := ht
    exact ⟨hp, hs, hu.pending hpend, hu.directory hdir, hb⟩
  | write scan staged bytes ended =>
    obtain ⟨hp, before, hs, hb⟩ := ht
    exact ⟨hp, before, hu.stored hs, hb⟩
  | finish parent staged => exact ⟨ht.1, hu.stored ht.2⟩
  | account f => exact ⟨hu.faithful ht.1, (hu.rows f ht.2.2).mpr ht.2.1, ht.2.2⟩
  | removeBlob next => exact hu.pending ht
  | removeStub next => exact ⟨hu.pending ht.1, hu.content.trans ht.2⟩
  | explainMiss parent => exact hu.vacant ht
  | done result =>
    cases result with
    | ok f => exact ⟨hu.faithful ht.1, ht.2.imp hgone hu.hasRow⟩
    | error e => exact hu.faithful ht

/-- While an upload does not run, its content is there only together with a row. -/
theorem backed_of_tracks (ht : Tracks gone d t h u) (hw : u.stepsLeft = 0) :
    d.blobs.get? t.place = none ∨ d.HasRow t := by
  have hbetween : ∀ {bytes scan}, d.Between t bytes scan → d.blobs.get? t.place = none ∨ d.HasRow t := by
    intro bytes scan hb
    unfold Between at hb
    split at hb
    · exact Or.inl hb.1.noBlob
    · exact Or.inr hb.pending.hasRow
  cases u with
  | done result =>
    cases result with
    | ok f => exact ht.1.backed
    | error e => exact ht.backed
  | betweenParts scan => exact hbetween ht.2
  | inParent scan text => exact hbetween ht.2
  | inOther scan => exact hbetween ht.2
  | inHead scan name head => exact Or.inl ht.2.2.1.noBlob
  | inBody scan staged => exact Or.inr ht.2.pending.hasRow
  | _ => simp [stepsLeft] at hw

/-- Once there is a finished row of its file, an upload that does not run is done. -/
theorem done_of_complete (ho : d.Orderly) (ht : Tracks gone d t h u) (hw : u.stepsLeft = 0) {f : File}
    (hf : f ∈ d.db.fileRows) (hid : f.id = t.fileId) (hs : f.state = .complete) :
    ∃ result, u = done result := by
  have hpend : ¬ d.Pending t := by
    rintro ⟨g, hg, hgid, -, hgs⟩
    rw [List.inj_on_of_nodup_map ho.unique hg hf (hgid.trans hid.symm), hs] at hgs
    cases hgs
  have hv : ¬ d.Vacant t := fun hv => hv.noRow f hf hid
  have hbetween : ∀ {bytes scan}, ¬ d.Between t bytes scan := by
    intro bytes scan hb
    unfold Between at hb
    split at hb
    · exact hv hb.1
    · exact hpend hb.pending
  cases u with
  | done result => exact ⟨result, rfl⟩
  | betweenParts scan => exact absurd ht.2 hbetween
  | inParent scan text => exact absurd ht.2 hbetween
  | inOther scan => exact absurd ht.2 hbetween
  | inHead scan name head => exact absurd ht.2.2.1 hv
  | inBody scan staged => exact absurd ht.2.pending hpend
  | _ => simp [stepsLeft] at hw

end Upload

end FileDepot
