import FileDepot.Proofs.Session.Operations

/-!
# Records and contents of a session

In every session that can come about, each record belongs to the upload it was made by, each content to a
record, and both are as far as the upload is. Once no upload runs, the records are those of finished uploads
and the contents are what their bodies held.
-/

namespace FileDepot

open BlobPath Database Depot Upload

/-- A file was asked to be taken away, and the answer was another one than that there is no such file. -/
def Removed (log : List Entry) (t : Ticket) : Prop :=
  ∃ entry ∈ log, entry.turn = .operate (.delete t.owner t.fileId) ∧
    ∃ result, entry.reply = .answer (.deleted result) ∧ result ≠ .error (.notFound "file")

theorem Removed.mono {log log' : List Entry} {t : Ticket} (hl : ∀ entry ∈ log, entry ∈ log')
    (h : Removed log t) : Removed log' t := by
  obtain ⟨entry, he, h⟩ := h
  exact ⟨entry, hl entry he, h⟩

/-- The records and contents of a depot are those of the given uploads, of which none is running. -/
structure Custody (d : Depot) (uploads : List Sending) (log : List Entry) : Prop where
  orderly : d.Orderly
  ids : (uploads.map (·.ticket.fileId)).Nodup
  segments : ∀ s ∈ uploads, IsSegment s.ticket.fileId
  waiting : ∀ s ∈ uploads, s.intake.upload.stepsLeft = 0
  tracks : ∀ s ∈ uploads, Tracks (Removed log s.ticket) d s.ticket s.hearing s.intake.upload
  known : ∀ f ∈ d.db.fileRows, ∃ s ∈ uploads, s.ticket.fileId = f.id ∧ s.ticket.owner = f.ownerId
  backed : ∀ owner id content, d.blobs.get? (ofIds owner id) = some (.blob content) →
    ∃ f ∈ d.db.fileRows, f.id = id ∧ f.ownerId = owner

variable {d d' : Depot} {uploads uploads' : List Sending} {log log' : List Entry} {t : Ticket}
  {s s' : Sending}

namespace Custody

theorem fresh : Custody Depot.fresh [] [] where
  orderly := ⟨isWhole_fresh, List.nodup_nil, BlobTree.Tidy.empty⟩
  ids := List.nodup_nil
  segments := by simp
  waiting := by simp
  tracks := by simp
  known f hf := by cases hf
  backed owner id content h := by cases h

/-- A row under the id of an upload is the upload's own. -/
theorem owned (h : Custody d uploads log) (hs : s ∈ uploads) :
    ∀ f ∈ d.db.fileRows, f.id = s.ticket.fileId → f.ownerId = s.ticket.owner := by
  intro f hf hid
  obtain ⟨a, ha, haid, haown⟩ := h.known f hf
  rw [List.inj_on_of_nodup_map h.ids ha hs (haid.trans hid)] at haown
  exact haown.symm

/-- What is known of a finished file and of its upload. -/
theorem of_complete (h : Custody d uploads log) {f : File} (hf : f ∈ d.db.fileRows)
    (hs : f.state = .complete) :
    ∃ s ∈ uploads, s.ticket.fileId = f.id ∧ s.ticket.owner = f.ownerId ∧
      (∃ result, s.intake.upload = .done result) ∧ d.Faithful s.ticket s.hearing := by
  obtain ⟨s, hmem, hid, hown⟩ := h.known f hf
  have ht := h.tracks s hmem
  obtain ⟨result, hr⟩ := done_of_complete h.orderly ht (h.waiting s hmem) hf hid.symm hs
  refine ⟨s, hmem, hid, hown, ⟨result, hr⟩, ?_⟩
  rw [hr] at ht
  cases result with
  | ok g => exact ht.1
  | error e => exact ht

theorem contentful (h : Custody d uploads log) : d.Contentful := by
  intro f hf hs
  obtain ⟨s, hmem, hid, hown, -, hfaith⟩ := h.of_complete hf hs
  obtain ⟨-, -, -, hcontent, -⟩ := hfaith.row f hf hid.symm
  rw [← hid, ← hown]
  exact ⟨h.segments s hmem, _, hcontent⟩

/-- There is nothing of a file whose id is new. -/
theorem vacant (h : Custody d uploads log) (hnew : ∀ a ∈ uploads, a.ticket.fileId ≠ t.fileId) :
    d.Vacant t := by
  have hrow : ∀ f ∈ d.db.fileRows, f.id ≠ t.fileId := by
    intro f hf hid
    obtain ⟨a, ha, haid, -⟩ := h.known f hf
    exact hnew a ha (haid.trans hid)
  refine ⟨hrow, ?_⟩
  cases hg : d.blobs.get? t.place with
  | none => rfl
  | some entry =>
    cases entry with
    | directory => exact absurd hg (h.orderly.tidy.ofIds_ne_directory t.owner t.fileId)
    | blob content =>
      obtain ⟨f, hf, hid, -⟩ := h.backed _ _ _ hg
      exact absurd hid (hrow f hf)

/-- One upload, started or gone on with, has touched what is its own. -/
theorem touch (h : Custody d uploads log) (ht : Touches s'.ticket d d')
    (hmem : ∀ a, a ∈ uploads' ↔ a = s' ∨ a ∈ uploads ∧ a.ticket.fileId ≠ s'.ticket.fileId)
    (hids : (uploads'.map (·.ticket.fileId)).Nodup) (hseg : IsSegment s'.ticket.fileId)
    (hown : ∀ f ∈ d.db.fileRows, f.id = s'.ticket.fileId → f.ownerId = s'.ticket.owner)
    (hw : s'.intake.upload.stepsLeft = 0) (hl : ∀ entry ∈ log, entry ∈ log')
    (htr : Tracks (Removed log' s'.ticket) d' s'.ticket s'.hearing s'.intake.upload) :
    Custody d' uploads' log' where
  orderly := ht.orderly
  ids := hids
  segments a ha := by
    rcases (hmem a).mp ha with rfl | ⟨ha, -⟩
    · exact hseg
    · exact h.segments a ha
  waiting a ha := by
    rcases (hmem a).mp ha with rfl | ⟨ha, -⟩
    · exact hw
    · exact h.waiting a ha
  tracks a ha := by
    rcases (hmem a).mp ha with rfl | ⟨ha, hne⟩
    · exact htr
    · exact tracks_of_undisturbed (ht.undisturbed hne) (Removed.mono hl) (h.tracks a ha)
  known f hf := by
    by_cases hid : f.id = s'.ticket.fileId
    · exact ⟨s', (hmem s').mpr (Or.inl rfl), hid.symm, (ht.owned f hf hid).symm⟩
    · obtain ⟨a, ha, haid, haown⟩ := h.known f ((ht.mem_iff hid).mp hf)
      exact ⟨a, (hmem a).mpr (Or.inr ⟨ha, haid ▸ hid⟩), haid, haown⟩
  backed owner id content hg := by
    by_cases hid : id = s'.ticket.fileId
    · subst hid
      by_cases ho : owner = s'.ticket.owner
      · subst ho
        rcases backed_of_tracks htr hw with hnone | ⟨f, hf, hfid⟩
        · rw [Ticket.place, hg] at hnone
          cases hnone
        · exact ⟨f, hf, hfid, ht.owned f hf hfid⟩
      · -- The content of another owner would have been there before, under an id that is not theirs.
        rw [ht.blobs.elsewhere _ (fun heq => ho (ofIds_inj.mp heq).1)
          (ofIds_ne_ofOwner owner s'.ticket.owner s'.ticket.fileId)] at hg
        obtain ⟨f, hf, hfid, hfown⟩ := h.backed _ _ _ hg
        exact absurd (hfown.symm.trans (hown f hf hfid)) ho
    · rw [ht.blobs.ofIds_of_ne hid] at hg
      obtain ⟨f, hf, hfid, hfown⟩ := h.backed _ _ _ hg
      exact ⟨f, (ht.mem_iff (hfid ▸ hid)).mpr hf, hfid, hfown⟩

/-- An upload with a new id is started. -/
theorem start (h : Custody d uploads log) (hid : IsSegment t.fileId)
    (hnew : ∀ a ∈ uploads, a.ticket.fileId ≠ t.fileId) (boundary : Bytes) (limit : Nat)
    (hl : ∀ entry ∈ log, entry ∈ log')
    (hp : uploads'.Perm ((Sending.start t boundary limit d).1 :: uploads)) :
    Custody (Sending.start t boundary limit d).2 uploads' log' := by
  have hv := h.vacant hnew
  have hown : ∀ f ∈ d.db.fileRows, f.id = t.fileId → f.ownerId = t.owner :=
    fun f hf hfid => absurd hfid (hv.noRow f hf)
  have hkept : Kept (Removed log' t) t d .start (settle t d .admission).1 (settle t d .admission).2 :=
    settle_keeps (P := Kept (Removed log' t) t d .start) (fun _ _ _ hk => kept_advance hid hk) d _
      ⟨.refl h.orderly hown, hv, rfl⟩
  have htouch : Touches (Sending.start t boundary limit d).1.ticket d (Sending.start t boundary limit d).2 :=
    hkept.touches
  refine h.touch htouch (fun a => ?_) ?_ hid hown (stepsLeft_settle t d _) hl hkept.tracks
  · rw [hp.mem_iff, List.mem_cons]
    refine or_congr_right ⟨fun ha => ⟨ha, hnew a ha⟩, fun ha => ha.1⟩
  · rw [(hp.map _).nodup_iff, List.map_cons, List.nodup_cons]
    refine ⟨fun hmem => ?_, h.ids⟩
    obtain ⟨a, ha, haid⟩ := List.mem_map.mp hmem
    exact hnew a ha haid

theorem map_id_set {n : Nat} (hn : uploads[n]? = some s) (ht : s'.ticket = s.ticket) :
    (uploads.set n s').map (·.ticket.fileId) = uploads.map (·.ticket.fileId) := by
  obtain ⟨hlt, rfl⟩ := List.getElem?_eq_some_iff.mp hn
  have hlt' : n < (uploads.map (·.ticket.fileId)).length := by rwa [List.length_map]
  have hid : s'.ticket.fileId = (uploads.map (·.ticket.fileId))[n] := by rw [List.getElem_map, ht]
  rw [List.map_set, hid, List.set_getElem_self]

/-- What is in a list of uploads, in which one has been gone on with. -/
theorem mem_set_iff (h : (uploads.map (·.ticket.fileId)).Nodup) {n : Nat} (hn : uploads[n]? = some s)
    (ht : s'.ticket = s.ticket) (a : Sending) :
    a ∈ uploads.set n s' ↔ a = s' ∨ a ∈ uploads ∧ a.ticket.fileId ≠ s'.ticket.fileId := by
  obtain ⟨hlt, hns⟩ := List.getElem?_eq_some_iff.mp hn
  have hid : ∀ m (hm : m < uploads.length), uploads[m].ticket.fileId = s'.ticket.fileId → m = n := by
    intro m hm heq
    have hm' : m < (uploads.map (·.ticket.fileId)).length := by rwa [List.length_map]
    have hn' : n < (uploads.map (·.ticket.fileId)).length := by rwa [List.length_map]
    have hsame : (uploads.map (·.ticket.fileId))[m] = (uploads.map (·.ticket.fileId))[n] := by
      simpa [hns, ht] using heq
    exact h.getElem_inj_iff.mp hsame
  constructor
  · intro ha
    obtain ⟨m, hm, rfl⟩ := List.mem_iff_getElem.mp ha
    rw [List.length_set] at hm
    by_cases hmn : m = n
    · subst hmn
      exact Or.inl (List.getElem_set_self _)
    · rw [List.getElem_set_ne (Ne.symm hmn)]
      exact Or.inr ⟨List.getElem_mem hm, fun heq => hmn (hid m hm heq)⟩
  · rintro (rfl | ⟨ha, hne⟩)
    · exact List.mem_set hlt a
    · obtain ⟨m, hm, rfl⟩ := List.mem_iff_getElem.mp ha
      have hmn : n ≠ m := by
        rintro rfl
        exact hne (by rw [hns, ht])
      exact List.mem_iff_getElem.mpr ⟨m, by simpa using hm, List.getElem_set_ne hmn _⟩

/-- An upload takes the next delivery of its body. -/
theorem take (h : Custody d uploads log) {n : Nat} (hn : uploads[n]? = some s) (x : Delivery)
    (hl : ∀ entry ∈ log, entry ∈ log') :
    Custody (s.take x d).2 (uploads.set n (s.take x d).1) log' := by
  have hs : s ∈ uploads := List.mem_of_getElem? hn
  have ht := s.ticket_take x d
  have htr : Tracks (Removed log' s.ticket) d s.ticket s.hearing s.intake.upload :=
    tracks_of_undisturbed ⟨fun _ _ => Iff.rfl, rfl, fun h => h⟩ (Removed.mono hl) (h.tracks s hs)
  obtain ⟨hkept, hw⟩ := kept_feed (h.segments s hs) h.orderly (h.owned hs) (h.waiting s hs) htr
    (x.events s.intake)
  rw [← s.feed_of_take x d] at hkept hw
  refine h.touch ?_ (mem_set_iff h.ids hn ht) ?_ ?_ ?_ hw hl ?_
  · rw [ht]
    exact hkept.touches
  · rw [map_id_set hn ht]
    exact h.ids
  · rw [ht]
    exact h.segments s hs
  · rw [ht]
    exact h.owned hs
  · rw [ht, s.hearing_take]
    exact hkept.tracks

/-- An operation that leaves files alone. -/
theorem sameFiles (h : Custody d uploads log) (hd : SameFiles d d') (hl : ∀ entry ∈ log, entry ∈ log') :
    Custody d' uploads log' where
  orderly := hd.orderly h.orderly
  ids := h.ids
  segments := h.segments
  waiting := h.waiting
  tracks a ha := by
    refine tracks_of_undisturbed ⟨fun f _ => ?_, ?_, ?_⟩ (Removed.mono hl) (h.tracks a ha)
    · rw [hd.fileRows]
    · rw [hd.blobs]
    · rw [hd.blobs]
      exact fun h => h
  known f hf := h.known f (hd.fileRows ▸ hf)
  backed owner id content hg := by
    rw [hd.blobs] at hg
    rw [hd.fileRows]
    exact h.backed owner id content hg

/-- A file that gets another name keeps everything else that is known of it. -/
theorem faithful_rename {h : Hearing} {name : String} (hf : d.Faithful t h) (hb : d'.blobs = d.blobs)
    (hrows : d'.db.fileRows =
      updatedRows d.db.fileRows t.fileId t.owner { FileUpdate.none with name := some name }) :
    d'.Faithful t h := by
  refine ⟨fun f hmem hid => ?_, ?_⟩
  · rw [hrows] at hmem
    obtain ⟨g, hg, ⟨hgid, -, rfl⟩ | ⟨-, rfl⟩⟩ := mem_updatedRows.mp hmem
    · rw [hb]
      exact hf.row g hg hgid
    · rw [hb]
      exact hf.row f hg hid
  · rw [hb]
    refine hf.backed.imp_right fun ⟨g, hg, hgid⟩ => ?_
    have hmem : g.id ∈ d'.db.fileRows.map File.id := by
      rw [hrows, map_id_updatedRows]
      exact List.mem_map_of_mem hg
    obtain ⟨f, hmem, hfid⟩ := List.mem_map.mp hmem
    exact ⟨f, hmem, hfid.trans hgid⟩

/-- A finished file has been touched. -/
theorem touch_done (h : Custody d uploads log) (hs : s ∈ uploads) {result : Outcome File}
    (hdone : s.intake.upload = .done result) (ht : Touches s.ticket d d')
    (hl : ∀ entry ∈ log, entry ∈ log') (hf : d'.Faithful s.ticket s.hearing)
    (hrow : Removed log' s.ticket ∨ d'.HasRow s.ticket) : Custody d' uploads log' := by
  have hmem : ∀ a, a ∈ uploads ↔ a = s ∨ a ∈ uploads ∧ a.ticket.fileId ≠ s.ticket.fileId := by
    intro a
    constructor
    · intro ha
      by_cases hid : a.ticket.fileId = s.ticket.fileId
      · exact Or.inl (List.inj_on_of_nodup_map h.ids ha hs hid)
      · exact Or.inr ⟨ha, hid⟩
    · rintro (rfl | ⟨ha, -⟩)
      · exact hs
      · exact ha
  refine h.touch ht hmem h.ids (h.segments s hs) (h.owned hs) (h.waiting s hs) hl ?_
  rw [hdone]
  cases result with
  | ok f => exact ⟨hf, hrow⟩
  | error e => exact hf

theorem rename (h : Custody d uploads log) (owner : Int) (id name : String)
    (hl : ∀ entry ∈ log, entry ∈ log') : Custody (d.rename owner id name).2 uploads log' := by
  rcases rename_cases h.orderly owner id name with hsame | ⟨f, hf, hid, hown, hs, name', hd⟩
  · rw [hsame]
    exact h.sameFiles (.refl d) hl
  · obtain ⟨s, hmem, hsid, hsown, ⟨result, hdone⟩, hfaith⟩ := h.of_complete hf hs
    rw [hid] at hsid
    rw [hown] at hsown
    subst hsid hsown
    have ht : Touches s.ticket d (d.rename s.ticket.owner s.ticket.fileId name).2 := by
      rw [hd]
      refine .of_rows h.orderly ?_ ?_ (filter_updatedRows _ _ _ _)
      · rw [map_id_updatedRows]
        exact h.orderly.unique
      · intro g hg hgid
        obtain ⟨g', hg', ⟨-, hown', rfl⟩ | ⟨-, rfl⟩⟩ := mem_updatedRows.mp hg
        · exact hown'
        · exact h.owned hmem g hg' hgid
    have hfaith' : (d.rename s.ticket.owner s.ticket.fileId name).2.Faithful s.ticket s.hearing :=
      faithful_rename hfaith (by rw [hd]) (by rw [hd]; rfl)
    refine h.touch_done hmem hdone ht hl hfaith' (Or.inr ?_)
    have hrow : f.id ∈ (d.rename s.ticket.owner s.ticket.fileId name).2.db.fileRows.map File.id := by
      rw [hd, fileRows_withFiles, map_id_updatedRows]
      exact List.mem_map_of_mem hf
    obtain ⟨g, hg, hgid⟩ := List.mem_map.mp hrow
    exact ⟨g, hg, hgid.trans hid⟩

/-- When row and content of a file are taken away and its bytes given back, nothing of it is left, and nothing
    else is touched. -/
theorem touches_removal (ho : d.Orderly)
    (hown : ∀ f ∈ d.db.fileRows, f.id = t.fileId → f.ownerId = t.owner) (delta : Int) :
    let released := (d.db.withFiles (d.db.fileRows.filter fun g =>
      !isFile t.fileId t.owner g)).adjustSpaceUsed t.owner delta
    Touches t d ⟨released.2, d.blobs.erase t.place⟩ ∧ Vacant ⟨released.2, d.blobs.erase t.place⟩ t := by
  intro released
  have hu := onlyUsers_adjustSpaceUsed (d.db.withFiles (d.db.fileRows.filter fun g =>
    !isFile t.fileId t.owner g)) t.owner delta
  have hrest := filter_isFile_of_owned hown
  have hrows : Touches t d ⟨d.db.withFiles (d.db.fileRows.filter fun g => !isFile t.fileId t.owner g),
      d.blobs⟩ := by
    refine .of_rows ho (ho.unique.sublist (List.filter_sublist.map _)) ?_ ?_
    · intro g hg
      exact hown g (List.mem_filter.mp hg).1
    · rw [hrest, List.filter_filter]
      simp
  have husers : Touches t d ⟨released.2, d.blobs⟩ :=
    hrows.trans (.of_users hrows.orderly hrows.owned hu)
  have herase : ∀ q, (d.blobs.erase t.place).get? q = if q = t.place then none else d.blobs.get? q :=
    BlobTree.get?_erase d.blobs t.place
  refine ⟨husers.trans (.of_blobs husers.orderly husers.owned ?_), fun g hg => ?_, ?_⟩
  · exact .of_content (ho.tidy.of_erase herase) fun q hq => (herase q).trans (if_neg hq)
  · rw [hu.fileRows, fileRows_withFiles, hrest] at hg
    simpa using (List.mem_filter.mp hg).2
  · exact (herase _).trans (if_pos rfl)

theorem delete (h : Custody d uploads log) (owner : Int) (id : String)
    (hl : ∀ entry ∈ log, entry ∈ log')
    (hentry : ⟨.operate (.delete owner id), .answer (.deleted (d.delete owner id).1)⟩ ∈ log') :
    Custody (d.delete owner id).2 uploads log' := by
  cases hfile : d.file owner id with
  | error e =>
    rw [delete_of_error hfile]
    exact h.sameFiles (.refl d) hl
  | ok f =>
    have hd := delete_of_file h.orderly h.contentful hfile
    obtain ⟨hf, hid, hown, hs⟩ := file_some h.orderly.whole hfile
    obtain ⟨s, hmem, hsid, hsown, ⟨result, hdone⟩, hfaith⟩ := h.of_complete hf hs
    rw [hid] at hsid
    rw [hown] at hsown
    subst hsid hsown
    obtain ⟨htouch, hvacant⟩ := touches_removal h.orderly (h.owned hmem) (Deletion.opposite f.size)
    have hne := adjustSpaceUsed_ne_notFound (d.db.withFiles (d.db.fileRows.filter fun g =>
      !isFile s.ticket.fileId s.ticket.owner g)) s.ticket.owner (Deletion.opposite f.size)
    rw [hd] at hentry ⊢
    have hremoved : Removed log' s.ticket := by
      refine ⟨_, hentry, rfl, _, rfl, fun heq => hne ?_⟩
      revert heq
      simp only
      cases (adjustSpaceUsed _ s.ticket.owner (Deletion.opposite f.size)).1 with
      | ok n => simp [Except.map]
      | error e => simp [Except.map]
    exact h.touch_done hmem hdone htouch hl (hvacant.faithful _) (Or.inl hremoved)

theorem operate (h : Custody d uploads log) (op : Operation) (hl : ∀ entry ∈ log, entry ∈ log')
    (hentry : ⟨.operate op, .answer (op.run d).1⟩ ∈ log') : Custody (op.run d).2 uploads log' := by
  rcases op.run_cases d with hd | ⟨owner, id, name, rfl⟩ | ⟨owner, id, rfl⟩
  · exact h.sameFiles hd hl
  · simp only [Operation.run]
    exact h.rename owner id name hl
  · simp only [Operation.run] at hentry ⊢
    exact h.delete owner id hl hentry

end Custody

namespace Session

/-- Whether a turn can happen beside the given uploads, which are not part of the session. -/
def AdmitsBeside (own : List Sending) (s : Session) : Turn → Prop
  | .start t _ _ => IsSegment t.fileId ∧ ∀ a ∈ own ++ s.uploads, a.ticket.fileId ≠ t.fileId
  | _ => True

/-- A turn of a session keeps records and contents in order, also beside uploads that are not part of it. -/
theorem custody_step (own : List Sending) {s : Session} {turn : Turn}
    (h : Custody s.depot (own ++ s.uploads) s.log) (ha : s.AdmitsBeside own turn) :
    Custody (s.step turn).depot (own ++ (s.step turn).uploads) (s.step turn).log := by
  have hl : ∀ entry, ∀ e ∈ s.log, e ∈ s.log ++ [entry] := fun entry e he => List.mem_append_left _ he
  cases turn with
  | operate op => exact h.operate op (hl _) (List.mem_append_right _ (List.mem_singleton_self _))
  | start t boundary limit =>
    refine h.start ha.1 ha.2 boundary limit (hl _) ?_
    rw [step, ← List.append_assoc]
    exact List.perm_append_comm
  | deliver n x =>
    simp only [step]
    cases hn : s.uploads[n]? with
    | none => exact h.sameFiles (.refl _) (hl _)
    | some a =>
      have hn' : (own ++ s.uploads)[own.length + n]? = some a := by
        rw [List.getElem?_append_right (Nat.le_add_right _ _), Nat.add_sub_cancel_left, hn]
      have hset : (own ++ s.uploads).set (own.length + n) (a.take x s.depot).1 =
          own ++ s.uploads.set n (a.take x s.depot).1 := by
        rw [List.set_append_right _ _ (Nat.le_add_right _ _), Nat.add_sub_cancel_left]
      have hc := h.take hn' x (hl ⟨.deliver n x, .upload (a.take x s.depot).1.result?⟩)
      rwa [hset] at hc

theorem Reached.custody {s : Session} (h : Reached s) : Custody s.depot s.uploads s.log := by
  induction h with
  | fresh => exact .fresh
  | step h ha ih =>
    refine custody_step [] ih ?_
    unfold AdmitsBeside
    unfold Admits at ha
    split
    · exact ha
    · trivial

end Session

end FileDepot
