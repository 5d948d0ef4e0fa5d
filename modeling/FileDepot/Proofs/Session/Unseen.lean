import FileDepot.Proofs.Session.Veil

/-!
# What an upload leaves unseen

How far a depot in which an upload has come to some stage differs from the depot in which it was never
started. Until the upload is done the difference is hidden; then it is the finished file, or nothing.
-/

namespace FileDepot

open BlobPath Database Depot Upload

variable {gone gone' : Prop} {t t' : Ticket} {d d' e d₀ e₀ : Depot} {h : Hearing} {u : Upload}

/-! ## Other uploads -/

/-- Another upload at the same stage in two depots that differ by what is hidden. -/
structure Beside (gone gone' : Prop) (t t' : Ticket) (d₀ e₀ : Depot) (h : Hearing) (u : Upload)
    (d e : Depot) : Prop where
  seen : Kept gone t' d₀ h u d
  alone : Kept gone' t' e₀ h u e
  hides : Hides t d e

namespace Beside

theorem advance (hb : Beside gone gone' t t' d₀ e₀ h u d e) (hne : t'.fileId ≠ t.fileId)
    (hid : IsSegment t'.fileId) :
    (advance t' e u).1 = (advance t' d u).1 ∧
      Beside gone gone' t t' d₀ e₀ h (advance t' d u).1 (advance t' d u).2 (advance t' e u).2 := by
  obtain ⟨heq, hh⟩ := hb.hides.advance hne hid hb.seen.touches.orderly hb.alone.touches.orderly
    hb.seen.tracks hb.alone.tracks
  have halone := kept_advance hid hb.alone
  rw [heq] at halone
  exact ⟨heq, kept_advance hid hb.seen, halone, hh⟩

theorem settle (hb : Beside gone gone' t t' d₀ e₀ h u d e) (hne : t'.fileId ≠ t.fileId)
    (hid : IsSegment t'.fileId) :
    (settle t' e u).1 = (settle t' d u).1 ∧
      Beside gone gone' t t' d₀ e₀ h (settle t' d u).1 (settle t' d u).2 (settle t' e u).2 := by
  induction d, u using settle.induct t' generalizing e with
  | case1 d u hs ih =>
    obtain ⟨heq, hb'⟩ := hb.advance hne hid
    rw [settle_of_pos t' e hs, settle_of_pos t' d hs, heq]
    exact ih hb'
  | case2 d u hs =>
    rw [settle_of_waiting t' e hs, settle_of_waiting t' d hs]
    exact ⟨rfl, hb⟩

theorem feed (hb : Beside gone gone' t t' d₀ e₀ h u d e) (hne : t'.fileId ≠ t.fileId)
    (hid : IsSegment t'.fileId) (hw : u.stepsLeft = 0) (events : List Multipart.Event) :
    (feed t' e u events).1 = (feed t' d u events).1 ∧
      Beside gone gone' t t' d₀ e₀ (h.hearAll events) (feed t' d u events).1 (feed t' d u events).2
        (feed t' e u events).2 := by
  induction events generalizing d e h u with
  | nil => exact ⟨rfl, hb⟩
  | cons event rest ih =>
    have hreceive : Beside gone gone' t t' d₀ e₀ (h.hear event) (u.receive event) d e :=
      ⟨⟨hb.seen.touches, tracks_receive hb.seen.tracks hw event⟩,
        ⟨hb.alone.touches, tracks_receive hb.alone.tracks hw event⟩, hb.hides⟩
    obtain ⟨heq, hb'⟩ := hreceive.settle hne hid
    rw [feed_cons, feed_cons, heq]
    exact ih hb' (stepsLeft_settle t' d _)

end Beside

/-! ## The upload itself -/

/-- Bytes are counted only at the very end. -/
theorem users_advance (ho : d.Orderly) (hu : ∀ f, u ≠ .account f) :
    (advance t d u).2.db.users = d.db.users := by
  cases u with
  | admission =>
    simp only [advance]
    split <;> rfl
  | insertStub scan name head ended =>
    have hi := users_insertFile ho.whole
      (stub t scan.parent ⟨name, Name.extension name, Sniff.detect head, 0⟩)
    simp only [advance]
    split
    · next hr => rwa [hr] at hi
    · next hr => rwa [hr] at hi
  | makeDirectory scan staged head ended =>
    simp only [advance]
    split <;> rfl
  | createBlob scan staged head ended =>
    simp only [advance]
    split <;> rfl
  | write scan staged bytes ended =>
    simp only [advance]
    split <;> rfl
  | finish parent staged =>
    have hi := users_updateFile ho.whole t.fileId t.owner (u := finalFields parent staged) rfl
    simp only [advance]
    split
    · next hr => rwa [hr] at hi
    · next hr => rwa [hr] at hi
    · next hr => rwa [hr] at hi
  | account f => exact absurd rfl (hu f)
  | removeBlob next =>
    simp only [advance]
    split <;> rfl
  | removeStub next =>
    simp only [advance, deleteFile_eq ho.whole]
    split <;> rfl
  | explainMiss parent =>
    simp only [advance]
    split
    · rfl
    · split <;> rfl
  | _ => rfl

/-- An access ends an upload with a failure and with nothing left of it, unless it counts the bytes. -/
theorem done_of_advance (hk : Kept gone t d₀ h u d) (hs : 0 < u.stepsLeft) {result : Outcome File}
    (hr : (advance t d u).1 = .done result) :
    (∃ f, u = .account f) ∨ (∃ cause, result = .error cause) ∧ (advance t d u).2.Vacant t := by
  have ho := hk.touches.orderly
  have ht := hk.tracks
  cases u with
  | account f => exact Or.inl ⟨f, rfl⟩
  | admission =>
    right
    simp only [advance] at hr ⊢
    split at hr
    · cases hr
      exact ⟨⟨_, rfl⟩, ht.1⟩
    · cases hr
  | insertStub scan name head ended =>
    right
    simp only [advance] at hr ⊢
    rcases insertFile_cases ho.whole (stub t scan.parent ⟨name, Name.extension name, Sniff.detect head, 0⟩)
      with ⟨cause, he⟩ | ⟨hok, -⟩
    · rw [he] at hr ⊢
      cases hr
      exact ⟨⟨cause, rfl⟩, ht.2.2.1⟩
    · rw [hok] at hr
      cases hr
  | removeStub next =>
    right
    have hv := vacant_removeStub ho hk.touches.owned ht.2
    cases next with
    | fail cause =>
      cases hr
      exact ⟨⟨cause, rfl⟩, hv⟩
    | explain parent => cases hr
  | explainMiss parent =>
    right
    have hv : d.Vacant t := ht
    simp only [advance] at hr ⊢
    split at hr
    · next hp =>
      cases hr
      exact ⟨⟨_, rfl⟩, by rwa [if_pos hp]⟩
    · next hp =>
      rw [if_neg hp]
      split at hr <;> cases hr <;> exact ⟨⟨_, rfl⟩, hv⟩
  | makeDirectory scan staged head ended =>
    simp only [advance] at hr
    split at hr <;> cases hr
  | createBlob scan staged head ended =>
    simp only [advance] at hr
    split at hr <;> cases hr
  | write scan staged bytes ended =>
    simp only [advance] at hr
    split at hr <;> cases hr
  | finish parent staged =>
    simp only [advance] at hr
    split at hr <;> cases hr
  | removeBlob next =>
    simp only [advance] at hr
    split at hr <;> cases hr
  | _ => simp [stepsLeft] at hs

theorem done_of_abort {scan : Scan} {bytes : Bytes} (hb : d.Between t bytes scan) {cause : UploadError}
    {result : Outcome File} (hr : abort scan cause = .done result) :
    (∃ cause, result = .error cause) ∧ d.Vacant t := by
  unfold abort at hr
  unfold Between at hb
  split at hr
  · next hs =>
    cases hr
    rw [hs] at hb
    exact ⟨⟨_, rfl⟩, hb.1⟩
  · cases hr

theorem done_of_headComplete {scan : Scan} {name : String} {head : Bytes} {ended : Bool}
    (hv : d.Vacant t) (hs : scan.staged = none) {result : Outcome File}
    (hr : headComplete scan name head ended = .done result) :
    (∃ cause, result = .error cause) ∧ d.Vacant t := by
  unfold headComplete at hr
  split at hr
  · exact done_of_abort (between_of_vacant hv hs) hr
  · cases hr

/-- An event ends an upload with a failure and with nothing there of it. -/
theorem done_of_receive (ht : Tracks gone d t h u) (hw : u.stepsLeft = 0) (hu : u.result? = none)
    {event : Multipart.Event} {result : Outcome File} (hr : u.receive event = .done result) :
    (∃ cause, result = .error cause) ∧ d.Vacant t := by
  cases u with
  | betweenParts scan =>
    have hb := ht.2
    unfold receive at hr
    split at hr
    · cases hr
    · next heq =>
      cases heq
      split at hr
      · exact done_of_abort hb hr
      · cases hr
    · cases hr
    · next heq =>
      cases heq
      split at hr
      · next hs =>
        cases hr
        rw [Between, hs] at hb
        exact ⟨⟨_, rfl⟩, hb.1⟩
      · cases hr
    · next heq =>
      cases heq
      exact done_of_abort hb hr
    all_goals simp_all
  | inParent scan text =>
    cases event with
    | data more =>
      simp only [receive] at hr
      split at hr
      · exact done_of_abort ht.2 hr
      · cases hr
    | partEnd =>
      simp only [receive] at hr
      split at hr
      · exact done_of_abort ht.2 hr
      · cases hr
    | broken cause => exact done_of_abort ht.2 hr
    | _ => cases hr
  | inOther scan =>
    cases event with
    | broken cause => exact done_of_abort ht.2 hr
    | _ => cases hr
  | inHead scan name head =>
    obtain ⟨-, hs, hv, -⟩ := ht
    cases event with
    | data more =>
      simp only [receive] at hr
      split at hr
      · cases hr
      · exact done_of_headComplete hv hs hr
    | partEnd => exact done_of_headComplete hv hs hr
    | broken cause => exact done_of_abort (between_of_vacant hv hs) hr
    | _ => cases hr
  | inBody scan staged =>
    cases event with
    | data more =>
      simp only [receive] at hr
      split at hr <;> cases hr
    | _ => cases hr
  | done result' => cases hu
  | _ => simp [stepsLeft] at hw

/-! ## What is to be seen at the end -/

/-- Nothing distinguishes the records and contents of two depots. Directories are not spoken of. -/
structure SameStores (d e : Depot) : Prop where
  db : d.db = e.db
  contents : ∀ q content, d.blobs.get? q = some (.blob content) ↔ e.blobs.get? q = some (.blob content)

/-- `seen` is `alone` with one more finished file, whose bytes are counted. -/
structure Delivered (t : Ticket) (alone seen : Depot) (bytes : Bytes) (f : File) : Prop where
  row : f ∈ seen.db.fileRows
  id : f.id = t.fileId
  owner : f.ownerId = t.owner
  complete : f.state = .complete
  size : f.size = bytes.length
  unique : (seen.db.fileRows.map File.id).Nodup
  rest : seen.db.withoutFile t.fileId = (alone.db.adjustSpaceUsed t.owner f.size).2
  content : seen.blobs.get? t.place = some (.blob bytes)
  elsewhere : ∀ q content, q ≠ t.place →
    (seen.blobs.get? q = some (.blob content) ↔ alone.blobs.get? q = some (.blob content))

/-- What an upload at some stage has made of the depot in which it was never started. A failure leaves
    nothing, unless it is that the bytes of the finished file could not be counted. -/
def Standing (alone : Depot) (t : Ticket) (h : Hearing) (u : Upload) (seen : Depot) : Prop :=
  match u with
  | .done (.ok f) =>
    Delivered t alone seen h.bytes f ∧ ∃ n, (alone.db.adjustSpaceUsed t.owner f.size).1 = .ok n
  | .done (.error cause) =>
    SameStores seen alone ∨ ∃ f, Delivered t alone seen h.bytes f ∧
      (alone.db.adjustSpaceUsed t.owner f.size).1 = .error cause
  | _ => Hides t seen alone

theorem standing_of_hides (hh : Hides t d e) (hu : u.result? = none) : Standing e t h u d := by
  cases u with
  | done result => cases hu
  | _ => exact hh

theorem hides_of_standing (hs : Standing e t h u d) (hu : u.result? = none) : Hides t d e := by
  cases u with
  | done result => cases hu
  | _ => exact hs

/-- Where nothing of the file is there, nothing is hidden. -/
theorem Hides.sameStores (hh : Hides t d e) (hd : d.Orderly) (he : e.Orderly) (hv : d.Vacant t) :
    SameStores d e := by
  refine ⟨?_, fun q content => ?_⟩
  · rw [hh.db, withoutFile_eq_self hv.noRow]
  · by_cases hq : q = t.place
    · have hvacant : e.blobs.get? t.place = none := hh.blobs.vacant
      rw [hq, hv.noBlob, hvacant]
    · exact hh.blobs.blob_iff hd.tidy he.tidy hq content

/-- When the bytes of a finished file are counted, the file becomes what is to be seen of the upload. -/
theorem standing_account (hh : Hides t d e) (hd : d.Orderly) (he : e.Orderly) {f : File}
    (ht : Tracks gone d t h (.account f)) :
    Standing e t h (advance t d (.account f)).1 (advance t d (.account f)).2 := by
  obtain ⟨hf, hmem, hid⟩ := ht
  obtain ⟨hown, hs, hsize, hg, -⟩ := hf.row f hmem hid
  have hu := onlyUsers_adjustSpaceUsed d.db t.owner f.size
  have hadjust : e.db.adjustSpaceUsed t.owner f.size = ((d.db.adjustSpaceUsed t.owner f.size).1,
      (d.db.adjustSpaceUsed t.owner f.size).2.withoutFile t.fileId) := by
    rw [hh.db, adjustSpaceUsed_withoutFile]
  cases hr : d.db.adjustSpaceUsed t.owner f.size with
  | mk result db =>
    rw [hr] at hu hadjust
    have hdelivered : Delivered t e { d with db } h.bytes f := by
      refine ⟨hu.fileRows ▸ hmem, hid, hown, hs, hsize, hu.fileRows ▸ hd.unique, ?_, hg, ?_⟩
      · rw [hadjust]
      · intro q content hq
        exact hh.blobs.blob_iff hd.tidy he.tidy hq content
    simp only [advance, hr]
    cases result with
    | error cause => exact Or.inr ⟨f, hdelivered, by rw [hadjust]⟩
    | ok n => exact ⟨hdelivered, n, by rw [hadjust]⟩

/-- An upload together with what it has made of a depot in which it was never started. -/
structure Apart (gone : Prop) (t : Ticket) (e d₀ : Depot) (h : Hearing) (u : Upload) (d : Depot) : Prop where
  kept : Kept gone t d₀ h u d
  standing : Standing e t h u d

theorem apart_advance (he : e.Orderly) (hid : IsSegment t.fileId) (hs : 0 < u.stepsLeft)
    (ha : Apart gone t e d₀ h u d) :
    Apart gone t e d₀ h (advance t d u).1 (advance t d u).2 := by
  have hk := ha.kept
  have ho := hk.touches.orderly
  have hu : u.result? = none := by
    cases u with
    | done result => simp [stepsLeft] at hs
    | _ => rfl
  have hh := hides_of_standing ha.standing hu
  refine ⟨kept_advance hid hk, ?_⟩
  by_cases hacc : ∃ f, u = .account f
  · obtain ⟨f, rfl⟩ := hacc
    exact standing_account hh ho he hk.tracks
  · have htouch := touches_advance ho hk.touches.owned hid u
    have hh' : Hides t (advance t d u).2 e :=
      hh.of_touches he htouch ho.whole (users_advance ho fun f hf => hacc ⟨f, hf⟩)
    cases hr : (advance t d u).1.result? with
    | none => exact standing_of_hides hh' hr
    | some result =>
      have hdone := result?_eq_some.mp hr
      rcases done_of_advance hk hs hdone with hf | ⟨⟨cause, rfl⟩, hv⟩
      · exact absurd hf hacc
      · rw [hdone]
        exact Or.inl (hh'.sameStores htouch.orderly he hv)

/-- An upload that has just been started. -/
theorem apart_start (he : e.Orderly) (hid : IsSegment t.fileId) (hv : e.Vacant t) :
    Apart False t e e .start (settle t e .admission).1 (settle t e .admission).2 :=
  settle_keeps (P := Apart False t e e .start) (fun _ _ hs ha => apart_advance he hid hs ha) e .admission
    ⟨⟨.refl he fun f hf heq => absurd heq (hv.noRow f hf), hv, rfl⟩, .refl hv⟩

/-- What was made of an upload that is done does not change any more. -/
theorem standing_hear {result : Outcome File} (ht : Tracks gone d t h (.done result))
    (hs : Standing e t h (.done result) d) (event : Multipart.Event) :
    Standing e t (h.hear event) (.done result) d := by
  have hsame : ∀ f, Delivered t e d h.bytes f → d.Faithful t h → h.hear event = h := by
    intro f hd hf
    obtain ⟨-, -, -, -, hended⟩ := hf.row f hd.row hd.id
    exact Hearing.hear_of_ended hended event
  cases result with
  | ok f =>
    rw [hsame f hs.1 ht.1]
    exact hs
  | error cause =>
    rcases hs with hs | ⟨f, hd, hc⟩
    · exact Or.inl hs
    · rw [hsame f hd ht]
      exact Or.inr ⟨f, hd, hc⟩

theorem apart_receive (he : e.Orderly) (hw : u.stepsLeft = 0) (ha : Apart gone t e d₀ h u d)
    (event : Multipart.Event) : Apart gone t e d₀ (h.hear event) (u.receive event) d := by
  have hk := ha.kept
  refine ⟨⟨hk.touches, tracks_receive hk.tracks hw event⟩, ?_⟩
  cases hu : u.result? with
  | none =>
    have hh := hides_of_standing ha.standing hu
    cases hr : (u.receive event).result? with
    | none => exact standing_of_hides hh hr
    | some result =>
      have hdone := result?_eq_some.mp hr
      obtain ⟨⟨cause, rfl⟩, hv⟩ := done_of_receive hk.tracks hw hu hdone
      rw [hdone]
      exact Or.inl (hh.sameStores hk.touches.orderly he hv)
  | some result =>
    obtain rfl := result?_eq_some.mp hu
    exact standing_hear hk.tracks ha.standing event

/-- An upload that takes events of its body stays apart. -/
theorem apart_feed (he : e.Orderly) (hid : IsSegment t.fileId) (hw : u.stepsLeft = 0)
    (ha : Apart gone t e d₀ h u d) (events : List Multipart.Event) :
    Apart gone t e d₀ (h.hearAll events) (feed t d u events).1 (feed t d u events).2 :=
  (feed_keeps (P := Apart gone t e d₀) (fun _ _ _ hs ha => apart_advance he hid hs ha)
    (fun _ _ _ event hw ha => apart_receive he hw ha event) events d h u hw ha).1

end FileDepot
