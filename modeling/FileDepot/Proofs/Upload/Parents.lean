import FileDepot.Proofs.Text.Names
import FileDepot.Proofs.Text.Percent
import FileDepot.Proofs.Upload.Whole
import Mathlib.Data.List.Flatten

/-!
# The parent part of a body

What an upload makes of the part that names its folder, in whatever chunks the part arrives and whatever the depot is
like: it looks at the length in bytes, and of a reference that is short enough only the stored form counts.
-/

namespace FileDepot

open Multipart

namespace Bytes

/-- A text has no more characters than bytes. -/
theorem length_le_ofText (text : String) : text.length ≤ (ofText text).length := by
  rw [ofText_eq, ← String.length_toList]
  induction text.toList with
  | nil => exact Nat.le_refl 0
  | cons c cs ih =>
    have hc : 1 ≤ (String.utf8EncodeChar c).length := by
      rw [String.length_utf8EncodeChar]
      exact c.utf8Size_pos
    rw [List.flatMap_cons, List.length_append, List.length_cons]
    omega

end Bytes

namespace FolderRef

/-- The stored form of a reference has no more bytes than the reference. -/
theorem length_ofText_normalize_le (ref : String) :
    (Bytes.ofText (normalize ref)).length ≤ (Bytes.ofText ref).length := by
  rcases normalize_eq_trim_or ref with h | h
  · rw [h, Text.trim, Bytes.ofText_ofList, Bytes.ofText_eq]
    exact ((Text.trimChars_sublist ref.toList).flatMap String.utf8EncodeChar).length_le
  · rw [h]
    exact Nat.zero_le _

end FolderRef

namespace Upload

variable {t : Ticket} {d : Depot} {scan : Scan} {p q : FormPart} {received : Bytes} {ref : String}
  {u : Upload} {behind : Bool}

/-! ## One part -/

/-- An upload that gives up fails for its cause, whatever it finds in the depot. -/
theorem settle_abort (t : Ticket) (d : Depot) (scan : Scan) (cause : UploadError) :
    (settle t d (abort scan cause)).1 = done (.error (.upload cause)) := by
  unfold abort
  split
  · rw [settle_of_stepsLeft rfl]
  · obtain ⟨d', hblob⟩ : ∃ d', advance t d (removeBlob (.fail (.upload cause))) =
        (removeStub (.fail (.upload cause)), d') := by
      simp only [advance]
      split <;> exact ⟨_, rfl⟩
    have hstub : advance t d' (removeStub (.fail (.upload cause))) =
        (done (.error (.upload cause)), { d' with db := (d'.db.deleteFile t.fileId t.owner).2 }) := rfl
    rw [settle_of_advance hblob (Nat.succ_pos _), settle_of_advance hstub (Nat.succ_pos _),
      settle_of_stepsLeft rfl]

/-- Chunks that keep the reference short enough are put together. -/
theorem feed_inParent (t : Ticket) (d : Depot) (scan : Scan) (chunks : List Bytes)
    (h : (received ++ chunks.flatten).length ≤ maxParentLength) :
    feed t d (inParent scan received) (chunks.map .data) = (inParent scan (received ++ chunks.flatten), d) := by
  induction chunks generalizing received with
  | nil => simp [feed]
  | cons bytes rest ih =>
    rw [List.flatten_cons, ← List.append_assoc] at h ⊢
    have hshort : ¬ maxParentLength < received.length + bytes.length := by
      simp only [List.length_append] at h
      omega
    rw [List.map_cons, feed_cons, receive, if_neg hshort, settle_of_stepsLeft rfl]
    exact ih h

/-- With the chunk that makes the reference too long the upload has failed. -/
theorem feed_inParent_of_long (t : Ticket) (d : Depot) (scan : Scan) (chunks : List Bytes)
    (hshort : received.length ≤ maxParentLength)
    (hlong : maxParentLength < (received ++ chunks.flatten).length) :
    (feed t d (inParent scan received) (chunks.map .data)).1 = done (.error (.upload .parentTooLong)) := by
  induction chunks generalizing received with
  | nil =>
    rw [List.flatten_nil, List.append_nil] at hlong
    omega
  | cons bytes rest ih =>
    rw [List.flatten_cons, ← List.append_assoc] at hlong
    rw [List.map_cons, feed_cons, receive]
    by_cases hnow : maxParentLength < received.length + bytes.length
    · rw [if_pos hnow, settle_abort, feed_of_done]
    · have hgrown : (received ++ bytes).length = received.length + bytes.length := List.length_append
      rw [if_neg hnow, settle_of_stepsLeft rfl]
      exact ih (by omega) hlong

theorem feed_part_of_parent (t : Ticket) (d : Depot) (scan : Scan) (hrole : p.role = .parent) :
    feed t d (betweenParts scan) (p.events ++ [.partEnd]) =
      feed t (feed t d (inParent scan []) (p.chunks.map .data)).2
        (feed t d (inParent scan []) (p.chunks.map .data)).1 [.partEnd] := by
  rw [FormPart.events, List.cons_append, feed_cons, receive_part, hrole]
  simp only
  rw [settle_of_stepsLeft rfl, feed_append]

/-- A parent part of at most 1024 bytes sets the parent to the stored form of its reference, and does nothing
    else. -/
theorem feed_parent (t : Ticket) (d : Depot) (scan : Scan) (hrole : p.role = .parent)
    (hlen : p.content.length ≤ maxParentLength) (htext : Bytes.text? p.content = some ref) :
    feed t d (betweenParts scan) (p.events ++ [.partEnd]) =
      (betweenParts { scan with parent := FolderRef.normalize ref }, d) := by
  rw [feed_part_of_parent t d scan hrole, feed_inParent t d scan p.chunks hlen, List.nil_append, feed_cons]
  simp only [receive]
  rw [← FormPart.content, htext]
  exact settle_of_stepsLeft rfl

/-- A longer one fails the upload. -/
theorem feed_parent_of_long (t : Ticket) (d : Depot) (scan : Scan) (hrole : p.role = .parent)
    (hlen : maxParentLength < p.content.length) :
    (feed t d (betweenParts scan) (p.events ++ [.partEnd])).1 = done (.error (.upload .parentTooLong)) := by
  rw [feed_part_of_parent t d scan hrole, feed_inParent_of_long t d scan p.chunks (Nat.zero_le _) hlen,
    feed_of_done]

/-- The upload goes on behind the part. -/
def Accepts (t : Ticket) (d : Depot) (scan : Scan) (p : FormPart) : Prop :=
  ∃ scan', (feed t d (betweenParts scan) (p.events ++ [.partEnd])).1 = betweenParts scan'

/-- A parent part that is a text is accepted for its length in bytes. -/
theorem accepts_iff (t : Ticket) (d : Depot) (scan : Scan) (hrole : p.role = .parent)
    (htext : Bytes.text? p.content = some ref) : Accepts t d scan p ↔ p.content.length ≤ maxParentLength := by
  constructor
  · rintro ⟨scan', h⟩
    by_contra hlong
    rw [feed_parent_of_long t d scan hrole (Nat.lt_of_not_le hlong)] at h
    cases h
  · intro hlen
    exact ⟨_, by rw [feed_parent t d scan hrole hlen htext]⟩

/-! ## Where an upload stands -/

/-- The upload stands behind a part (`behind`) or within one, or will do so when it waits for its body again. An
    upload that has come to its end stands everywhere. -/
def Stands (behind : Bool) : Upload → Prop
  | betweenParts _ | admission => behind = true
  | inParent _ _ | inOther _ | inHead _ _ _ | inBody _ _ => behind = false
  | insertStub _ _ _ ended | makeDirectory _ _ _ ended | createBlob _ _ _ ended | write _ _ _ ended =>
    ended = behind
  | finish _ _ | account _ | removeBlob _ | removeStub _ | explainMiss _ | done _ => True

theorem stands_abort (scan : Scan) (cause : UploadError) : (abort scan cause).Stands behind := by
  unfold abort
  split <;> trivial

theorem stands_headComplete (scan : Scan) (name : String) (head : Bytes) (ended : Bool) :
    (headComplete scan name head ended).Stands ended := by
  unfold headComplete
  split
  · exact stands_abort scan _
  · rfl

/-- An access to the depot does not tell where the upload will stand. -/
theorem stands_advance (t : Ticket) (d : Depot) (h : u.Stands behind) : (advance t d u).1.Stands behind := by
  cases u with
  | betweenParts scan => exact h
  | inParent scan text => exact h
  | inOther scan => exact h
  | inHead scan name head => exact h
  | inBody scan staged => exact h
  | admission =>
    simp only [advance]
    split
    · trivial
    · exact h
  | insertStub scan name head ended =>
    simp only [advance]
    split
    · trivial
    · exact h
  | makeDirectory scan staged head ended =>
    simp only [advance]
    split
    · trivial
    · exact h
  | createBlob scan staged head ended =>
    simp only [advance]
    split
    · trivial
    · exact h
  | write scan staged bytes ended =>
    obtain rfl : ended = behind := h
    cases ended <;> rfl
  | finish parent staged =>
    simp only [advance]
    split <;> trivial
  | account f =>
    simp only [advance]
    split <;> trivial
  | removeBlob next =>
    simp only [advance]
    split <;> trivial
  | removeStub next => cases next <;> trivial
  | explainMiss parent =>
    simp only [advance]
    split
    · trivial
    · split <;> trivial
  | done result => trivial

theorem stands_settle (t : Ticket) (d : Depot) (h : u.Stands behind) : (settle t d u).1.Stands behind :=
  settle_keeps (P := fun u _ => u.Stands behind) (fun _ d _ hu => stands_advance t d hu) d u h

theorem stands_receive_part (hw : u.stepsLeft = 0) (h : u.Stands true) (p : FormPart) :
    (u.receive (.part p.name p.filename)).Stands false := by
  cases u with
  | betweenParts scan =>
    rw [receive_part]
    split
    · rfl
    · split
      · exact stands_abort scan _
      · rfl
    · rfl
  | done result => trivial
  -- all others either stand within a part or have accesses left
  | _ => simp_all [Stands, stepsLeft]

theorem stands_receive_data (hw : u.stepsLeft = 0) (h : u.Stands false) (bytes : Bytes) :
    (u.receive (.data bytes)).Stands false := by
  cases u with
  | inParent scan text =>
    simp only [receive]
    split
    · exact stands_abort scan _
    · rfl
  | inOther scan => rfl
  | inHead scan name head =>
    simp only [receive]
    split
    · rfl
    · exact stands_headComplete scan name _ false
  | inBody scan staged =>
    simp only [receive]
    split
    · trivial
    · rfl
  | done result => trivial
  | _ => simp_all [Stands, stepsLeft]

theorem stands_receive_partEnd (hw : u.stepsLeft = 0) (h : u.Stands false) :
    (u.receive .partEnd).Stands true := by
  cases u with
  | inParent scan text =>
    simp only [receive]
    split
    · exact stands_abort scan _
    · rfl
  | inOther scan => rfl
  | inHead scan name head => exact stands_headComplete scan name head true
  | inBody scan staged => rfl
  | done result => trivial
  | _ => simp_all [Stands, stepsLeft]

theorem stands_feed_data (t : Ticket) (d : Depot) (hw : u.stepsLeft = 0) (h : u.Stands false)
    (chunks : List Bytes) : (feed t d u (chunks.map .data)).1.Stands false := by
  induction chunks generalizing d u with
  | nil => exact h
  | cons bytes rest ih =>
    rw [List.map_cons, feed_cons]
    exact ih _ (stepsLeft_settle t d _) (stands_settle t d (stands_receive_data hw h bytes))

/-- Behind a whole part an upload stands between two parts again. -/
theorem stands_feed_part (t : Ticket) (d : Depot) (hw : u.stepsLeft = 0) (h : u.Stands true) (p : FormPart) :
    (feed t d u (p.events ++ [.partEnd])).1.Stands true := by
  rw [FormPart.events, List.cons_append, feed_cons, feed_append]
  have hbegun := stands_settle t d (stands_receive_part hw h p)
  have hwaits := stepsLeft_settle t d (u.receive (.part p.name p.filename))
  generalize settle t d (u.receive (.part p.name p.filename)) = s at hbegun hwaits
  have hdata := stands_feed_data t s.2 hwaits hbegun p.chunks
  have hwaits' := stepsLeft_feed t s.2 hwaits (p.chunks.map .data)
  exact stands_settle t _ (stands_receive_partEnd hwaits' hdata)

theorem stands_feed_parts (t : Ticket) (d : Depot) (hw : u.stepsLeft = 0) (h : u.Stands true)
    (parts : List FormPart) :
    (feed t d u (parts.flatMap fun p => p.events ++ [.partEnd])).1.Stands true := by
  induction parts generalizing d u with
  | nil => exact h
  | cons p rest ih =>
    rw [List.flatMap_cons, feed_append]
    exact ih _ (stepsLeft_feed t d hw _) (stands_feed_part t d hw h p)

theorem between_or_done (hw : u.stepsLeft = 0) (h : u.Stands true) :
    (∃ scan, u = betweenParts scan) ∨ ∃ result, u = done result := by
  cases u with
  | betweenParts scan => exact Or.inl ⟨scan, rfl⟩
  | done result => exact Or.inr ⟨result, rfl⟩
  | _ => simp_all [Stands, stepsLeft]

/-! ## Whole bodies -/

/-- Of two bodies that differ in one parent part, each short enough and with the same stored form, an upload makes
    the same. -/
theorem run_congr_parent (t : Ticket) (d : Depot) (before after : List FormPart) (ending : BodyEnd)
    {ref' : String} (hp : p.role = .parent) (hq : q.role = .parent)
    (hplen : p.content.length ≤ maxParentLength) (hqlen : q.content.length ≤ maxParentLength)
    (hptext : Bytes.text? p.content = some ref) (hqtext : Bytes.text? q.content = some ref')
    (hsame : FolderRef.normalize ref = FolderRef.normalize ref') :
    run t d (FormBody.events ⟨before ++ p :: after, ending⟩) =
      run t d (FormBody.events ⟨before ++ q :: after, ending⟩) := by
  have hstart : (settle t d admission).1.Stands true := stands_settle t d rfl
  have hwaits := stepsLeft_settle t d admission
  unfold run
  generalize settle t d admission = s at hstart hwaits
  simp only [FormBody.events, List.flatMap_append, List.flatMap_cons, feed_append, List.append_assoc]
  have hbefore := stands_feed_parts t s.2 hwaits hstart before
  have hwaits' := stepsLeft_feed t s.2 hwaits (before.flatMap fun p => p.events ++ [.partEnd])
  generalize feed t s.2 s.1 (before.flatMap fun p => p.events ++ [.partEnd]) = s' at hbefore hwaits'
  -- what came before the part may have ended the upload; then neither reference is looked at
  have hpart : feed t s'.2 s'.1 (p.events ++ [.partEnd]) = feed t s'.2 s'.1 (q.events ++ [.partEnd]) := by
    rcases between_or_done hwaits' hbefore with ⟨scan, hscan⟩ | ⟨result, hdone⟩
    · rw [hscan, feed_parent t s'.2 scan hp hplen hptext, feed_parent t s'.2 scan hq hqlen hqtext, hsame]
    · rw [hdone, feed_of_done, feed_of_done]
  simp only [feed_append] at hpart
  rw [hpart]

end Upload

end FileDepot
