import FileDepot.Proofs.Traffic.Effects

/-!
# The ceiling of an upload

What an upload may be granted when it is admitted, and that the bytes it counts in the end are no more than
that, whatever its body holds.
-/

namespace FileDepot

open Database

namespace Usage

variable {u : Usage} {left : Nat}

theorem isExhausted_iff : u.isExhausted = true ↔ u.quota ≠ 0 ∧ u.quota ≤ u.spaceUsed := by
  simp [isExhausted]

theorem ceiling_le_max (u : Usage) (maxFileSize : Nat) : u.ceiling maxFileSize ≤ maxFileSize := by
  unfold ceiling
  split
  · exact Nat.min_le_right _ _
  · exact Nat.le_refl _

theorem ceiling_le_remaining (h : u.remaining = some left) (maxFileSize : Nat) : u.ceiling maxFileSize ≤ left := by
  rw [ceiling, h]
  exact Nat.min_le_left _ _

/-- An upload is granted no more than what is left of a quota, which is something. -/
theorem ceiling_le (hq : 0 < u.quota) (h : u.isExhausted = false) (maxFileSize : Nat) :
    u.spaceUsed < u.quota ∧ u.spaceUsed + u.ceiling maxFileSize ≤ u.quota ∧
      (u.ceiling maxFileSize : Int) ≤ int64Max ∧ u.ceiling maxFileSize ≤ maxFileSize := by
  have hne : u.quota ≠ 0 := Int.ne_of_gt hq
  have hleft : u.spaceUsed < u.quota := by
    by_contra hover
    rw [isExhausted_iff.mpr ⟨hne, Int.le_of_not_gt hover⟩] at h
    cases h
  have hceiling := ceiling_le_remaining (if_neg hne : u.remaining = _) maxFileSize
  have hsaturate : saturate (u.quota - u.spaceUsed) ≤ u.quota - u.spaceUsed ∧
      saturate (u.quota - u.spaceUsed) ≤ int64Max := by
    simp only [saturate, int64Min, int64Max]
    omega
  have hmax : (0 : Int) ≤ int64Max := by decide
  refine ⟨hleft, ?_, ?_, ceiling_le_max u maxFileSize⟩
  · omega
  · omega

end Usage

namespace Upload

variable {t : Ticket} {d : Depot} {u : Upload} {c : Nat}

/-- An upload that was granted `c` bytes and has kept to them so far. -/
def Within (c : Nat) : Upload → Prop
  | betweenParts scan => scan.ceiling = c ∧ ∀ staged ∈ scan.staged, staged.size ≤ c
  | inParent scan _ => scan.ceiling = c ∧ ∀ staged ∈ scan.staged, staged.size ≤ c
  | inOther scan => scan.ceiling = c ∧ ∀ staged ∈ scan.staged, staged.size ≤ c
  | inHead scan _ _ => scan.ceiling = c
  | inBody scan staged => scan.ceiling = c ∧ staged.size ≤ c
  | insertStub scan _ head _ => scan.ceiling = c ∧ head.length ≤ c
  | makeDirectory scan staged head _ => scan.ceiling = c ∧ staged.size + head.length ≤ c
  | createBlob scan staged head _ => scan.ceiling = c ∧ staged.size + head.length ≤ c
  | write scan staged bytes _ => scan.ceiling = c ∧ staged.size + bytes.length ≤ c
  | finish _ staged => staged.size ≤ c
  | account f => 0 ≤ f.size ∧ f.size ≤ c
  | _ => True

theorem within_abort (scan : Scan) (cause : UploadError) : Within c (abort scan cause) := by
  unfold abort
  split <;> trivial

theorem within_headComplete {scan : Scan} (h : scan.ceiling = c) (name : String) (head : Bytes) (ended : Bool) :
    Within c (headComplete scan name head ended) := by
  unfold headComplete
  split
  · exact within_abort scan _
  · next hle =>
    refine ⟨h, ?_⟩
    omega

/-- Whatever comes of the body, an upload keeps to what it was granted. -/
theorem within_receive (h : Within c u) (e : Multipart.Event) : Within c (u.receive e) := by
  cases u with
  | betweenParts scan =>
    cases e with
    | part name filename =>
      by_cases hfile : name = some "file"
      · subst hfile
        simp only [receive]
        split
        · exact within_abort scan _
        · exact h.1
      · unfold receive
        split <;> simp_all [Within]
    | bodyEnd =>
      simp only [receive]
      cases hs : scan.staged with
      | none => trivial
      | some staged => exact h.2 staged hs
    | broken cause => exact within_abort scan cause
    | _ => exact h
  | inParent scan text =>
    cases e with
    | data bytes =>
      simp only [receive]
      split
      · exact within_abort scan _
      · exact h
    | partEnd =>
      simp only [receive]
      split
      · exact within_abort scan _
      · exact h
    | broken cause => exact within_abort scan cause
    | _ => exact h
  | inOther scan =>
    cases e with
    | broken cause => exact within_abort scan cause
    | _ => exact h
  | inHead scan name head =>
    cases e with
    | data bytes =>
      simp only [receive]
      split
      · exact h
      · exact within_headComplete h name _ false
    | partEnd => exact within_headComplete h name head true
    | broken cause => exact within_abort scan cause
    | _ => exact h
  | inBody scan staged =>
    obtain ⟨hc, hs⟩ := h
    cases e with
    | data bytes =>
      simp only [receive]
      split
      · trivial
      · refine ⟨hc, ?_⟩
        omega
    | partEnd =>
      refine ⟨hc, ?_⟩
      intro staged' hstaged'
      cases hstaged'
      exact hs
    | broken cause => trivial
    | _ => exact ⟨hc, hs⟩
  | _ => exact h

/-- And so it does with every access but that of its admission. -/
theorem within_advance (hw : d.db.IsWhole) (h : Within c u) (hu : u ≠ admission) :
    Within c (advance t d u).1 := by
  cases u with
  | admission => exact absurd rfl hu
  | insertStub scan name head ended =>
    obtain ⟨hc, hlen⟩ := h
    simp only [advance]
    split
    · trivial
    · refine ⟨hc, ?_⟩
      simpa using hlen
  | makeDirectory scan staged head ended =>
    simp only [advance]
    split
    · trivial
    · exact h
  | createBlob scan staged head ended =>
    simp only [advance]
    split
    · trivial
    · exact h
  | write scan staged bytes ended =>
    obtain ⟨hc, hlen⟩ := h
    simp only [advance]
    split
    · refine ⟨hc, ?_⟩
      intro staged' hstaged'
      cases hstaged'
      exact hlen
    · exact ⟨hc, hlen⟩
  | finish parent staged =>
    have hsize : staged.size ≤ c := h
    simp only [advance]
    rcases updateFile_cases hw t.fileId t.owner (u := finalFields parent staged) rfl
      with ⟨f, -, -, hok⟩ | ⟨-, hnone⟩
    · rw [hok]
      exact ⟨Int.natCast_nonneg staged.size, Int.ofNat_le.mpr hsize⟩
    · split
      · trivial
      · trivial
      · next f db hr =>
        rw [hr] at hnone
        exact absurd rfl (hnone f)
  | account f =>
    simp only [advance]
    split <;> trivial
  | removeBlob next =>
    simp only [advance]
    split <;> trivial
  | removeStub next => cases next <;> trivial
  | explainMiss parent =>
    simp only [advance]
    split
    · trivial
    · split <;> trivial
  | _ => exact h

end Upload

end FileDepot
