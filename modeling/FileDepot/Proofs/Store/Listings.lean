import FileDepot.Proofs.Store.Rows
import Mathlib.Data.List.Sort

/-!
# The order of listings

Rows are listed by their names and then by their ids, both compared by their UTF-8 bytes. Where ids are unique
that is a strict order, so what a listing shows does not depend on the order of the rows.
-/

namespace FileDepot

open Database

theorem Bytes.ofText_inj {a b : String} (h : Bytes.ofText a = Bytes.ofText b) : a = b := by
  have hdata : a.toUTF8.data = b.toUTF8.data := Array.toList_inj.mp h
  exact String.toByteArray_inj.mp (ByteArray.ext hdata)

namespace Text

theorem byteLe_iff {a b : String} : byteLe a b = true ↔ Bytes.ofText a ≤ Bytes.ofText b := by
  simp [byteLe]

theorem byteLe_trans {a b c : String} (h : byteLe a b = true) (h' : byteLe b c = true) : byteLe a c = true :=
  byteLe_iff.mpr (List.le_trans (byteLe_iff.mp h) (byteLe_iff.mp h'))

theorem byteLe_total (a b : String) : byteLe a b = true ∨ byteLe b a = true := by
  rw [byteLe_iff, byteLe_iff]
  exact List.le_total _ _

theorem byteLe_antisymm {a b : String} (h : byteLe a b = true) (h' : byteLe b a = true) : a = b :=
  Bytes.ofText_inj (List.le_antisymm (byteLe_iff.mp h) (byteLe_iff.mp h'))

end Text

variable {α : Type} {rows rows' : List α}

/-- Whether a row comes before another one: by the bytes of the names, and for the same name by those of the
    ids. -/
def ComesBefore (name id : α → String) (a b : α) : Prop :=
  Bytes.ofText (name a) < Bytes.ofText (name b) ∨
    Bytes.ofText (name a) = Bytes.ofText (name b) ∧ Bytes.ofText (id a) < Bytes.ofText (id b)

theorem listedBefore_trans {n₁ i₁ n₂ i₂ n₃ i₃ : String} (h : listedBefore n₁ i₁ n₂ i₂ = true)
    (h' : listedBefore n₂ i₂ n₃ i₃ = true) : listedBefore n₁ i₁ n₃ i₃ = true := by
  unfold listedBefore at h h' ⊢
  by_cases h₁₂ : n₁ = n₂
  · subst h₁₂
    rw [if_pos rfl] at h
    by_cases h₁₃ : n₁ = n₃
    · rw [if_pos h₁₃] at h' ⊢
      exact Text.byteLe_trans h h'
    · rw [if_neg h₁₃] at h' ⊢
      exact h'
  · rw [if_neg h₁₂] at h
    by_cases h₂₃ : n₂ = n₃
    · subst h₂₃
      rw [if_neg h₁₂]
      exact h
    · rw [if_neg h₂₃] at h'
      have hne : n₁ ≠ n₃ := by
        rintro rfl
        exact h₁₂ (Text.byteLe_antisymm h h')
      rw [if_neg hne]
      exact Text.byteLe_trans h h'

theorem listedBefore_total (n₁ i₁ n₂ i₂ : String) :
    listedBefore n₁ i₁ n₂ i₂ = true ∨ listedBefore n₂ i₂ n₁ i₁ = true := by
  unfold listedBefore
  by_cases h : n₁ = n₂
  · rw [if_pos h, if_pos h.symm]
    exact Text.byteLe_total i₁ i₂
  · rw [if_neg h, if_neg (Ne.symm h)]
    exact Text.byteLe_total n₁ n₂

theorem listedBefore_antisymm {n₁ i₁ n₂ i₂ : String} (h : listedBefore n₁ i₁ n₂ i₂ = true)
    (h' : listedBefore n₂ i₂ n₁ i₁ = true) : i₁ = i₂ := by
  unfold listedBefore at h h'
  by_cases hn : n₁ = n₂
  · rw [if_pos hn] at h
    rw [if_pos hn.symm] at h'
    exact Text.byteLe_antisymm h h'
  · rw [if_neg hn] at h
    rw [if_neg (Ne.symm hn)] at h'
    exact absurd (Text.byteLe_antisymm h h') hn

/-- Rows with different ids are never listed at the same place. -/
theorem comesBefore_of_listedBefore {name id : α → String} {a b : α}
    (h : listedBefore (name a) (id a) (name b) (id b) = true) (hne : id a ≠ id b) : ComesBefore name id a b := by
  have hlt : ∀ {s t : String}, Text.byteLe s t = true → s ≠ t → Bytes.ofText s < Bytes.ofText t := by
    intro s t hle hst
    by_contra hge
    have hback : Text.byteLe t s = true := Text.byteLe_iff.mpr (List.not_lt.mp hge)
    exact hst (Text.byteLe_antisymm hle hback)
  unfold listedBefore at h
  split at h
  · next hname => exact Or.inr ⟨by rw [hname], hlt h hne⟩
  · next hname => exact Or.inl (hlt h hname)

/-- The rows in the order of listings. -/
def inOrder (name id : α → String) (rows : List α) : List α :=
  rows.mergeSort fun a b => listedBefore (name a) (id a) (name b) (id b)

theorem inOrder_perm (name id : α → String) (rows : List α) : (inOrder name id rows).Perm rows :=
  List.mergeSort_perm rows _

theorem pairwise_inOrder (name id : α → String) (rows : List α) :
    (inOrder name id rows).Pairwise fun a b => listedBefore (name a) (id a) (name b) (id b) = true := by
  refine List.pairwise_mergeSort ?_ ?_ rows
  · intro a b c h h'
    exact listedBefore_trans h h'
  · intro a b
    simpa using listedBefore_total (name a) (id a) (name b) (id b)

/-- Rows with unique ids are listed in a strict order. -/
theorem ascending_inOrder {name id : α → String} (hn : (rows.map id).Nodup) :
    (inOrder name id rows).Pairwise (ComesBefore name id) := by
  have hids : (inOrder name id rows).Pairwise fun a b => id a ≠ id b := by
    have hperm := ((inOrder_perm name id rows).map id).nodup_iff.mpr hn
    exact List.pairwise_map.mp hperm
  exact (hids.and (pairwise_inOrder name id rows)).imp fun h => comesBefore_of_listedBefore h.2 h.1

/-- The same rows in whatever order are listed in the same order. -/
theorem inOrder_congr {name id : α → String} (hn : (rows.map id).Nodup) (hp : rows.Perm rows') :
    inOrder name id rows = inOrder name id rows' := by
  have hperm : (inOrder name id rows).Perm (inOrder name id rows') :=
    (inOrder_perm name id rows).trans (hp.trans (inOrder_perm name id rows').symm)
  refine hperm.eq_of_pairwise ?_ (pairwise_inOrder name id rows) (pairwise_inOrder name id rows')
  intro a b ha hb hab hba
  have hamem := (inOrder_perm name id rows).mem_iff.mp ha
  have hbmem := hp.mem_iff.mpr ((inOrder_perm name id rows').mem_iff.mp hb)
  exact List.inj_on_of_nodup_map hn hamem hbmem (listedBefore_antisymm hab hba)

namespace Database

theorem sortFolders_eq (rows : List Folder) : sortFolders rows = inOrder Folder.name Folder.id rows := rfl

theorem sortFiles_eq (rows : List File) : sortFiles rows = inOrder File.name File.id rows := rfl

end Database

end FileDepot
