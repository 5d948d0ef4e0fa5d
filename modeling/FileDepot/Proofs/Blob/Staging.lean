import FileDepot.Number
import FileDepot.Proofs.Blob.Tree
import FileDepot.Proofs.Text.Percent
import Mathlib.Data.Nat.Digits.Defs

/-!
# One content more

What becomes of a tree when the content of a new file is made, written and removed again, as trees and not only
path by path. Nothing is left of a content that is removed but the directory of its owner.
-/

namespace FileDepot

namespace BlobTree

open BlobPath

variable {t : BlobTree} {path : BlobPath} {owner : Int} {id : String}

/-! ## Room -/

theorem utf8ByteSize_ofList_le (cs : List Char) : (String.ofList cs).utf8ByteSize ≤ 4 * cs.length := by
  induction cs with
  | nil => decide
  | cons c cs ih =>
    have hc : c.utf8Size ≤ 4 := c.utf8Size_le_four
    rw [Bytes.utf8ByteSize_ofList_cons, List.length_cons]
    omega

theorem isUnusable_single (first : String) : isUnusable [first] = false ↔
    first.utf8ByteSize + 1 ≤ maxPathLength ∧ Char.ofNat 0 ∉ first.toList := by
  simp [isUnusable]

theorem isUnusable_pair (first second : String) : isUnusable [first, second] = false ↔
    first.utf8ByteSize + 1 + second.utf8ByteSize + 1 ≤ maxPathLength ∧ Char.ofNat 0 ∉ first.toList ∧
      Char.ofNat 0 ∉ second.toList := by
  simp [isUnusable]

theorem isOverlong_eq_false_iff (first : String) :
    isOverlong first = false ↔ first.utf8ByteSize ≤ maxSegmentLength := by
  simp [isOverlong]

/-- An id that a directory can hold as a name, as every generated id is. -/
structure IsName (id : String) : Prop extends IsSegment id where
  short : id.utf8ByteSize ≤ maxSegmentLength
  noNul : Char.ofNat 0 ∉ id.toList

theorem length_toString_le (hlow : int64Min ≤ owner) (hhigh : owner ≤ int64Max) :
    (toString owner).length ≤ 20 := by
  simp only [int64Min, int64Max] at hlow hhigh
  have hrepr : ∀ n : Nat, n ≤ 9223372036854775808 → n.repr.length ≤ 19 := by
    intro n hn
    exact (Nat.length_repr_le_iff (by decide)).mpr (by omega)
  rw [Int.toString_eq_repr, Int.repr_eq_if]
  split
  · have := hrepr owner.toNat (by omega)
    omega
  · have := hrepr (-owner).toNat (by omega)
    rw [String.length_append]
    have hminus : "-".length = 1 := rfl
    omega

theorem utf8ByteSize_toString_le (hlow : int64Min ≤ owner) (hhigh : owner ≤ int64Max) :
    (toString owner).utf8ByteSize ≤ 80 := by
  have hsize := utf8ByteSize_ofList_le (toString owner).toList
  rw [String.ofList_toList, String.length_toList] at hsize
  have hlength := length_toString_le hlow hhigh
  omega

/-- The places of contents can be used whoever owns them: an owner is a 64-bit number. -/
theorem fits_of_isName (hid : IsName id) (hlow : int64Min ≤ owner) (hhigh : owner ≤ int64Max) :
    fits owner id = true := by
  have howner := utf8ByteSize_toString_le hlow hhigh
  have hshort := hid.short
  have hnul : Char.ofNat 0 ∉ (toString owner).toList := by
    intro hc
    have hdigit := isNumeral_toString owner _ hc
    revert hdigit
    decide
  have hlength : (toString owner).utf8ByteSize + 1 + id.utf8ByteSize + 1 ≤ maxPathLength := by
    simp only [maxSegmentLength, maxPathLength, maxFullLength, rootLength] at hshort ⊢
    omega
  have husable := (isUnusable_pair _ _).mpr ⟨hlength, hnul, hid.noNul⟩
  have hfirst := (isOverlong_eq_false_iff _).mpr (Nat.le_trans howner (by decide))
  have hsecond := (isOverlong_eq_false_iff _).mpr hshort
  rw [fits, fitsPair, husable, hfirst, hsecond]
  rfl

/-- Where there is room for a content, there is room for its directory. -/
theorem hasRoomFor_of_fitsPair {first second : String} (h : fitsPair first second = true) :
    hasRoomFor first = true := by
  simp only [fitsPair, Bool.and_eq_true, Bool.not_eq_true'] at h
  obtain ⟨⟨husable, hfirst⟩, -⟩ := h
  obtain ⟨hlength, hnul, -⟩ := (isUnusable_pair _ _).mp husable
  have hsingle := (isUnusable_single first).mpr ⟨by omega, hnul⟩
  rw [hasRoomFor, hsingle, hfirst]
  rfl

/-! ## The directory -/

/-- The tree with the directory of an owner. -/
def withDirectory (t : BlobTree) (owner : Int) : BlobTree := (t.makeDirectory (toString owner)).2

section Directory

variable (hfits : fits owner id = true) (hdir : ∀ content, t.get? (ofOwner owner) ≠ some (.blob content))

include hfits hdir

theorem makeDirectory_of_fits : t.makeDirectory (toString owner) = (.ok (), t.withDirectory owner) := by
  rw [withDirectory, makeDirectory_toString hdir, if_pos (hasRoomFor_of_fitsPair hfits)]

theorem withDirectory_eq :
    t.withDirectory owner = if (t.get? (ofOwner owner)).isSome then t else t.addNested [] (ofOwner owner) := by
  rw [withDirectory, makeDirectory_toString hdir, if_pos (hasRoomFor_of_fitsPair hfits)]

theorem get?_withDirectory_ofOwner : (t.withDirectory owner).get? (ofOwner owner) = some .directory := by
  rw [withDirectory_eq hfits hdir]
  cases hg : t.get? (ofOwner owner) with
  | none =>
    simp only [Option.isSome_none, Bool.false_eq_true, if_false]
    rw [get?_addNested_ofOwner, hg]
    simp
  | some e =>
    cases e with
    | directory => simpa using hg
    | blob content => exact absurd hg (hdir content)

theorem get?_withDirectory {q : BlobPath} (hq : q ≠ ofOwner owner) :
    (t.withDirectory owner).get? q = t.get? q := by
  rw [withDirectory_eq hfits hdir]
  split
  · rfl
  · rw [get?_addNested_ofOwner, if_neg hq, Option.or_none]

end Directory

/-! ## The content -/

variable {content bytes : Bytes}

theorem erase_of_vacant (h : t.get? path = none) : t.erase path = t := by
  have hall : ∀ entry ∈ t.entries, (entry.1 != path) = true := by
    intro entry hentry
    have hne := List.lookup_eq_none_iff.mp h entry hentry
    rw [bne_iff_ne]
    intro heq
    simp [heq] at hne
  obtain ⟨entries⟩ := t
  rw [erase]
  congr 1
  exact List.filter_eq_self.mpr hall

theorem erase_put (t : BlobTree) (path : BlobPath) (e : BlobEntry) : (t.put path e).erase path = t.erase path := by
  simp [put, erase, List.filter_append]

theorem append_put (hid : IsSegment id) :
    (t.put (ofIds owner id) (.blob content)).append (ofFile owner id) bytes =
      t.put (ofIds owner id) (.blob (content ++ bytes)) := by
  have hg : (t.put (ofIds owner id) (.blob content)).get? (ofIds owner id) = some (.blob content) := by
    rw [get?_put, if_pos rfl]
  simp only [append, resolve_ofFile owner hid, hg]
  -- Of the entries only the last one is at the place.
  have hothers : ∀ entry ∈ (t.erase (ofIds owner id)).entries,
      (if entry.1 == ofIds owner id then (ofIds owner id, BlobEntry.blob (content ++ bytes)) else entry) =
        entry := by
    intro entry hentry
    have hne : (entry.1 != ofIds owner id) = true := (List.mem_filter.mp hentry).2
    rw [if_neg]
    simpa using hne
  simp only [put, List.map_append, List.map_cons, List.map_nil, beq_self_eq_true, if_true]
  rw [List.map_congr_left hothers, List.map_id']

theorem create_vacant (hid : IsSegment id) (hfits : fits owner id = true)
    (hdir : t.get? (ofOwner owner) = some .directory) (hg : t.get? (ofIds owner id) = none) :
    t.create (ofFile owner id) = .ok (t.put (ofIds owner id) (.blob [])) := by
  simp only [create, resolve_ofFile owner hid, locate_ofIds id hdir, hfits, if_true, hg]

theorem remove_put (hid : IsSegment id) (hfits : fits owner id = true)
    (hdir : t.get? (ofOwner owner) = some .directory) (hg : t.get? (ofIds owner id) = none) :
    (t.put (ofIds owner id) (.blob content)).remove (ofFile owner id) = .ok t := by
  have hblob : (t.put (ofIds owner id) (.blob content)).get? (ofIds owner id) = some (.blob content) := by
    rw [get?_put, if_pos rfl]
  have hstill : (t.put (ofIds owner id) (.blob content)).get? (ofOwner owner) = some .directory := by
    rw [get?_put, if_neg (ofIds_ne_ofOwner owner owner id).symm, hdir]
  simp only [remove, resolve_ofFile owner hid, locate_ofIds id hstill, hfits, if_true, hblob]
  rw [erase_put, erase_of_vacant hg]

end BlobTree

end FileDepot
