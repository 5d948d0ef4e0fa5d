import FileDepot.Proofs.Blob.Tree

/-!
# The part of one owner in the tree

The directory of an owner and everything below it. Whatever an id is, the content of a file never lies anywhere
else: what an owner does to contents depends on that part alone, and leaves the parts of all other owners as
they were.
-/

namespace FileDepot

namespace BlobPath

variable {owner : Int} {id : String} {path : BlobPath}

/-- The path of a content begins with its owner, whatever the id is. -/
theorem head?_of_resolve (h : resolve (ofFile owner id) = .ok path) : path.head? = some (toString owner) := by
  rw [resolve, segments_ofFile_eq] at h
  split at h
  · cases h
  · cases h
    rfl

end BlobPath

namespace BlobTree

open BlobPath

/-- Two trees are the same at an entry right below the root and everywhere below it. -/
def SamePart (root : String) (t t' : BlobTree) : Prop := ∀ q : BlobPath, q.head? = some root → t'.get? q = t.get? q

/-- An operation ends alike on two trees and does the same to the part below an entry. -/
inductive Alike (root : String) : Except BlobError BlobTree → Except BlobError BlobTree → Prop
  | refused (cause : BlobError) : Alike root (.error cause) (.error cause)
  | done {t t' : BlobTree} (h : SamePart root t t') : Alike root (.ok t) (.ok t')

variable {t t' t'' : BlobTree} {root other : String} {owner : Int} {id : String} {path : BlobPath}

namespace SamePart

theorem refl (root : String) (t : BlobTree) : SamePart root t t := fun _ _ => rfl

theorem trans (h : SamePart root t t') (h' : SamePart root t' t'') : SamePart root t t'' :=
  fun q hq => (h' q hq).trans (h q hq)

/-- Every segment of a path is looked up below its first one. -/
theorem follow_eq (h : SamePart root t t') (above rest : BlobPath) (hhead : (above ++ rest).head? = some root) :
    t'.follow above rest = t.follow above rest := by
  induction rest generalizing above with
  | nil => simp only [follow]
  | cons s rest ih =>
    have hnext : (above ++ [s]).head? = some root := by
      cases above with
      | nil => exact hhead
      | cons a above => exact hhead
    have hget := h (above ++ [s]) hnext
    cases rest with
    | nil => simp only [follow, hget]
    | cons s' rest =>
      have hbelow := ih (above ++ [s]) (by rw [List.append_assoc]; exact hhead)
      simp only [follow, hget, hbelow]

theorem locate_eq (h : SamePart root t t') (hhead : path.head? = some root) : t'.locate path = t.locate path := by
  rw [locate, locate, h.follow_eq [] path hhead]

theorem put (h : SamePart root t t') (path : BlobPath) (e : BlobEntry) :
    SamePart root (t.put path e) (t'.put path e) := by
  intro q hq
  rw [get?_put, get?_put, h q hq]

theorem erase (h : SamePart root t t') (path : BlobPath) : SamePart root (t.erase path) (t'.erase path) := by
  intro q hq
  rw [get?_erase, get?_erase, h q hq]

/-- What happens at one path is not seen below an entry that the path does not go through. -/
theorem of_elsewhere (hpath : path.head? ≠ some other) (h : ∀ q, q ≠ path → t'.get? q = t.get? q) :
    SamePart other t t' := by
  intro q hq
  refine h q ?_
  rintro rfl
  exact hpath hq

section Owner

variable (h : SamePart (toString owner) t t')

include h

theorem open?_eq (id : String) : t'.open? (ofFile owner id) = t.open? (ofFile owner id) := by
  unfold open?
  cases hr : resolve (ofFile owner id) with
  | error e => rfl
  | ok path => simp only [h.locate_eq (head?_of_resolve hr)]

theorem create (id : String) : Alike (toString owner) (t.create (ofFile owner id)) (t'.create (ofFile owner id)) := by
  unfold BlobTree.create
  cases hr : resolve (ofFile owner id) with
  | error e => exact .refused e
  | ok path =>
    simp only [h.locate_eq (head?_of_resolve hr)]
    split
    · exact .refused _
    · exact .refused _
    · exact .done (h.put path (.blob []))

theorem remove (id : String) : Alike (toString owner) (t.remove (ofFile owner id)) (t'.remove (ofFile owner id)) := by
  unfold BlobTree.remove
  cases hr : resolve (ofFile owner id) with
  | error e => exact .refused e
  | ok path =>
    simp only [h.locate_eq (head?_of_resolve hr)]
    split
    · exact .refused _
    · exact .refused _
    · exact .refused _
    · exact .done (h.erase path)

theorem append (id : String) (bytes : Bytes) :
    SamePart (toString owner) (t.append (ofFile owner id) bytes) (t'.append (ofFile owner id) bytes) := by
  intro q hq
  cases hr : resolve (ofFile owner id) with
  | error e =>
    simp only [BlobTree.append, hr]
    exact h q hq
  | ok path => rw [get?_append t hr, get?_append t' hr, h path (head?_of_resolve hr), h q hq]

theorem makeDirectory :
    (t'.makeDirectory (toString owner)).1 = (t.makeDirectory (toString owner)).1 ∧
      SamePart (toString owner) (t.makeDirectory (toString owner)).2 (t'.makeDirectory (toString owner)).2 := by
  rw [makeDirectory_eq, makeDirectory_eq, h (ofOwner owner) rfl]
  split
  · split
    · refine ⟨rfl, fun q hq => ?_⟩
      rw [get?_addNested_ofOwner, get?_addNested_ofOwner, h q hq]
    · exact ⟨rfl, h⟩
    · exact ⟨rfl, h⟩
  · exact ⟨rfl, h⟩

end Owner

end SamePart

/-! ## What an owner leaves to others -/

section Others

variable (hne : toString owner ≠ other)

include hne

theorem head?_ne_of_resolve (hr : resolve (ofFile owner id) = .ok path) : path.head? ≠ some other := by
  rw [head?_of_resolve hr]
  exact fun heq => hne (Option.some.inj heq)

theorem samePart_create (hc : t.create (ofFile owner id) = .ok t') : SamePart other t t' := by
  unfold create at hc
  cases hr : resolve (ofFile owner id) with
  | error e =>
    rw [hr] at hc
    cases hc
  | ok path =>
    simp only [hr] at hc
    split at hc
    · cases hc
    · cases hc
    · cases hc
      refine .of_elsewhere (head?_ne_of_resolve hne hr) fun q hq => ?_
      rw [get?_put, if_neg hq]

theorem samePart_remove (hc : t.remove (ofFile owner id) = .ok t') : SamePart other t t' := by
  unfold remove at hc
  cases hr : resolve (ofFile owner id) with
  | error e =>
    rw [hr] at hc
    cases hc
  | ok path =>
    simp only [hr] at hc
    split at hc
    · cases hc
    · cases hc
    · cases hc
    · cases hc
      refine .of_elsewhere (head?_ne_of_resolve hne hr) fun q hq => ?_
      rw [get?_erase, if_neg hq]

theorem samePart_append (t : BlobTree) (id : String) (bytes : Bytes) :
    SamePart other t (t.append (ofFile owner id) bytes) := by
  cases hr : resolve (ofFile owner id) with
  | error e =>
    simp only [append, hr]
    exact .refl other t
  | ok path =>
    refine .of_elsewhere (head?_ne_of_resolve hne hr) fun q hq => ?_
    rw [get?_append t hr]
    split
    · rw [if_neg hq]
    · rfl

theorem samePart_makeDirectory (t : BlobTree) : SamePart other t (t.makeDirectory (toString owner)).2 := by
  have hpath : (ofOwner owner).head? ≠ some other := fun heq => hne (Option.some.inj heq)
  refine .of_elsewhere hpath fun q hq => ?_
  rw [makeDirectory_eq]
  split
  · split
    · rw [get?_addNested_ofOwner, if_neg hq, Option.or_none]
    · rfl
    · rfl
  · rfl

end Others

end BlobTree

end FileDepot
