import FileDepot.Blob.Path
import Mathlib.Data.List.Basic

/-!
# Paths of contents

The content of a file lies two segments below the root: under its owner, then under its id. An id that is a
single ordinary segment, as every generated id is, resolves to exactly that place, and two files share a
place only if they have the same owner and the same id.
-/

namespace FileDepot

namespace Text

theorem splitAtChar_of_notMem {c : Char} {cs : List Char} (h : c ∉ cs) : splitAtChar c cs = [cs] := by
  induction cs with
  | nil => rfl
  | cons d rest ih =>
    obtain ⟨hd, hrest⟩ := List.ne_and_not_mem_of_not_mem_cons h
    simp [splitAtChar, ih hrest, hd.symm]

theorem splitAtChar_append {c : Char} {before after : List Char} (h : c ∉ before) :
    splitAtChar c (before ++ c :: after) = before :: splitAtChar c after := by
  induction before with
  | nil => simp [splitAtChar]
  | cons d rest ih =>
    obtain ⟨hd, hrest⟩ := List.ne_and_not_mem_of_not_mem_cons h
    simp [splitAtChar, ih hrest, hd.symm]

end Text

namespace BlobPath

/-- A text that is a single ordinary segment of a path. -/
structure IsSegment (s : String) : Prop where
  ne_empty : s ≠ ""
  ne_dot : s ≠ "."
  ne_dotdot : s ≠ ".."
  noSlash : '/' ∉ s.toList

/-- Whether every character of a text is a digit or a minus sign. -/
def IsNumeral (s : String) : Prop := ∀ c ∈ s.toList, c.isDigit ∨ c = '-'

theorem isNumeral_toString (n : Int) : IsNumeral (toString n) := by
  intro c hc
  rw [Int.toString_eq_repr, Int.repr_eq_if] at hc
  split at hc
  · left
    rw [Nat.toList_repr] at hc
    exact Nat.isDigit_of_mem_toDigits (by decide) (by decide) hc
  · rw [String.toList_append, Nat.toList_repr, List.mem_append] at hc
    rcases hc with hc | hc
    · right
      simpa using hc
    · left
      exact Nat.isDigit_of_mem_toDigits (by decide) (by decide) hc

theorem toString_ne_empty (n : Int) : toString n ≠ "" := by
  rw [Int.toString_eq_repr, Int.repr_eq_if]
  split
  · intro h
    have := congrArg String.toList h
    simp at this
  · intro h
    have := congrArg String.toList h
    simp at this

theorem IsNumeral.isSegment {s : String} (h : IsNumeral s) (hne : s ≠ "") : IsSegment s where
  ne_empty := hne
  ne_dot := by rintro rfl; simpa using h '.' (by simp)
  ne_dotdot := by rintro rfl; simpa using h '.' (by simp)
  noSlash := by intro hc; simpa using h '/' hc

/-- The directory of an owner is a single segment. -/
theorem isSegment_toString (owner : Int) : IsSegment (toString owner) :=
  (isNumeral_toString owner).isSegment (toString_ne_empty owner)

theorem repr_inj {m n : Nat} (h : m.repr = n.repr) : m = n := by
  have := congrArg (fun s : String => Nat.ofDigitChars 10 s.toList 0) h
  simpa using this

theorem minus_append_ne_repr (m n : Nat) : "-" ++ m.repr ≠ n.repr := by
  intro h
  have hm : '-' ∈ n.repr.toList := by rw [← h]; simp
  rw [Nat.toList_repr] at hm
  simpa using Nat.isDigit_of_mem_toDigits (by decide) (by decide) hm

/-- Different owners have different directories. -/
theorem toString_inj {m n : Int} (h : toString m = toString n) : m = n := by
  rw [Int.toString_eq_repr, Int.toString_eq_repr, Int.repr_eq_if, Int.repr_eq_if] at h
  split at h <;> split at h
  · have := repr_inj h
    omega
  · exact absurd h.symm (minus_append_ne_repr _ _)
  · exact absurd h (minus_append_ne_repr _ _)
  · have := congrArg String.toList h
    simp only [String.toList_append, List.append_cancel_left_eq] at this
    have := repr_inj (String.toList_inj.mp this)
    omega

/-- The directory of an owner. -/
def ofOwner (owner : Int) : BlobPath := [toString owner]

/-- The place of the content of a file. -/
def ofIds (owner : Int) (id : String) : BlobPath := [toString owner, id]

theorem ofIds_inj {owner owner' : Int} {id id' : String} :
    ofIds owner id = ofIds owner' id' ↔ owner = owner' ∧ id = id' := by
  constructor
  · intro h
    simp only [ofIds, List.cons.injEq, and_true] at h
    exact ⟨toString_inj h.1, h.2⟩
  · rintro ⟨rfl, rfl⟩
    rfl

theorem ofIds_ne_ofOwner (owner owner' : Int) (id : String) : ofIds owner id ≠ ofOwner owner' := by
  simp [ofIds, ofOwner]

theorem IsSegment.namesSomething {s : String} (h : IsSegment s) : (s != "" && s != ".") = true := by
  simp [h.ne_empty, h.ne_dot]

theorem segments_of_isSegment {s : String} (h : IsSegment s) : segments s = [s] := by
  simp [segments, Text.split, Text.splitAtChar_of_notMem h.noSlash, h.ne_empty, h.ne_dot]

/-- Whatever an id is, the path of its content begins with the owner. -/
theorem segments_ofFile_eq (owner : Int) (id : String) :
    segments (ofFile owner id) = toString owner :: segments id := by
  have hs := isSegment_toString owner
  have hsplit : Text.split '/' (ofFile owner id) = toString owner :: Text.split '/' id := by
    have hlist : (ofFile owner id).toList = (toString owner).toList ++ '/' :: id.toList := by
      simp only [ofFile, String.toList_append]
      simp
    rw [Text.split, hlist, Text.splitAtChar_append hs.noSlash, List.map_cons, String.ofList_toList]
    rfl
  rw [segments, hsplit]
  exact List.filter_cons_of_pos hs.namesSomething

theorem segments_ofFile {owner : Int} {id : String} (h : IsSegment id) :
    segments (ofFile owner id) = ofIds owner id := by
  rw [segments_ofFile_eq, segments_of_isSegment h]
  rfl

theorem head?_ne_slash {s : String} (h : IsSegment s) (rest : String) : (s ++ rest).toList.head? ≠ some '/' := by
  intro hh
  rw [String.toList_append] at hh
  cases hl : s.toList with
  | nil => exact h.ne_empty (by simpa using hl)
  | cons c cs =>
    rw [hl] at hh
    simp only [List.cons_append, List.head?_cons, Option.some.injEq] at hh
    exact h.noSlash (by rw [hl, hh]; simp)

theorem resolve_toString (owner : Int) : resolve (toString owner) = .ok (ofOwner owner) := by
  have hs := isSegment_toString owner
  have hhead := head?_ne_slash hs ""
  simp only [String.append_empty] at hhead
  rw [resolve, segments_of_isSegment hs]
  simp only [hhead, List.mem_singleton, hs.ne_dotdot.symm, List.cons_ne_nil, or_false, if_false]
  rfl

theorem resolve_ofFile {id : String} (owner : Int) (h : IsSegment id) :
    resolve (ofFile owner id) = .ok (ofIds owner id) := by
  have hs := isSegment_toString owner
  have hhead := head?_ne_slash hs ("/" ++ id)
  rw [← String.append_assoc] at hhead
  rw [resolve, segments_ofFile h]
  simp only [ofFile, ofIds, hhead, List.mem_cons, hs.ne_dotdot.symm, h.ne_dotdot.symm,
    List.not_mem_nil, List.cons_ne_nil, or_false, if_false]

end BlobPath

end FileDepot
