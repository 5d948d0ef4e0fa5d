import FileDepot.Proofs.Blob.Tree

/-!
# Contents that are taken away

What a tree tells about a place, and what is told once a content has been taken away. The trees and the paths
are arbitrary here: all that is known of a place is that a content is found there, or nothing.
-/

namespace FileDepot

namespace BlobTree

open BlobPath

variable {t : BlobTree} {path q : BlobPath} {rel : String} {content : Bytes}

/-- Whether a content is found at a path, or nothing. -/
def HoldsAtMostBlob (t : BlobTree) (rel : String) : Prop :=
  t.contains rel = .ok false ∨ ∃ content, t.open? rel = .ok (.blob content)

theorem get?_of_follow (above q : BlobPath) (h : t.follow above q = .ok (some (.blob content))) :
    t.get? (above ++ q) = some (.blob content) := by
  induction above, q using follow.induct t with
  | case1 above => simp [follow] at h
  | case2 above s hs => simp [follow, hs] at h
  | case3 above s hs => simpa [follow, hs] using h
  | case4 above s rest hne hs => simp [follow, hs] at h
  | case5 above s rest hne hs hget => simp [follow, hs, hget] at h
  | case6 above s rest hne hs b hget => simp [follow, hs, hget] at h
  | case7 above s rest hne hs hget ih =>
    have hrest := ih (by simpa [follow, hs, hget, hne] using h)
    rwa [List.append_assoc] at hrest

/-- Once a content is taken away, every place that can be reached is as it was, or nothing is found there. -/
theorem follow_erase (hp : t.get? path = some (.blob content)) (above q : BlobPath) :
    t.follow above q = .error .unusable ∨ (t.erase path).follow above q = t.follow above q ∨
      (t.erase path).follow above q = .ok none := by
  induction above, q using follow.induct t with
  | case1 above => exact Or.inr (Or.inl (by simp only [follow]))
  | case2 above s hs => exact Or.inl (by simp only [follow, hs, if_true])
  | case3 above s hs =>
    simp only [follow, hs, get?_erase]
    by_cases heq : above ++ [s] = path
    · exact Or.inr (Or.inr (by simp [heq]))
    · exact Or.inr (Or.inl (by simp [heq]))
  | case4 above s rest hne hs => exact Or.inl (by simp [follow, hs])
  | case5 above s rest hne hs hget =>
    refine Or.inr (Or.inl ?_)
    have hget' : (t.erase path).get? (above ++ [s]) = none := by
      rw [get?_erase, hget]
      exact ite_self none
    simp [follow, hs, hget, hget']
  | case6 above s rest hne hs b hget => exact Or.inl (by simp [follow, hs, hget])
  | case7 above s rest hne hs hget ih =>
    have hget' : (t.erase path).get? (above ++ [s]) = some .directory := by
      rw [get?_erase, if_neg, hget]
      intro heq
      rw [heq, hp] at hget
      cases hget
    simpa [follow, hs, hget, hget', hne] using ih

theorem locate_erase (hp : t.get? path = some (.blob content)) (q : BlobPath) :
    t.locate q = .error .unusable ∨ (t.erase path).locate q = t.locate q ∨
      (t.erase path).locate q = .ok none := by
  unfold locate
  by_cases hu : isUnusable q = true
  · exact Or.inl (by rw [if_pos hu])
  · simp only [if_neg hu]
    exact follow_erase hp [] q

/-- What is taken away can be seen nowhere any more, and nothing new can be seen. -/
theorem contains_erase (hp : t.get? path = some (.blob content)) (h : t.contains rel = .ok false) :
    (t.erase path).contains rel = .ok false := by
  unfold contains at h ⊢
  cases hr : resolve rel with
  | error e => simp [hr] at h
  | ok q =>
    simp only [hr] at h ⊢
    rcases locate_erase hp q with hu | hsame | hnone
    · simp [hu] at h
    · rwa [hsame]
    · rw [hnone]
      rfl

theorem HoldsAtMostBlob.erase (h : t.HoldsAtMostBlob rel) (hp : t.get? path = some (.blob content)) :
    (t.erase path).HoldsAtMostBlob rel := by
  rcases h with hfalse | ⟨found, hopen⟩
  · exact Or.inl (contains_erase hp hfalse)
  · unfold open? at hopen
    cases hr : resolve rel with
    | error e => simp [hr] at hopen
    | ok q =>
      simp only [hr] at hopen
      rcases locate_erase hp q with hu | hsame | hnone
      · simp [hu] at hopen
      · refine Or.inr ⟨found, ?_⟩
        simp only [open?, hr, hsame]
        exact hopen
      · exact Or.inl (by simp only [contains, hr, hnone]; rfl)

/-- Where at most a content is found, its removal succeeds or finds that it is gone already, and it is gone
    afterwards. -/
theorem HoldsAtMostBlob.remove_cases (h : t.HoldsAtMostBlob rel) :
    (t.remove rel = .error (.notFound rel) ∧ t.contains rel = .ok false) ∨
      ∃ path content, resolve rel = .ok path ∧ t.get? path = some (.blob content) ∧
        t.remove rel = .ok (t.erase path) ∧ (t.erase path).contains rel = .ok false := by
  rcases h with hfalse | ⟨content, hopen⟩
  · refine Or.inl ⟨?_, hfalse⟩
    unfold contains at hfalse
    unfold remove
    cases hr : resolve rel with
    | error e => simp [hr] at hfalse
    | ok q =>
      simp only [hr] at hfalse ⊢
      cases hl : t.locate q with
      | error fault =>
        cases fault with
        | missing => rfl
        | unusable => simp [hl] at hfalse
      | ok found =>
        cases found with
        | none => rfl
        | some entry => simp [hl] at hfalse
  · unfold open? at hopen
    cases hr : resolve rel with
    | error e => simp [hr] at hopen
    | ok q =>
      simp only [hr] at hopen
      have hl : t.locate q = .ok (some (.blob content)) := by
        split at hopen
        · cases hopen
        · cases hopen
        · next entry hentry =>
          cases hopen
          exact hentry
      have husable : ¬ isUnusable q = true := by
        intro hu
        rw [locate, if_pos hu] at hl
        cases hl
      have hfollow : t.follow [] q = .ok (some (.blob content)) := by rwa [locate, if_neg husable] at hl
      have hget : t.get? q = some (.blob content) := get?_of_follow [] q hfollow
      refine Or.inr ⟨q, content, rfl, hget, by simp only [remove, hr, hl], ?_⟩
      rcases locate_erase hget q with hu | hsame | hnone
      · rw [hl] at hu
        cases hu
      · -- The place would still lead to the content that was taken away.
        rw [hl, locate, if_neg husable] at hsame
        have hstill := get?_of_follow [] q hsame
        rw [List.nil_append, get?_erase, if_pos rfl] at hstill
        cases hstill
      · simp only [contains, hr, hnone]
        rfl

/-- What a removal does that succeeds: a content was there, it is taken away, and nothing is found in its place. -/
theorem remove_eq_ok {t' : BlobTree} (h : t.remove rel = .ok t') :
    ∃ path content, resolve rel = .ok path ∧ t.get? path = some (.blob content) ∧ t' = t.erase path ∧
      t'.contains rel = .ok false := by
  have hholds : t.HoldsAtMostBlob rel := by
    unfold remove at h
    cases hr : resolve rel with
    | error e => simp [hr] at h
    | ok q =>
      simp only [hr] at h
      split at h
      · cases h
      · cases h
      · cases h
      · next content hl => exact Or.inr ⟨content, by simp only [open?, hr, hl]⟩
  rcases hholds.remove_cases with ⟨hgone, -⟩ | ⟨path, content, hpath, hget, hok, hfalse⟩
  · rw [h] at hgone
    cases hgone
  · obtain rfl := Except.ok.inj (h.symm.trans hok)
    exact ⟨path, content, hpath, hget, rfl, hfalse⟩

/-- A removal fails because nothing is there only if nothing is there. -/
theorem contains_of_remove {found : String} (h : t.remove rel = .error (.notFound found)) :
    t.contains rel = .ok false := by
  unfold remove at h
  cases hr : resolve rel with
  | error e =>
    simp only [hr, Except.error.injEq] at h
    subst h
    simp only [resolve] at hr
    split at hr <;> cases hr
  | ok q =>
    simp only [hr] at h
    simp only [contains, hr]
    split at h
    · next fault hl =>
      cases fault with
      | missing => rw [hl]
      | unusable => cases h
    · next hl => rw [hl]; rfl
    · cases h
    · cases h

end BlobTree

end FileDepot
