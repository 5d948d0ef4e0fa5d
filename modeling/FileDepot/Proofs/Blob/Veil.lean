import FileDepot.Proofs.Blob.Tree

/-!
# A tree without one content

A tree that is seen with the content of one file, and the tree that would be there without that file. Whatever
is done to the contents of other files ends in the same way in both, and the two differ as before.
-/

namespace FileDepot

namespace BlobTree

open BlobPath

/-- `alone` is `seen` without the content of one file, and perhaps without the directory made for it. -/
structure Veiled (owner : Int) (id : String) (seen alone : BlobTree) : Prop where
  elsewhere : ∀ q, q ≠ ofIds owner id → q ≠ ofOwner owner → alone.get? q = seen.get? q
  vacant : alone.get? (ofIds owner id) = none
  directory : alone.get? (ofOwner owner) = seen.get? (ofOwner owner) ∨
    alone.get? (ofOwner owner) = none ∧ seen.get? (ofOwner owner) = some .directory

variable {owner o : Int} {id i : String} {seen alone seen' alone' t : BlobTree}

namespace Tidy

theorem makeDirectory_fst (h : t.Tidy) (o : Int) :
    (t.makeDirectory (toString o)).1 =
      if hasRoomFor (toString o) then .ok () else .error (PathFault.unusable.toError (toString o)) := by
  rw [makeDirectory_toString (h.ofOwner_ne_blob o)]
  split <;> rfl

theorem create_of_directory (h : t.Tidy) (hi : IsSegment i) (hdir : t.get? (ofOwner o) = some .directory) :
    t.create (ofFile o i) =
      if fits o i then .ok (t.put (ofIds o i) (.blob [])) else .error (PathFault.unusable.toError (ofFile o i)) := by
  simp only [BlobTree.create, resolve_ofFile o hi, locate_ofIds i hdir]
  by_cases hf : fits o i
  · simp only [hf, if_true]
    cases hg : t.get? (ofIds o i) with
    | none => rfl
    | some e =>
      cases e with
      | directory => exact absurd hg (h.ofIds_ne_directory o i)
      | blob content => rfl
  · simp only [hf, Bool.false_eq_true, if_false]

/-- Directories of owners are there or not. -/
theorem ofOwner_cases (h : t.Tidy) (o : Int) :
    t.get? (ofOwner o) = none ∨ t.get? (ofOwner o) = some .directory := by
  cases hg : t.get? (ofOwner o) with
  | none => exact Or.inl rfl
  | some e =>
    cases e with
    | directory => exact Or.inr rfl
    | blob content => exact absurd hg (h.ofOwner_ne_blob o content)

/-- Where the directory of an owner is missing, nothing is there below it. -/
theorem get?_below (h : t.Tidy) (hnone : t.get? (ofOwner o) = none) {below : BlobPath} (hbelow : below ≠ []) :
    t.get? (ofOwner o ++ below) = none := by
  cases hg : t.get? (ofOwner o ++ below) with
  | none => rfl
  | some entry =>
    rcases h _ _ hg with ⟨-, owner, ho⟩ | ⟨-, owner, id, ho, -, hdir⟩
    · simp [ofOwner, hbelow] at ho
    · have howner : ofOwner o = ofOwner owner := congrArg (List.take 1) ho
      rw [← howner, hnone] at hdir
      cases hdir

end Tidy

namespace Veiled

theorem refl (h : t.get? (ofIds owner id) = none) : Veiled owner id t t :=
  ⟨fun _ _ _ => rfl, h, Or.inl rfl⟩

/-- All other contents are the same. -/
theorem blob_iff (h : Veiled owner id seen alone) (hs : seen.Tidy) (ha : alone.Tidy) {q : BlobPath}
    (hq : q ≠ ofIds owner id) (content : Bytes) :
    seen.get? q = some (.blob content) ↔ alone.get? q = some (.blob content) := by
  by_cases hqo : q = ofOwner owner
  · subst hqo
    exact ⟨fun hg => absurd hg (hs.ofOwner_ne_blob owner content),
      fun hg => absurd hg (ha.ofOwner_ne_blob owner content)⟩
  · rw [h.elsewhere q hq hqo]

/-- What the file itself does is not seen without it. -/
theorem of_confined (h : Veiled owner id seen alone) (ha : alone.Tidy)
    (hc : Confined owner id seen seen') : Veiled owner id seen' alone := by
  refine ⟨fun q hq hqo => ?_, h.vacant, ?_⟩
  · rw [h.elsewhere q hq hqo, hc.elsewhere q hq hqo]
  · rcases hc.directory with heq | hdir
    · rw [heq]
      exact h.directory
    · rw [hdir]
      rcases ha.ofOwner_cases owner with hnone | hsome
      · exact Or.inr ⟨hnone, rfl⟩
      · exact Or.inl hsome

/-- The same is done to the content of another file in both. -/
theorem of_same_change (h : Veiled owner id seen alone) (hi : i ≠ id) {e : Option BlobEntry}
    (hs : ∀ q, seen'.get? q = if q = ofIds o i then e else seen.get? q)
    (ha : ∀ q, alone'.get? q = if q = ofIds o i then e else alone.get? q) :
    Veiled owner id seen' alone' := by
  have hne : ofIds owner id ≠ ofIds o i := fun heq => hi (ofIds_inj.mp heq).2.symm
  have hno : ofOwner owner ≠ ofIds o i := (ofIds_ne_ofOwner o owner i).symm
  refine ⟨fun q hq hqo => ?_, ?_, ?_⟩
  · rw [hs, ha, h.elsewhere q hq hqo]
  · rw [ha, if_neg hne, h.vacant]
  · rw [hs, ha, if_neg hno, if_neg hno]
    exact h.directory

theorem of_get? (h : Veiled owner id seen alone) (hs : ∀ q, seen'.get? q = seen.get? q)
    (ha : ∀ q, alone'.get? q = alone.get? q) : Veiled owner id seen' alone' := by
  refine ⟨fun q hq hqo => ?_, ?_, ?_⟩
  · rw [hs, ha, h.elsewhere q hq hqo]
  · rw [ha, h.vacant]
  · rw [hs, ha]
    exact h.directory

theorem get?_ofIds (h : Veiled owner id seen alone) (hi : i ≠ id) :
    alone.get? (ofIds o i) = seen.get? (ofIds o i) :=
  h.elsewhere _ (fun heq => hi (ofIds_inj.mp heq).2) (ofIds_ne_ofOwner o owner i)

theorem makeDirectory (h : Veiled owner id seen alone) (hs : seen.Tidy) (ha : alone.Tidy) (o : Int) :
    (alone.makeDirectory (toString o)).1 = (seen.makeDirectory (toString o)).1 ∧
      Veiled owner id (seen.makeDirectory (toString o)).2 (alone.makeDirectory (toString o)).2 := by
  refine ⟨(ha.makeDirectory_fst o).trans (hs.makeDirectory_fst o).symm, ?_, ?_, ?_⟩
  · intro q hq hqo
    rw [hs.get?_makeDirectory, ha.get?_makeDirectory, h.elsewhere q hq hqo]
  · rw [ha.get?_makeDirectory, if_neg (fun hh => ofIds_ne_ofOwner owner o id hh.2), h.vacant]
  · rw [hs.get?_makeDirectory, ha.get?_makeDirectory]
    split
    · exact Or.inl rfl
    · exact h.directory

theorem create (h : Veiled owner id seen alone) (hs : seen.Tidy) (ha : alone.Tidy) (hi : IsSegment i)
    (hne : i ≠ id) (hds : seen.get? (ofOwner o) = some .directory)
    (hda : alone.get? (ofOwner o) = some .directory) :
    (∃ e, seen.create (ofFile o i) = .error e ∧ alone.create (ofFile o i) = .error e) ∨
      ∃ s a, seen.create (ofFile o i) = .ok s ∧ alone.create (ofFile o i) = .ok a ∧
        Veiled owner id s a := by
  rw [hs.create_of_directory hi hds, ha.create_of_directory hi hda]
  by_cases hf : fits o i
  · refine Or.inr ⟨_, _, if_pos hf, if_pos hf, ?_⟩
    exact h.of_same_change hne (get?_put seen _ · _) (get?_put alone _ · _)
  · exact Or.inl ⟨_, if_neg hf, if_neg hf⟩

theorem append (h : Veiled owner id seen alone) (hi : IsSegment i) (hne : i ≠ id) (bytes : Bytes) :
    Veiled owner id (seen.append (ofFile o i) bytes) (alone.append (ofFile o i) bytes) := by
  have hs := get?_append seen (resolve_ofFile o hi) bytes
  have ha := get?_append alone (resolve_ofFile o hi) bytes
  rw [h.get?_ofIds hne] at ha
  cases hg : seen.get? (ofIds o i) with
  | none =>
    simp only [hg] at hs ha
    exact h.of_get? hs ha
  | some entry =>
    cases entry with
    | directory =>
      simp only [hg] at hs ha
      exact h.of_get? hs ha
    | blob content =>
      simp only [hg] at hs ha
      exact h.of_same_change hne hs ha

theorem erase (h : Veiled owner id seen alone) (hne : i ≠ id) :
    Veiled owner id (seen.erase (ofIds o i)) (alone.erase (ofIds o i)) :=
  h.of_same_change hne (get?_erase seen (ofIds o i)) (get?_erase alone (ofIds o i))

theorem remove (h : Veiled owner id seen alone) (hs : seen.Tidy) (ha : alone.Tidy) (hi : IsSegment i)
    (hne : i ≠ id) :
    (∃ e e', seen.remove (ofFile o i) = .error e ∧ alone.remove (ofFile o i) = .error e') ∨
      ∃ s a, seen.remove (ofFile o i) = .ok s ∧ alone.remove (ofFile o i) = .ok a ∧
        Veiled owner id s a := by
  have hsame : alone.get? (ofIds o i) = seen.get? (ofIds o i) := h.get?_ofIds hne
  cases hg : seen.get? (ofIds o i) with
  | none =>
    obtain ⟨e, he⟩ := hs.remove_vacant hi hg
    obtain ⟨e', he'⟩ := ha.remove_vacant hi (hsame.trans hg)
    exact Or.inl ⟨e, e', he, he'⟩
  | some entry =>
    cases entry with
    | directory => exact absurd hg (hs.ofIds_ne_directory o i)
    | blob content =>
      exact Or.inr ⟨_, _, hs.remove_blob hi hg, ha.remove_blob hi (hsame.trans hg), h.erase hne⟩

end Veiled

end BlobTree

end FileDepot
