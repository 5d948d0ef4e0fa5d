import FileDepot.Blob.Tree
import FileDepot.Proofs.Blob.Path

/-!
# The tree of contents

What the operations of the blob tree do to the entry at each path. A tidy tree holds nothing but directories
of owners and contents of files, each content where it can be reached; the operations of the depot keep it so.
-/

namespace FileDepot

namespace BlobTree

open BlobPath

variable {t : BlobTree} {q path : BlobPath} {e : BlobEntry} {owner : Int} {id : String}

theorem lookup_filter_ne (entries : List (BlobPath × BlobEntry)) (path q : BlobPath) :
    (entries.filter fun entry => entry.1 != path).lookup q =
      if q = path then none else entries.lookup q := by
  induction entries with
  | nil => simp
  | cons entry rest ih =>
    obtain ⟨p, e⟩ := entry
    by_cases hp : p = path
    · subst hp
      rw [List.filter_cons_of_neg (by simp), ih]
      by_cases hq : q = p
      · rw [if_pos hq, if_pos hq]
      · rw [if_neg hq, if_neg hq, List.lookup_cons, beq_eq_false_iff_ne.mpr hq]
    · rw [List.filter_cons_of_pos (by simpa using hp)]
      by_cases hq : q = p
      · subst hq
        simp [hp]
      · simp [ih, List.lookup_cons, beq_eq_false_iff_ne.mpr hq]

theorem get?_erase (t : BlobTree) (path q : BlobPath) :
    (t.erase path).get? q = if q = path then none else t.get? q :=
  lookup_filter_ne t.entries path q

theorem get?_put (t : BlobTree) (path q : BlobPath) (e : BlobEntry) :
    (t.put path e).get? q = if q = path then some e else t.get? q := by
  have h : (t.put path e).get? q = ((t.erase path).get? q).or ([(path, e)].lookup q) := by
    simp only [get?, put, List.lookup_append]
  rw [h, get?_erase]
  by_cases hq : q = path
  · simp [hq]
  · simp [hq, List.lookup_cons, beq_eq_false_iff_ne.mpr hq]

theorem lookup_map_replace (entries : List (BlobPath × BlobEntry)) (path q : BlobPath) (e : BlobEntry) :
    (entries.map fun entry => if entry.1 == path then (path, e) else entry).lookup q =
      if q = path then (entries.lookup path).map fun _ => e else entries.lookup q := by
  induction entries with
  | nil => simp
  | cons entry rest ih =>
    obtain ⟨p, e'⟩ := entry
    by_cases hp : p = path
    · subst hp
      by_cases hq : q = p
      · simp [hq]
      · rw [if_neg hq] at ih
        simpa [hq, List.lookup_cons, beq_eq_false_iff_ne.mpr hq] using ih
    · by_cases hq : q = p
      · subst hq
        simp [hp]
      · have hpp : (path == p) = false := beq_eq_false_iff_ne.mpr (Ne.symm hp)
        simp only [List.map_cons, beq_iff_eq, hp, if_false, List.lookup_cons,
          beq_eq_false_iff_ne.mpr hq, hpp]
        simpa using ih

/-- What is written is added to the content at the path, if there is one. -/
theorem get?_append (t : BlobTree) {rel : String} {path : BlobPath} (h : resolve rel = .ok path)
    (bytes : Bytes) (q : BlobPath) :
    (t.append rel bytes).get? q =
      match t.get? path with
      | some (.blob content) => if q = path then some (.blob (content ++ bytes)) else t.get? q
      | _ => t.get? q := by
  simp only [append, h]
  cases hp : t.get? path with
  | none => rfl
  | some e =>
    cases e with
    | directory => rfl
    | blob content =>
      have hl := lookup_map_replace t.entries path q (.blob (content ++ bytes))
      have hc : t.entries.lookup path = some (.blob content) := hp
      rw [hc, Option.map_some] at hl
      exact hl

/-- What is written to a content ends up behind what was there. -/
theorem get?_append_self (hid : IsSegment id) {content : Bytes}
    (hg : t.get? (ofIds owner id) = some (.blob content)) (bytes : Bytes) :
    (t.append (ofFile owner id) bytes).get? (ofIds owner id) = some (.blob (content ++ bytes)) := by
  rw [get?_append t (resolve_ofFile owner hid), hg]
  simp

/-- A directory that is made right below the root. -/
theorem get?_addNested_single (t : BlobTree) (s : String) (q : BlobPath) :
    (t.addNested [] [s]).get? q = (t.get? q).or (if q = [s] then some .directory else none) := by
  have h : (t.addNested [] [s]).get? q = (t.get? q).or ([([s], BlobEntry.directory)].lookup q) := by
    simp [addNested, get?, List.lookup_append]
  rw [h]
  by_cases hq : q = [s]
  · simp [hq]
  · simp [hq, List.lookup_cons, beq_eq_false_iff_ne.mpr hq]

theorem get?_addNested_ofOwner (t : BlobTree) (owner : Int) (q : BlobPath) :
    (t.addNested [] (ofOwner owner)).get? q =
      (t.get? q).or (if q = ofOwner owner then some .directory else none) :=
  get?_addNested_single t (toString owner) q

/-- Whether a path of two segments can be used at all. -/
def fitsPair (first second : String) : Bool :=
  !isUnusable [first, second] && !isOverlong first && !isOverlong second

theorem locate_pair {first : String} (second : String) (h : t.get? [first] = some .directory) :
    t.locate [first, second] =
      if fitsPair first second then .ok (t.get? [first, second]) else .error .unusable := by
  simp only [locate, follow, List.nil_append, List.singleton_append, h, fitsPair]
  by_cases hu : isUnusable [first, second]
  · simp [hu]
  · by_cases hf : isOverlong first
    · simp [hu, hf]
    · by_cases hs : isOverlong second <;> simp [hu, hf, hs]

theorem locate_pair_of_none {first : String} (second : String) (h : t.get? [first] = none) :
    ∃ fault, t.locate [first, second] = .error fault := by
  simp only [locate, follow, List.nil_append, h]
  by_cases hu : isUnusable [first, second]
  · exact ⟨.unusable, by simp [hu]⟩
  · by_cases hf : isOverlong first
    · exact ⟨.unusable, by simp [hu, hf]⟩
    · exact ⟨.missing, by simp [hu, hf]⟩

/-- Whether the place of the content of a file can be used. -/
def fits (owner : Int) (id : String) : Bool := fitsPair (toString owner) id

/-- A content is reached through the directory of its owner. -/
theorem locate_ofIds (id : String) (h : t.get? (ofOwner owner) = some .directory) :
    t.locate (ofIds owner id) =
      if fits owner id then .ok (t.get? (ofIds owner id)) else .error .unusable :=
  locate_pair id h

/-- Without the directory of its owner no content is reached. -/
theorem locate_ofIds_of_none (id : String) (h : t.get? (ofOwner owner) = none) :
    ∃ fault, t.locate (ofIds owner id) = .error fault :=
  locate_pair_of_none id h

/-- Whether a directory can be made right below the root. -/
def hasRoomFor (s : String) : Bool := !isUnusable [s] && !isOverlong s

theorem makeAll_single {s : String} (ho : isOverlong s = false) :
    t.makeAll [] [s] = match t.get? [s] with
      | none => (.ok (), t.addNested [] [s])
      | some .directory => (.ok (), t)
      | some (.blob _) => (.error .unusable, t) := by
  rw [makeAll, ho, List.nil_append]
  cases hg : t.get? [s] with
  | none => simp [ho, List.takeWhile]
  | some e =>
    cases e with
    | directory => simp [makeAll]
    | blob content => rfl

/-- The directory of an owner is made unless it is there already, provided that there is room for it. -/
theorem makeDirectory_eq (t : BlobTree) (owner : Int) :
    t.makeDirectory (toString owner) =
      if hasRoomFor (toString owner) then
        match t.get? (ofOwner owner) with
        | none => (.ok (), t.addNested [] (ofOwner owner))
        | some .directory => (.ok (), t)
        | some (.blob _) => (.error (PathFault.unusable.toError (toString owner)), t)
      else (.error (PathFault.unusable.toError (toString owner)), t) := by
  rw [makeDirectory, resolve_toString, hasRoomFor]
  by_cases hu : isUnusable [toString owner]
  · simp only [ofOwner, hu, if_true, Bool.not_true, Bool.false_and, Bool.false_eq_true, if_false]
  · cases ho : isOverlong (toString owner) with
    | true =>
      simp only [ofOwner, hu, makeAll, ho, if_true, Bool.not_true, Bool.and_false, Bool.false_eq_true,
        if_false]
    | false =>
      simp only [ofOwner, hu, makeAll_single ho, Bool.not_false, Bool.and_true, Bool.false_eq_true,
        if_false, if_true]
      cases hg : t.get? [toString owner] with
      | none => rfl
      | some e => cases e <;> rfl

/-- The directory of an owner is made unless it is there already. -/
theorem makeDirectory_toString (h : ∀ content, t.get? (ofOwner owner) ≠ some (.blob content)) :
    t.makeDirectory (toString owner) =
      if hasRoomFor (toString owner) then
        (.ok (), if (t.get? (ofOwner owner)).isSome then t else t.addNested [] (ofOwner owner))
      else (.error (PathFault.unusable.toError (toString owner)), t) := by
  rw [makeDirectory_eq]
  cases hg : t.get? (ofOwner owner) with
  | none => rfl
  | some e =>
    cases e with
    | directory => rfl
    | blob content => exact absurd hg (h content)

/-- A tree that holds nothing but directories of owners and contents of files that can be reached. -/
def Tidy (t : BlobTree) : Prop :=
  ∀ q e, t.get? q = some e →
    (e = .directory ∧ ∃ owner, q = ofOwner owner) ∨
      (∃ content, e = .blob content) ∧ ∃ owner id, q = ofIds owner id ∧ fits owner id = true ∧
        t.get? (ofOwner owner) = some .directory

namespace Tidy

theorem empty : Tidy BlobTree.empty := by
  intro q e h
  cases h

theorem ofOwner_ne_blob (h : t.Tidy) (owner : Int) (content : Bytes) :
    t.get? (ofOwner owner) ≠ some (.blob content) := by
  intro hg
  rcases h _ _ hg with ⟨he, -⟩ | ⟨-, o, id, hq, -⟩
  · cases he
  · exact ofIds_ne_ofOwner o owner id hq.symm

theorem ofIds_ne_directory (h : t.Tidy) (owner : Int) (id : String) :
    t.get? (ofIds owner id) ≠ some .directory := by
  intro hg
  rcases h _ _ hg with ⟨-, o, hq⟩ | ⟨⟨content, he⟩, -⟩
  · exact ofIds_ne_ofOwner owner o id hq
  · cases he

/-- The place of a content that is there can be used, and the directory of its owner is there. -/
theorem reach (h : t.Tidy) {content : Bytes} (hg : t.get? (ofIds owner id) = some (.blob content)) :
    fits owner id = true ∧ t.get? (ofOwner owner) = some .directory := by
  rcases h _ _ hg with ⟨he, -⟩ | ⟨-, o, i, hq, hfits, hdir⟩
  · cases he
  · obtain ⟨rfl, rfl⟩ := ofIds_inj.mp hq
    exact ⟨hfits, hdir⟩

theorem locate_blob (h : t.Tidy) {content : Bytes}
    (hg : t.get? (ofIds owner id) = some (.blob content)) :
    t.locate (ofIds owner id) = .ok (some (.blob content)) := by
  obtain ⟨hfits, hdir⟩ := h.reach hg
  rw [locate_ofIds id hdir, hfits, hg]
  rfl

theorem open?_blob (h : t.Tidy) (hid : IsSegment id) {content : Bytes}
    (hg : t.get? (ofIds owner id) = some (.blob content)) :
    t.open? (ofFile owner id) = .ok (.blob content) := by
  simp only [open?, resolve_ofFile owner hid, h.locate_blob hg]

theorem remove_blob (h : t.Tidy) (hid : IsSegment id) {content : Bytes}
    (hg : t.get? (ofIds owner id) = some (.blob content)) :
    t.remove (ofFile owner id) = .ok (t.erase (ofIds owner id)) := by
  simp only [remove, resolve_ofFile owner hid, h.locate_blob hg]

/-- Nothing is removed where there is no content. -/
theorem remove_vacant (h : t.Tidy) (hid : IsSegment id) (hg : t.get? (ofIds owner id) = none) :
    ∃ e, t.remove (ofFile owner id) = .error e := by
  simp only [remove, resolve_ofFile owner hid]
  cases hdir : t.get? (ofOwner owner) with
  | none =>
    obtain ⟨fault, hl⟩ := locate_ofIds_of_none id hdir
    exact ⟨_, by rw [hl]⟩
  | some entry =>
    cases entry with
    | blob content => exact absurd hdir (h.ofOwner_ne_blob owner content)
    | directory =>
      rw [locate_ofIds id hdir, hg]
      by_cases hf : fits owner id
      · exact ⟨_, by rw [if_pos hf]⟩
      · exact ⟨_, by rw [if_neg hf]⟩

/-- The content is gone after an attempt to remove it, and every other entry is as it was. -/
theorem get?_remove (h : t.Tidy) (hid : IsSegment id) {t' : BlobTree}
    (hr : t.remove (ofFile owner id) = .ok t') (q : BlobPath) :
    t'.get? q = if q = ofIds owner id then none else t.get? q := by
  cases hg : t.get? (ofIds owner id) with
  | none =>
    obtain ⟨e, he⟩ := h.remove_vacant hid hg
    rw [he] at hr
    cases hr
  | some entry =>
    cases entry with
    | directory => exact absurd hg (h.ofIds_ne_directory owner id)
    | blob content =>
      rw [h.remove_blob hid hg] at hr
      cases hr
      exact get?_erase t _ q

theorem of_get? (h : t.Tidy) {t' : BlobTree} (hg : ∀ q, t'.get? q = t.get? q) : t'.Tidy := by
  intro q e hq
  rw [hg] at hq
  simpa only [hg] using h q e hq

/-- A tree stays tidy when a content that can be reached is put into its place. -/
theorem of_put (h : t.Tidy) (hfits : fits owner id = true)
    (hdir : t.get? (ofOwner owner) = some .directory) {content : Bytes} {t' : BlobTree}
    (hg : ∀ q, t'.get? q = if q = ofIds owner id then some (.blob content) else t.get? q) :
    t'.Tidy := by
  have hdirs : ∀ o, t'.get? (ofOwner o) = t.get? (ofOwner o) := by
    intro o
    rw [hg, if_neg (ofIds_ne_ofOwner owner o id).symm]
  intro q e hq
  rw [hg] at hq
  by_cases hqp : q = ofIds owner id
  · rw [if_pos hqp] at hq
    cases hq
    exact Or.inr ⟨⟨content, rfl⟩, owner, id, hqp, hfits, (hdirs owner).trans hdir⟩
  · rw [if_neg hqp] at hq
    rcases h q e hq with hleft | ⟨he, o, i, hoi, hf, hd⟩
    · exact Or.inl hleft
    · exact Or.inr ⟨he, o, i, hoi, hf, (hdirs o).trans hd⟩

/-- A tree stays tidy when a content is taken out. -/
theorem of_erase (h : t.Tidy) {t' : BlobTree}
    (hg : ∀ q, t'.get? q = if q = ofIds owner id then none else t.get? q) : t'.Tidy := by
  intro q e hq
  rw [hg] at hq
  by_cases hqp : q = ofIds owner id
  · rw [if_pos hqp] at hq
    cases hq
  · rw [if_neg hqp] at hq
    rcases h q e hq with hleft | ⟨he, o, i, hoi, hf, hd⟩
    · exact Or.inl hleft
    · refine Or.inr ⟨he, o, i, hoi, hf, ?_⟩
      rw [hg, if_neg (ofIds_ne_ofOwner owner o id).symm, hd]

theorem remove (h : t.Tidy) (hid : IsSegment id) {t' : BlobTree}
    (hr : t.remove (ofFile owner id) = .ok t') : t'.Tidy :=
  h.of_erase (h.get?_remove hid hr)

/-- The only entry that making the directory of an owner can change is that directory. -/
theorem get?_makeDirectory (h : t.Tidy) (owner : Int) (q : BlobPath) :
    (t.makeDirectory (toString owner)).2.get? q =
      if hasRoomFor (toString owner) = true ∧ q = ofOwner owner then some .directory
      else t.get? q := by
  rw [makeDirectory_toString (h.ofOwner_ne_blob owner)]
  by_cases hroom : hasRoomFor (toString owner)
  · simp only [hroom, if_true, true_and]
    cases hg : t.get? (ofOwner owner) with
    | none =>
      by_cases hq : q = ofOwner owner
      · rw [if_pos hq, hq]
        simp [hg, get?_addNested_ofOwner]
      · rw [if_neg hq]
        simp [hq, get?_addNested_ofOwner]
    | some e =>
      cases e with
      | directory =>
        by_cases hq : q = ofOwner owner
        · rw [if_pos hq, hq]
          simp [hg]
        · rw [if_neg hq]
          simp
      | blob content => exact absurd hg (h.ofOwner_ne_blob owner content)
  · rw [if_neg hroom, if_neg (fun hh => hroom hh.1)]

theorem makeDirectory_ok (h : t.Tidy) (hr : (t.makeDirectory (toString owner)).1 = .ok ()) :
    (t.makeDirectory (toString owner)).2.get? (ofOwner owner) = some .directory := by
  have hroom : hasRoomFor (toString owner) = true := by
    rw [makeDirectory_toString (h.ofOwner_ne_blob owner)] at hr
    by_contra hroom
    rw [if_neg hroom] at hr
    cases hr
  rw [h.get?_makeDirectory, if_pos ⟨hroom, rfl⟩]

theorem makeDirectory (h : t.Tidy) (owner : Int) : (t.makeDirectory (toString owner)).2.Tidy := by
  intro q e hq
  rw [h.get?_makeDirectory] at hq
  by_cases hqo : hasRoomFor (toString owner) = true ∧ q = ofOwner owner
  · rw [if_pos hqo] at hq
    cases hq
    exact Or.inl ⟨rfl, owner, hqo.2⟩
  · rw [if_neg hqo] at hq
    rcases h q e hq with hleft | ⟨he, o, i, hoi, hf, hd⟩
    · exact Or.inl hleft
    · refine Or.inr ⟨he, o, i, hoi, hf, ?_⟩
      rw [h.get?_makeDirectory]
      split
      · rfl
      · exact hd

/-- A content is created where it can be reached, and it is empty. -/
theorem create_ok (h : t.Tidy) (hid : IsSegment id) {t' : BlobTree}
    (hc : t.create (ofFile owner id) = .ok t') :
    t' = t.put (ofIds owner id) (.blob []) ∧ fits owner id = true ∧
      t.get? (ofOwner owner) = some .directory := by
  simp only [create, resolve_ofFile owner hid] at hc
  cases hdir : t.get? (ofOwner owner) with
  | none =>
    obtain ⟨fault, hl⟩ := locate_ofIds_of_none id hdir
    rw [hl] at hc
    cases hc
  | some e =>
    cases e with
    | blob content => exact absurd hdir (h.ofOwner_ne_blob owner content)
    | directory =>
      rw [locate_ofIds id hdir] at hc
      by_cases hf : fits owner id
      · rw [if_pos hf] at hc
        cases hg : t.get? (ofIds owner id) with
        | none =>
          rw [hg] at hc
          cases hc
          exact ⟨rfl, hf, rfl⟩
        | some e =>
          cases e with
          | directory => exact absurd hg (h.ofIds_ne_directory owner id)
          | blob content =>
            rw [hg] at hc
            cases hc
            exact ⟨rfl, hf, rfl⟩
      · rw [if_neg hf] at hc
        cases hc

theorem create (h : t.Tidy) (hid : IsSegment id) {t' : BlobTree}
    (hc : t.create (ofFile owner id) = .ok t') : t'.Tidy := by
  obtain ⟨rfl, hfits, hdir⟩ := h.create_ok hid hc
  exact h.of_put hfits hdir (get?_put t _ · _)

theorem append (h : t.Tidy) (owner : Int) (hid : IsSegment id) (bytes : Bytes) :
    (t.append (ofFile owner id) bytes).Tidy := by
  have hg := get?_append t (resolve_ofFile owner hid) bytes
  cases hp : t.get? (ofIds owner id) with
  | none =>
    simp only [hp] at hg
    exact h.of_get? hg
  | some e =>
    cases e with
    | directory => exact absurd hp (h.ofIds_ne_directory owner id)
    | blob content =>
      simp only [hp] at hg
      obtain ⟨hfits, hdir⟩ := h.reach hp
      exact h.of_put hfits hdir hg

end Tidy

/-- The entries that one file of an owner may change: its content and the directory of the owner, which is
    never taken away. -/
structure Confined (owner : Int) (id : String) (t t' : BlobTree) : Prop where
  tidy : t'.Tidy
  elsewhere : ∀ q, q ≠ ofIds owner id → q ≠ ofOwner owner → t'.get? q = t.get? q
  directory : t'.get? (ofOwner owner) = t.get? (ofOwner owner) ∨
    t'.get? (ofOwner owner) = some .directory

namespace Confined

variable {t' t'' : BlobTree}

theorem refl (h : t.Tidy) : Confined owner id t t := ⟨h, fun _ _ _ => rfl, Or.inl rfl⟩

theorem trans (h : Confined owner id t t') (h' : Confined owner id t' t'') : Confined owner id t t'' where
  tidy := h'.tidy
  elsewhere q hq hqo := (h'.elsewhere q hq hqo).trans (h.elsewhere q hq hqo)
  directory := by
    rcases h'.directory with heq | hdir
    · rw [heq]
      exact h.directory
    · exact Or.inr hdir

/-- Directories stay. -/
theorem ofOwner_directory (h : Confined owner id t t') {o : Int}
    (hdir : t.get? (ofOwner o) = some .directory) : t'.get? (ofOwner o) = some .directory := by
  by_cases ho : ofOwner o = ofOwner owner
  · rw [ho] at hdir ⊢
    rcases h.directory with heq | hd
    · rw [heq, hdir]
    · exact hd
  · rw [h.elsewhere _ (ofIds_ne_ofOwner owner o id).symm ho, hdir]

/-- The contents of other files stay. -/
theorem ofIds_of_ne (h : Confined owner id t t') {o : Int} {i : String} (hi : i ≠ id) :
    t'.get? (ofIds o i) = t.get? (ofIds o i) :=
  h.elsewhere _ (fun heq => hi (ofIds_inj.mp heq).2) (ofIds_ne_ofOwner o owner i)

theorem of_content (h : t'.Tidy) (hg : ∀ q, q ≠ ofIds owner id → t'.get? q = t.get? q) :
    Confined owner id t t' :=
  ⟨h, fun q hq _ => hg q hq, Or.inl (hg _ (ofIds_ne_ofOwner owner owner id).symm)⟩

end Confined

namespace Tidy

theorem confined_makeDirectory (h : t.Tidy) (owner : Int) (id : String) :
    Confined owner id t (t.makeDirectory (toString owner)).2 := by
  refine ⟨h.makeDirectory owner, fun q _ hq => ?_, ?_⟩
  · rw [h.get?_makeDirectory, if_neg (fun hh => hq hh.2)]
  · rw [h.get?_makeDirectory]
    split
    · exact Or.inr rfl
    · exact Or.inl rfl

theorem confined_create (h : t.Tidy) (hid : IsSegment id) {t' : BlobTree}
    (hc : t.create (ofFile owner id) = .ok t') : Confined owner id t t' := by
  refine .of_content (h.create hid hc) fun q hq => ?_
  rw [(h.create_ok hid hc).1, get?_put, if_neg hq]

theorem confined_append (h : t.Tidy) (owner : Int) (hid : IsSegment id) (bytes : Bytes) :
    Confined owner id t (t.append (ofFile owner id) bytes) := by
  refine .of_content (h.append owner hid bytes) fun q hq => ?_
  rw [get?_append t (resolve_ofFile owner hid)]
  split
  · rw [if_neg hq]
  · rfl

theorem confined_remove (h : t.Tidy) (hid : IsSegment id) {t' : BlobTree}
    (hr : t.remove (ofFile owner id) = .ok t') : Confined owner id t t' := by
  refine .of_content (h.remove hid hr) fun q hq => ?_
  rw [h.get?_remove hid hr, if_neg hq]

/-- An attempt to remove a content leaves none, whether or not it succeeds. -/
theorem remove_cases (h : t.Tidy) (owner : Int) (hid : IsSegment id) :
    (∃ e, t.remove (ofFile owner id) = .error e ∧ t.get? (ofIds owner id) = none) ∨
      ∃ t', t.remove (ofFile owner id) = .ok t' ∧ t'.get? (ofIds owner id) = none := by
  cases hg : t.get? (ofIds owner id) with
  | none =>
    obtain ⟨e, he⟩ := h.remove_vacant hid hg
    exact Or.inl ⟨e, he, rfl⟩
  | some entry =>
    cases entry with
    | directory => exact absurd hg (h.ofIds_ne_directory owner id)
    | blob content =>
      refine Or.inr ⟨_, h.remove_blob hid hg, ?_⟩
      rw [get?_erase, if_pos rfl]

end Tidy

end BlobTree

end FileDepot
