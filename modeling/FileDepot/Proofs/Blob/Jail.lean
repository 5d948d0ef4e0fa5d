import FileDepot.Proofs.Blob.Path

/-!
# Paths stay below the root

Which texts are paths, told by what stands between their slashes, and where these paths lead when they are
followed from the root, one piece after the other. No path leads out of the root, none leads from one owner to
another, and no two files have a path in common.
-/

namespace FileDepot

namespace Text

theorem splitAtChar_eq_splitOn (c : Char) (cs : List Char) : splitAtChar c cs = cs.splitOn c := by
  induction cs with
  | nil => rfl
  | cons d rest ih =>
    rw [splitAtChar, ih, List.splitOn_cons_eq_if_modifyHead]
    cases hrest : rest.splitOn c with
    | nil => exact absurd hrest (List.splitOn_ne_nil c rest)
    | cons part parts => rfl

theorem notMem_of_mem_splitAtChar {c : Char} {cs part : List Char} (h : part ∈ splitAtChar c cs) : c ∉ part := by
  induction cs generalizing part with
  | nil =>
    rw [List.mem_singleton.mp h]
    exact List.not_mem_nil
  | cons d rest ih =>
    simp only [splitAtChar, beq_iff_eq] at h
    split at h
    · rcases List.mem_cons.mp h with rfl | h
      · exact List.not_mem_nil
      · exact ih h
    · next hd =>
      cases hrest : splitAtChar c rest with
      | nil =>
        rw [splitAtChar_eq_splitOn] at hrest
        exact absurd hrest (List.splitOn_ne_nil c rest)
      | cons first others =>
        simp only [hrest, List.mem_cons] at h ih
        rcases h with rfl | h
        · rw [List.mem_cons, not_or]
          exact ⟨fun heq => hd heq.symm, ih (Or.inl rfl)⟩
        · exact ih (Or.inr h)

end Text

namespace BlobPath

/-- What stands between the slashes of a text: pieces without slashes, at least one, that make the text when they
    are joined by slashes. -/
structure Pieces (rel : String) (pieces : List String) : Prop where
  joined : String.intercalate "/" pieces = rel
  ne_nil : pieces ≠ []
  noSlash : ∀ piece ∈ pieces, '/' ∉ piece.toList

variable {rel : String} {pieces : List String} {root path : BlobPath} {owner : Int} {id : String}

namespace Pieces

/-- Every text has such pieces. -/
theorem of_split (rel : String) : Pieces rel (Text.split '/' rel) := by
  have hlists : (Text.split '/' rel).map String.toList = Text.splitAtChar '/' rel.toList := by
    simp [Text.split, Function.comp_def]
  refine ⟨?_, ?_, fun piece hpiece => ?_⟩
  · apply String.toList_inj.mp
    rw [String.toList_intercalate, hlists, Text.splitAtChar_eq_splitOn]
    exact List.intercalate_splitOn '/'
  · rw [Text.split, Text.splitAtChar_eq_splitOn, ne_eq, List.map_eq_nil_iff]
    exact List.splitOn_ne_nil '/' rel.toList
  · have hmem : piece.toList ∈ Text.splitAtChar '/' rel.toList := by
      rw [← hlists]
      exact List.mem_map_of_mem hpiece
    exact Text.notMem_of_mem_splitAtChar hmem

/-- And it has no others. -/
theorem eq_split (h : Pieces rel pieces) : pieces = Text.split '/' rel := by
  have hlists : rel.toList.splitOn '/' = pieces.map String.toList := by
    rw [← h.joined, String.toList_intercalate]
    refine List.splitOn_intercalate '/' (fun piece hpiece => ?_) ?_
    · obtain ⟨s, hs, rfl⟩ := List.mem_map.mp hpiece
      exact h.noSlash s hs
    · rw [ne_eq, List.map_eq_nil_iff]
      exact h.ne_nil
  simp [Text.split, Text.splitAtChar_eq_splitOn, hlists, Function.comp_def]

theorem segments_eq (h : Pieces rel pieces) :
    segments rel = pieces.filter fun piece => piece ≠ "" ∧ piece ≠ "." := by
  rw [segments, ← h.eq_split]
  refine List.filter_congr fun piece _ => ?_
  rw [Bool.eq_iff_iff]
  simp

end Pieces

/-! ## Following a path -/

/-- Where one piece of a path leads from a place: an empty one and a single dot stay, two dots go up. -/
def goTo (place : BlobPath) (piece : String) : BlobPath :=
  if piece = "" ∨ piece = "." then place
  else if piece = ".." then place.dropLast
  else place ++ [piece]

/-- Where pieces lead that are followed one after the other. -/
def walk (place : BlobPath) (pieces : List String) : BlobPath := pieces.foldl goTo place

/-- As long as no piece goes up, every piece that names something is one step down. -/
theorem walk_eq (h : ".." ∉ pieces) (place : BlobPath) :
    walk place pieces = place ++ pieces.filter fun piece => piece ≠ "" ∧ piece ≠ "." := by
  induction pieces generalizing place with
  | nil => exact (List.append_nil place).symm
  | cons piece rest ih =>
    obtain ⟨hne, hrest⟩ := List.ne_and_not_mem_of_not_mem_cons h
    have hnext : walk place (piece :: rest) = walk (goTo place piece) rest := rfl
    rw [hnext, ih hrest, goTo]
    by_cases hstay : piece = "" ∨ piece = "."
    · have hnames : ¬ (piece ≠ "" ∧ piece ≠ ".") := by tauto
      simp [hstay, hnames]
    · have hnames : piece ≠ "" ∧ piece ≠ "." := not_or.mp hstay
      simp [hnames, hne.symm]

/-- Whether a text is no path: it is empty or begins with a slash, two dots stand between its slashes, or nothing
    stands there but single dots. -/
def IsRefused (rel : String) (pieces : List String) : Prop :=
  rel = "" ∨ rel.toList.head? = some '/' ∨ ".." ∈ pieces ∨ ∀ piece ∈ pieces, piece = "" ∨ piece = "."

/-- A path below the root, made of the pieces that name something: no step on the way leaves the root, and
    whoever follows the pieces comes to the path. -/
structure IsBelow (pieces : List String) (path : BlobPath) : Prop where
  named : path = pieces.filter fun piece => piece ≠ "" ∧ piece ≠ "."
  ne_nil : path ≠ []
  segments : ∀ s ∈ path, IsSegment s
  inside : ∀ (root : BlobPath) first, first <+: pieces → root <+: walk root first
  reached : ∀ root : BlobPath, walk root pieces = root ++ path

/-- A text that is refused is refused as such, and any other one stands for a path below the root. -/
theorem resolve_cases (h : Pieces rel pieces) :
    (IsRefused rel pieces ∧ resolve rel = .error (.invalidPath rel)) ∨
      (¬ IsRefused rel pieces ∧ ∃ path, resolve rel = .ok path ∧ IsBelow pieces path) := by
  have hsegments := h.segments_eq
  have hup : ".." ∈ segments rel ↔ ".." ∈ pieces := by simp [hsegments]
  have hnone : segments rel = [] ↔ ∀ piece ∈ pieces, piece = "" ∨ piece = "." := by
    rw [hsegments, List.filter_eq_nil_iff]
    refine forall₂_congr fun piece _ => ?_
    simp only [decide_eq_true_eq]
    tauto
  have hempty : rel = "" → segments rel = [] := by
    rintro rfl
    rfl
  by_cases hrefused : rel.toList.head? = some '/' ∨ ".." ∈ segments rel ∨ segments rel = []
  · refine Or.inl ⟨?_, if_pos hrefused⟩
    rw [hup, hnone] at hrefused
    exact Or.inr hrefused
  · refine Or.inr ⟨?_, segments rel, if_neg hrefused, hsegments, ?_, ?_, ?_, ?_⟩
    · rintro (he | hslash | hdots | hstay)
      · exact hrefused (Or.inr (Or.inr (hempty he)))
      · exact hrefused (Or.inl hslash)
      · exact hrefused (Or.inr (Or.inl (hup.mpr hdots)))
      · exact hrefused (Or.inr (Or.inr (hnone.mpr hstay)))
    · exact fun hnil => hrefused (Or.inr (Or.inr hnil))
    · intro s hs
      have hdots : s ≠ ".." := by
        rintro rfl
        exact hrefused (Or.inr (Or.inl hs))
      rw [hsegments, List.mem_filter, decide_eq_true_eq] at hs
      exact ⟨hs.2.1, hs.2.2, hdots, h.noSlash s hs.1⟩
    · intro root first hfirst
      rw [walk_eq fun hmem => hrefused (Or.inr (Or.inl (hup.mpr (hfirst.subset hmem))))]
      exact List.prefix_append _ _
    · intro root
      rw [walk_eq fun hmem => hrefused (Or.inr (Or.inl (hup.mpr hmem))), ← hsegments]

/-! ## Contents of owners -/

/-- The path of a content begins with its owner, or there is none. -/
theorem resolve_ofFile_cases (owner : Int) (id : String) :
    resolve (ofFile owner id) = .error (.invalidPath (ofFile owner id)) ∨
      ∃ below, resolve (ofFile owner id) = .ok (toString owner :: below) := by
  rw [resolve, segments_ofFile_eq]
  split
  · exact Or.inl rfl
  · exact Or.inr ⟨segments id, rfl⟩

/-- What begins with one owner does not begin with another. -/
theorem not_prefix_of_ne {other : Int} (h : other ≠ owner) (below : BlobPath) :
    ¬ ofOwner other <+: toString owner :: below := by
  rintro ⟨rest, hrest⟩
  exact h (toString_inj (List.cons.inj hrest).1)

/-- Files whose ids are ordinary segments share a path only if they are the same file. -/
theorem resolve_ofFile_inj {owner' : Int} {id' : String} (h : IsSegment id) (h' : IsSegment id') :
    resolve (ofFile owner id) = resolve (ofFile owner' id') ↔ owner = owner' ∧ id = id' := by
  rw [resolve_ofFile owner h, resolve_ofFile owner' h', Except.ok.injEq, ofIds_inj]

/-- The root is a jail, and contents have places of their own in it. Every text is refused or stands for a path
    strictly below the root, depending on what stands between its slashes alone. The path of a content begins
    with its owner or is refused, whatever the id is, and so it is in the directory of no other owner. And two
    files whose ids are ordinary segments never have the same path. -/
theorem paths_stay_below_root :
    (∀ rel, ∃! pieces, Pieces rel pieces) ∧
      (∀ rel pieces, Pieces rel pieces →
        (IsRefused rel pieces ∧ resolve rel = .error (.invalidPath rel)) ∨
          (¬ IsRefused rel pieces ∧ ∃ path, resolve rel = .ok path ∧ IsBelow pieces path)) ∧
      (∀ owner id, resolve (ofFile owner id) = .error (.invalidPath (ofFile owner id)) ∨
        ∃ below, resolve (ofFile owner id) = .ok (toString owner :: below) ∧
          ∀ other, other ≠ owner → ¬ ofOwner other <+: toString owner :: below) ∧
      ∀ owner id owner' id', IsSegment id → IsSegment id' →
        (resolve (ofFile owner id) = resolve (ofFile owner' id') ↔ owner = owner' ∧ id = id') := by
  refine ⟨fun rel => ⟨_, .of_split rel, fun _ h => h.eq_split⟩, fun rel pieces h => resolve_cases h,
    fun owner id => ?_, fun owner id owner' id' h h' => resolve_ofFile_inj h h'⟩
  rcases resolve_ofFile_cases owner id with hrefused | ⟨below, hok⟩
  · exact Or.inl hrefused
  · exact Or.inr ⟨below, hok, fun other hne => not_prefix_of_ne hne below⟩

/-- A path with a doubled slash, a dot and a slash at its end, and the paths of the files `f` and `g`. -/
theorem paths_stay_below_root_of_docs :
    Pieces "docs//./a/" ["docs", "", ".", "a", ""] ∧ resolve "docs//./a/" = .ok ["docs", "a"] ∧
      IsSegment "f" ∧ IsSegment "g" ∧ resolve (ofFile 1 "f") ≠ resolve (ofFile 1 "g") := by
  have hpieces : Pieces "docs//./a/" ["docs", "", ".", "a", ""] := ⟨by decide, by decide, by decide⟩
  have hf : IsSegment "f" := ⟨by decide, by decide, by decide, by decide⟩
  have hg : IsSegment "g" := ⟨by decide, by decide, by decide, by decide⟩
  obtain ⟨-, hcases, -, hinj⟩ := paths_stay_below_root
  refine ⟨hpieces, ?_, hf, hg, fun heq => ?_⟩
  · rcases hcases _ _ hpieces with ⟨hrefused, -⟩ | ⟨-, path, hok, hbelow⟩
    · revert hrefused
      unfold IsRefused
      decide
    · rw [hok, hbelow.named]
      rfl
  · exact absurd ((hinj 1 "f" 1 "g" hf hg).mp heq).2 (by decide)

end BlobPath

end FileDepot
