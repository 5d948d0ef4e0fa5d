import FileDepot.Proofs.Traffic.Statements

/-!
# The forest under traffic

However requests overtake each other, each of their accesses is a single statement that checks what it relies
on. So the folders form a forest at every moment, in which the finished files lie.
-/

namespace FileDepot

open Database

namespace Traffic

theorem write_step {s : Traffic} (hw : s.depot.db.IsWhole) (move : Move) :
    Write s.depot.db (s.step move).depot.db := by
  cases move with
  | createUser username quota createdAt => exact .users (onlyUsers_createUser s.depot.db username quota createdAt)
  | setQuota id quota => exact .users (onlyUsers_setQuota s.depot.db id quota)
  | arrive o => exact .refl s.depot.db
  | advance n =>
    simp only [step]
    split
    · exact .refl s.depot.db
    · next r hr =>
      simp only [r.db_step]
      exact r.write_dbAfter hw
  | receive n e =>
    simp only [step]
    split <;> exact .refl s.depot.db

theorem sound_run {s : Traffic} (hs : s.depot.db.Sound) (moves : List Move) :
    (s.run moves).depot.db.Sound := by
  induction moves generalizing s with
  | nil => exact hs
  | cons move rest ih => exact ih ((write_step hs.whole move).sound hs)

/-- Under any traffic, at every moment: each folder and each finished file lies at the top level or in a
    folder of its owner; from each folder there is a way up to the top level that visits no folder twice, which
    is what walks and breadcrumbs find; these fail only for a folder that is not there; and the next move
    removes no folder in which a folder or a finished file lies. -/
theorem forest_never_breaks (moves : List Move) :
    let s := fresh.run moves
    (∀ f ∈ s.depot.db.folderRows, IsParent s.depot.db.folderRows f.ownerId f.parent) ∧
      (∀ f ∈ s.depot.db.fileRows, f.state = .complete →
        IsParent s.depot.db.folderRows f.ownerId f.parent) ∧
      (∀ f ∈ s.depot.db.folderRows, ∃ path,
        Ascent s.depot.db.folderRows f path ∧ (path.map Folder.id).Nodup ∧
          ∀ ref, FolderRef.normalize ref = f.id → f.id ≠ "" →
            s.depot.db.ancestors f.ownerId ref = .ok path ∧
              s.depot.db.breadcrumbs f.ownerId ref =
                .ok ((path.drop 1).map Breadcrumb.ofFolder ++ [Breadcrumb.root])) ∧
      (∀ owner ref e,
        s.depot.db.ancestors owner ref = .error e ∨ s.depot.db.breadcrumbs owner ref = .error e →
          e = .notFound "folder") ∧
      ∀ move, ∀ f ∈ s.depot.db.folderRows, f ∉ (s.step move).depot.db.folderRows →
        s.depot.db.IsBare f.id f.ownerId := by
  intro s
  have hs : s.depot.db.Sound := sound_run sound_fresh moves
  refine ⟨?_, hs.housed, ?_, ?_, ?_⟩
  · intro f hf
    exact hs.grown.isParent hf
  · intro f hf
    obtain ⟨path, hpath, hn⟩ := hs.grown.ascent hf
    refine ⟨path, hpath, hn, ?_⟩
    intro ref href hne
    exact ⟨hs.ancestors_of_mem hf hpath hn href hne, hs.breadcrumbs_of_mem hf hpath hn href hne⟩
  · rintro owner ref e (ha | hb)
    · exact hs.ancestors_error ha
    · exact hs.breadcrumbs_error hb
  · intro move f hf hgone
    exact (write_step hs.whole move).bare_of_gone hf hgone

end Traffic

end FileDepot
