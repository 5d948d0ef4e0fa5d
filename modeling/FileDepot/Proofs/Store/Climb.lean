import FileDepot.Proofs.Store.Tour

/-!
# Climbs in any table of folders

What a climb towards the top level answers where nothing is known of the parents of folders: they may be
missing, belong to others or lead round in circles. A climb ends at the top level, at the first folder that it
comes to a second time, or at a folder whose parent is missing, and it tells which.
-/

namespace FileDepot

namespace Database

variable {db : Database} {rows : List Folder} {owner : Int} {bound : Nat} {seen : List String}
  {f g x y : Folder} {passed before after : List Folder}

/-! ## Passing folders -/

/-- From the folder `f` one comes past the folders `passed` to the folder `x`, going from each folder to its
    parent. -/
inductive Passes (rows : List Folder) : Folder → List Folder → Folder → Prop
  | here {f : Folder} : Passes rows f [] f
  | up {f g x : Folder} {passed : List Folder} (hp : f.parent ≠ "")
      (hg : findFolder rows f.parent f.ownerId = some g) (h : Passes rows g passed x) :
      Passes rows f (f :: passed) x

/-- A folder from which there is no way on: it lies at the top level, or its parent is missing. -/
def IsEnd (rows : List Folder) (x : Folder) : Prop :=
  x.parent = "" ∨ findFolder rows x.parent x.ownerId = none

namespace Passes

theorem mem (h : Passes rows f passed x) (hf : f ∈ rows) :
    ∀ g ∈ passed ++ [x], g ∈ rows ∧ g.ownerId = f.ownerId := by
  induction h with
  | here =>
    intro g hg
    rw [List.mem_singleton.mp hg]
    exact ⟨hf, rfl⟩
  | @up f parent x passed hp hfind h ih =>
    obtain ⟨hmem, -, hown⟩ := findFolder_some hfind
    intro g hg
    rcases List.mem_cons.mp hg with rfl | hg
    · exact ⟨hf, rfl⟩
    · obtain ⟨hgmem, hgown⟩ := ih hmem g hg
      exact ⟨hgmem, hgown.trans hown⟩

/-- Of two walks from the same folder one continues the other. -/
theorem compare (h : Passes rows f before x) (h' : Passes rows f after y) :
    (∃ rest, after = before ++ rest ∧ Passes rows x rest y) ∨
      ∃ rest, before = after ++ rest ∧ Passes rows y rest x := by
  induction h generalizing after with
  | @here f => exact Or.inl ⟨after, rfl, h'⟩
  | @up f g x passed hp hg h ih =>
    cases h' with
    | here => exact Or.inr ⟨_ :: passed, rfl, .up hp hg h⟩
    | @up _ g' _ passed' hp' hg' h' =>
      obtain rfl : g = g' := Option.some.inj (hg.symm.trans hg')
      rcases ih h' with ⟨rest, rfl, hrest⟩ | ⟨rest, rfl, hrest⟩
      · exact Or.inl ⟨rest, rfl, hrest⟩
      · exact Or.inr ⟨rest, rfl, hrest⟩

/-- From an end a walk goes nowhere. -/
theorem of_isEnd (h : Passes rows x passed y) (hx : IsEnd rows x) : passed = [] ∧ y = x := by
  cases h with
  | here => exact ⟨rfl, rfl⟩
  | up hp hg h =>
    rcases hx with htop | hnone
    · exact absurd htop hp
    · rw [hnone] at hg
      cases hg

/-- There is only one end to be reached, and only one way to it. -/
theorem end_unique (h : Passes rows f before x) (hx : IsEnd rows x) (h' : Passes rows f after y)
    (hy : IsEnd rows y) : before = after ∧ x = y := by
  rcases h.compare h' with ⟨rest, rfl, hrest⟩ | ⟨rest, rfl, hrest⟩
  · obtain ⟨rfl, rfl⟩ := hrest.of_isEnd hx
    exact ⟨(List.append_nil _).symm, rfl⟩
  · obtain ⟨rfl, rfl⟩ := hrest.of_isEnd hy
    exact ⟨List.append_nil _, rfl⟩

/-- A walk past a folder is a walk to this folder and a walk from it. -/
theorem split (h : Passes rows f passed x) (hg : g ∈ passed) :
    ∃ before after, passed = before ++ g :: after ∧ Passes rows f before g ∧
      Passes rows g (g :: after) x := by
  induction h with
  | here => cases hg
  | @up f parent x passed hp hfind h ih =>
    by_cases hgf : g = f
    · subst hgf
      exact ⟨[], passed, rfl, .here, .up hp hfind h⟩
    · obtain ⟨before, after, rfl, hbefore, hafter⟩ := ih ((List.mem_cons.mp hg).resolve_left hgf)
      exact ⟨f :: before, after, rfl, .up hp hfind hbefore, hafter⟩

/-- A walk that comes back to where it starts never comes to an end. -/
theorem not_isEnd_of_loop (hloop : Passes rows x (x :: before) x) (h : Passes rows x passed y) :
    ¬ IsEnd rows y := by
  intro hy
  -- Each round takes away at least one of the folders that are left to pass.
  induction hn : passed.length using Nat.strong_induction_on generalizing passed with
  | _ n ih =>
    rcases hloop.compare h with ⟨rest, rfl, hrest⟩ | ⟨rest, heq, hrest⟩
    · refine ih rest.length ?_ hrest rfl
      rw [← hn, List.length_append, List.length_cons]
      omega
    · obtain ⟨rfl, rfl⟩ := hrest.of_isEnd hy
      cases (hloop.of_isEnd hy).1

/-- A walk that comes to a folder a second time never comes to an end. -/
theorem not_isEnd_of_mem (h : Passes rows f passed x) (hx : x ∈ passed) (h' : Passes rows f after y) :
    ¬ IsEnd rows y := by
  obtain ⟨before, rest, -, hto, hloop⟩ := h.split hx
  intro hy
  rcases hto.compare h' with ⟨more, -, hmore⟩ | ⟨more, -, hmore⟩
  · exact hloop.not_isEnd_of_loop hmore hy
  · obtain ⟨-, rfl⟩ := hmore.of_isEnd hy
    cases (hloop.of_isEnd hy).1

/-- A walk that goes on behind a repetition passes a folder twice. -/
theorem eq_nil_of_nodup (h : Passes rows x after y) (hx : x ∈ before)
    (hn : ((before ++ after).map Folder.id).Nodup) : after = [] ∧ y = x := by
  cases h with
  | here => exact ⟨rfl, rfl⟩
  | up hp hg h =>
    rw [List.map_append, List.nodup_append] at hn
    exact absurd rfl (hn.2.2 _ (List.mem_map_of_mem hx) _ (List.mem_map_of_mem List.mem_cons_self))

/-- There is only one folder that is the first to be reached a second time. -/
theorem repetition_unique (h : Passes rows f before x) (hn : (before.map Folder.id).Nodup) (hx : x ∈ before)
    (h' : Passes rows f after y) (hn' : (after.map Folder.id).Nodup) (hy : y ∈ after) : x = y := by
  rcases h.compare h' with ⟨rest, rfl, hrest⟩ | ⟨rest, rfl, hrest⟩
  · exact (hrest.eq_nil_of_nodup hx hn').2.symm
  · exact (hrest.eq_nil_of_nodup hy hn).2

end Passes

/-! ## Climbs -/

/-- How a climb from `f` ends that has passed folders with the ids `seen` before. -/
inductive Ends (rows : List Folder) (seen : List String) (f : Folder) : Outcome (List Folder) → Prop
  | top {passed : List Folder} {x : Folder} (h : Passes rows f passed x) (hx : x.parent = "")
      (hnew : ∀ g ∈ passed ++ [x], g.id ∉ seen) (hn : ((passed ++ [x]).map Folder.id).Nodup) :
      Ends rows seen f (.ok (passed ++ [x]))
  | again {passed : List Folder} {x : Folder} (h : Passes rows f passed x)
      (hx : x.id ∈ seen ∨ x ∈ passed) (hnew : ∀ g ∈ passed, g.id ∉ seen)
      (hn : (passed.map Folder.id).Nodup) : Ends rows seen f (.error (.folderCycle x.id))
  | broken {passed : List Folder} {x : Folder} (h : Passes rows f passed x) (hx : x.parent ≠ "")
      (hnone : findFolder rows x.parent x.ownerId = none) :
      Ends rows seen f (.error (.brokenFolderChain x.id x.parent))

/-- A folder that was passed before is reached a second time at once. -/
theorem Ends.of_mem (hmem : f.id ∈ seen) : Ends rows seen f (.error (.folderCycle f.id)) :=
  .again .here (Or.inl hmem) (fun g hg => by cases hg) List.nodup_nil

section Passing

variable (hfresh : ∀ g ∈ passed, g.id ∉ f.id :: seen)

include hfresh

theorem notMem_seen_cons (hnew : f.id ∉ seen) : ∀ g ∈ f :: passed, g.id ∉ seen := by
  intro g hg
  rcases List.mem_cons.mp hg with rfl | hg
  · exact hnew
  · exact fun hseen => hfresh g hg (List.mem_cons_of_mem _ hseen)

theorem nodup_ids_cons (hn : (passed.map Folder.id).Nodup) : ((f :: passed).map Folder.id).Nodup := by
  refine List.nodup_cons.mpr ⟨?_, hn⟩
  intro hin
  obtain ⟨g, hg, hid⟩ := List.mem_map.mp hin
  exact hfresh g hg (hid ▸ List.mem_cons_self)

end Passing

/-- Going up to the parent of a folder that was not passed before. -/
theorem Ends.up {answer : Outcome (List Folder)} (hids : (rows.map Folder.id).Nodup) (hf : f ∈ rows)
    (hnew : f.id ∉ seen) (hp : f.parent ≠ "") (hg : findFolder rows f.parent f.ownerId = some g)
    (h : Ends rows (f.id :: seen) g answer) : Ends rows seen f (answer.map (f :: ·)) := by
  obtain ⟨hmem, -, -⟩ := findFolder_some hg
  cases h with
  | @top passed x h hx hfresh hn =>
    show Ends rows seen f (.ok ((f :: passed) ++ [x]))
    exact .top (.up hp hg h) hx (notMem_seen_cons hfresh hnew) (nodup_ids_cons hfresh hn)
  | @again passed x h hx hfresh hn =>
    refine .again (.up hp hg h) ?_ (notMem_seen_cons hfresh hnew) (nodup_ids_cons hfresh hn)
    rcases hx with hseen | hx
    · rcases List.mem_cons.mp hseen with hid | hseen
      · have hxmem := (h.mem hmem x (List.mem_append_right _ (List.mem_singleton_self x))).1
        rw [List.inj_on_of_nodup_map hids hxmem hf hid]
        exact Or.inr List.mem_cons_self
      · exact Or.inl hseen
    · exact Or.inr (List.mem_cons_of_mem _ hx)
  | broken h hx hnone => exact .broken (.up hp hg h) hx hnone

/-- The ids of the folders of an owner. -/
def folderIdsOf (rows : List Folder) (owner : Int) : List String :=
  (rows.filter (·.ownerId == owner)).map Folder.id

theorem length_folderIdsOf (rows : List Folder) (owner : Int) :
    (folderIdsOf rows owner).length = rows.countP (·.ownerId == owner) := by
  rw [folderIdsOf, List.length_map, List.countP_eq_length_filter]

theorem id_mem_folderIdsOf (hf : f ∈ rows) (hown : f.ownerId = owner) : f.id ∈ folderIdsOf rows owner :=
  List.mem_map_of_mem (List.mem_filter.mpr ⟨hf, by simpa using hown⟩)

/-- Who has passed as many folders as the owner has was at each of them. -/
theorem mem_of_full {id : String} (hseen : seen.Nodup) (hsub : ∀ id ∈ seen, id ∈ folderIdsOf rows owner)
    (hfull : rows.countP (·.ownerId == owner) ≤ seen.length) (hid : id ∈ folderIdsOf rows owner) :
    id ∈ seen := by
  by_contra hnew
  have hsubset : id :: seen ⊆ folderIdsOf rows owner := List.cons_subset.mpr ⟨hid, hsub⟩
  have hle := ((List.nodup_cons.mpr ⟨hnew, hseen⟩).subperm hsubset).length_le
  rw [length_folderIdsOf, List.length_cons] at hle
  omega

/-- A climb that may pass as many folders as the owner has tells how it ends. -/
theorem ends_climb (hids : (rows.map Folder.id).Nodup) (hf : f ∈ rows) (hown : f.ownerId = owner)
    (hseen : seen.Nodup) (hsub : ∀ id ∈ seen, id ∈ folderIdsOf rows owner)
    (hbound : rows.countP (·.ownerId == owner) ≤ bound + seen.length) :
    Ends rows seen f (climb (fun id => findFolder rows id owner) bound seen f) := by
  have hfid := id_mem_folderIdsOf hf hown
  induction bound generalizing seen f with
  | zero => exact .of_mem (mem_of_full hseen hsub (by omega) hfid)
  | succ bound ih =>
    rw [climb]
    by_cases hmem : f.id ∈ seen
    · rw [if_pos hmem]
      exact .of_mem hmem
    · rw [if_neg hmem]
      by_cases htop : f.parent = ""
      · rw [if_pos htop]
        show Ends rows seen f (.ok ([] ++ [f]))
        refine .top .here htop ?_ (List.nodup_singleton _)
        intro g hg
        rwa [List.mem_singleton.mp hg]
      · rw [if_neg htop]
        cases hg : findFolder rows f.parent owner with
        | none => exact .broken .here htop (hown ▸ hg)
        | some g =>
          obtain ⟨hgmem, -, hgown⟩ := findFolder_some hg
          have hsub' : ∀ id ∈ f.id :: seen, id ∈ folderIdsOf rows owner := List.cons_subset.mpr ⟨hfid, hsub⟩
          have hrest : rows.countP (·.ownerId == owner) ≤ bound + (f.id :: seen).length := by
            rw [List.length_cons]
            omega
          exact Ends.up hids hf hmem htop (hown ▸ hg) (ih hgmem hgown (List.nodup_cons.mpr ⟨hmem, hseen⟩) hsub'
            hrest (id_mem_folderIdsOf hgmem hgown))

namespace Ends

variable {answer answer' : Outcome (List Folder)}

/-- A climb that passes a folder twice does not end at the top level or at a missing parent. -/
theorem exists_cycle (he : Ends rows [] f answer) (h : Passes rows f passed x) (hx : x ∈ passed) :
    ∃ id, answer = .error (.folderCycle id) := by
  cases he with
  | top h' hx' _ _ => exact absurd (Or.inl hx') (h.not_isEnd_of_mem hx h')
  | again => exact ⟨_, rfl⟩
  | broken h' hx' hnone' => exact absurd (Or.inr hnone') (h.not_isEnd_of_mem hx h')

theorem eq_ok (he : Ends rows [] f answer) (h : Passes rows f passed x) (hx : x.parent = "") :
    answer = .ok (passed ++ [x]) := by
  cases he with
  | top h' hx' _ _ =>
    obtain ⟨rfl, rfl⟩ := h.end_unique (Or.inl hx) h' (Or.inl hx')
    rfl
  | again h' hx' _ _ =>
    exact absurd (Or.inl hx) (h'.not_isEnd_of_mem (hx'.resolve_left List.not_mem_nil) h)
  | broken h' hx' hnone' =>
    obtain ⟨-, rfl⟩ := h.end_unique (Or.inl hx) h' (Or.inr hnone')
    exact absurd hx hx'

theorem eq_broken (he : Ends rows [] f answer) (h : Passes rows f passed x) (hx : x.parent ≠ "")
    (hnone : findFolder rows x.parent x.ownerId = none) :
    answer = .error (.brokenFolderChain x.id x.parent) := by
  cases he with
  | top h' hx' _ _ =>
    obtain ⟨-, rfl⟩ := h.end_unique (Or.inr hnone) h' (Or.inl hx')
    exact absurd hx' hx
  | again h' hx' _ _ =>
    exact absurd (Or.inr hnone) (h'.not_isEnd_of_mem (hx'.resolve_left List.not_mem_nil) h)
  | broken h' hx' hnone' =>
    obtain ⟨-, rfl⟩ := h.end_unique (Or.inr hnone) h' (Or.inr hnone')
    rfl

theorem eq_cycle (he : Ends rows [] f answer) (h : Passes rows f passed x)
    (hn : (passed.map Folder.id).Nodup) (hx : x ∈ passed) : answer = .error (.folderCycle x.id) := by
  obtain ⟨id, rfl⟩ := he.exists_cycle h hx
  cases he with
  | again h' hx' _ hn' =>
    rw [h.repetition_unique hn hx h' hn' (hx'.resolve_left List.not_mem_nil)]

theorem eq_ok_iff (he : Ends rows [] f answer) {chain : List Folder} :
    answer = .ok chain ↔ ∃ passed x, chain = passed ++ [x] ∧ Passes rows f passed x ∧ x.parent = "" := by
  constructor
  · rintro rfl
    cases he with
    | top h hx _ _ => exact ⟨_, _, rfl, h, hx⟩
  · rintro ⟨passed, x, rfl, h, hx⟩
    exact he.eq_ok h hx

theorem nodup_of_ok {chain : List Folder} (he : Ends rows [] f (.ok chain)) :
    (chain.map Folder.id).Nodup := by
  cases he with
  | top _ _ _ hn => exact hn

theorem eq_cycle_iff (he : Ends rows [] f answer) {id : String} :
    answer = .error (.folderCycle id) ↔
      ∃ passed x, x.id = id ∧ Passes rows f passed x ∧ (passed.map Folder.id).Nodup ∧ x ∈ passed := by
  constructor
  · rintro rfl
    cases he with
    | again h hx _ hn => exact ⟨_, _, rfl, h, hn, hx.resolve_left List.not_mem_nil⟩
  · rintro ⟨passed, x, rfl, h, hn, hx⟩
    exact he.eq_cycle h hn hx

theorem exists_cycle_iff (he : Ends rows [] f answer) :
    (∃ id, answer = .error (.folderCycle id)) ↔ ∃ passed x, Passes rows f passed x ∧ x ∈ passed := by
  constructor
  · rintro ⟨id, hid⟩
    obtain ⟨passed, x, -, h, -, hx⟩ := he.eq_cycle_iff.mp hid
    exact ⟨passed, x, h, hx⟩
  · rintro ⟨passed, x, h, hx⟩
    exact he.exists_cycle h hx

theorem eq_broken_iff (he : Ends rows [] f answer) (hf : f ∈ rows) {child missing : String} :
    answer = .error (.brokenFolderChain child missing) ↔
      ∃ passed x, x.id = child ∧ x.parent = missing ∧ Passes rows f passed x ∧ missing ≠ "" ∧
        findFolder rows missing f.ownerId = none := by
  have hown : ∀ {passed x}, Passes rows f passed x → x.ownerId = f.ownerId := fun {passed x} h =>
    (h.mem hf x (List.mem_append_right _ (List.mem_singleton_self x))).2
  constructor
  · rintro rfl
    cases he with
    | broken h hx hnone => exact ⟨_, _, rfl, rfl, h, hx, hown h ▸ hnone⟩
  · rintro ⟨passed, x, rfl, rfl, h, hx, hnone⟩
    exact he.eq_broken h hx (hown h ▸ hnone)

/-- A climb ends in one way only. -/
theorem unique (h : Ends rows [] f answer) (h' : Ends rows [] f answer') : answer = answer' := by
  cases h' with
  | top h' hx' _ _ => exact h.eq_ok h' hx'
  | again h' hx' _ hn' => exact h.eq_cycle h' hn' (hx'.resolve_left List.not_mem_nil)
  | broken h' hx' hnone' => exact h.eq_broken h' hx' hnone'

end Ends

/-- A walk from a folder is a climb that may pass as many folders as the owner has. -/
theorem ancestors_eq_climb (hdb : db.folders = some rows) (hids : (rows.map Folder.id).Nodup)
    (hid : FolderRef.IsId f.id) (hf : f ∈ rows) :
    db.ancestors f.ownerId f.id =
      climb (fun id => findFolder rows id f.ownerId) (rows.countP (·.ownerId == f.ownerId)) [] f := by
  have hfind : findFolder rows f.id f.ownerId = some f := by
    obtain ⟨g, hg⟩ := Option.isSome_iff_exists.mp (findFolder_isSome_iff.mpr ⟨f, hf, rfl, rfl⟩)
    obtain ⟨hmem, hgid, -⟩ := findFolder_some hg
    rw [hg, List.inj_on_of_nodup_map hids hmem hf hgid]
  have hpos : 1 ≤ rows.countP (·.ownerId == f.ownerId) :=
    List.countP_pos_iff.mpr ⟨f, hf, beq_self_eq_true _⟩
  simp only [ancestors, hid.normalized, if_neg hid.ne_empty, folderTable, hdb, hfind]
  rw [Nat.max_eq_left hpos]

/-! ## Round by round -/

/-- Where a climb stands before its next round: the ids and the folders that it has passed, and the folder that it
    has come to. -/
structure Walk where
  seen : List String
  chain : List Folder
  current : Folder

namespace Walk

/-- The walk that starts at a folder. -/
def start (f : Folder) : Walk := ⟨[], [], f⟩

/-- One round: the walk goes on from the parent, or it is over. At most `bound` folders are passed. -/
def round (find : String → Option Folder) (bound : Nat) (w : Walk) : Walk ⊕ Outcome (List Folder) :=
  if w.current.id ∈ w.seen ∨ bound ≤ w.chain.length then .inr (.error (.folderCycle w.current.id))
  else if w.current.parent = "" then .inr (.ok (w.chain ++ [w.current]))
  else
    match find w.current.parent with
    | none => .inr (.error (.brokenFolderChain w.current.id w.current.parent))
    | some parent => .inl ⟨w.current.id :: w.seen, w.chain ++ [w.current], parent⟩

/-- The answer of a walk that is over after at most the given number of rounds. -/
def rounds (find : String → Option Folder) (bound : Nat) : Nat → Walk → Option (Outcome (List Folder))
  | 0, _ => none
  | n + 1, w =>
    match w.round find bound with
    | .inl w' => rounds find bound n w'
    | .inr answer => some answer

/-- A walk is over one round after it has passed as many folders as it may, and it answers as a climb does. -/
theorem rounds_eq_climb (find : String → Option Folder) (left : Nat) (w : Walk) :
    w.rounds find (w.chain.length + left) (left + 1) =
      some ((climb find left w.seen w.current).map (w.chain ++ ·)) := by
  induction left generalizing w with
  | zero =>
    have hover : w.current.id ∈ w.seen ∨ w.chain.length + 0 ≤ w.chain.length := Or.inr (Nat.le_refl _)
    simp only [rounds, round, if_pos hover, climb, Except.map]
  | succ left ih =>
    rw [rounds, round, climb]
    by_cases hseen : w.current.id ∈ w.seen
    · simp only [if_pos (Or.inl hseen), if_pos hseen, Except.map]
    · have hgo : ¬ (w.current.id ∈ w.seen ∨ w.chain.length + (left + 1) ≤ w.chain.length) := by
        rintro (hmem | hle)
        · exact hseen hmem
        · omega
      rw [if_neg hgo, if_neg hseen]
      by_cases htop : w.current.parent = ""
      · simp only [if_pos htop, Except.map]
      · rw [if_neg htop, if_neg htop]
        cases hfind : find w.current.parent with
        | none => rfl
        | some parent =>
          have hnext := ih ⟨w.current.id :: w.seen, w.chain ++ [w.current], parent⟩
          have hlength : (w.chain ++ [w.current]).length + left = w.chain.length + (left + 1) := by
            rw [List.length_append, List.length_singleton]
            omega
          simp only [hlength] at hnext
          simp only [hnext, Option.some.injEq]
          cases climb find left (w.current.id :: w.seen) parent with
          | error e => rfl
          | ok above => simp only [Except.map, List.append_assoc, List.singleton_append]

end Walk

/-- What a walk to the top level from a folder comes to, where `rows` are the folders of all owners. -/
structure WalksExactly (db : Database) (rows : List Folder) (f : Folder) : Prop where
  /-- The walk is over after at most one round more than the owner has folders. -/
  ends : (Walk.start f).rounds (fun id => findFolder rows id f.ownerId) (rows.countP (·.ownerId == f.ownerId))
    (rows.countP (·.ownerId == f.ownerId) + 1) = some (db.ancestors f.ownerId f.id)
  /-- It answers with the folders passed if it comes to the top level. -/
  chain_iff : ∀ chain, db.ancestors f.ownerId f.id = .ok chain ↔
    ∃ passed x, chain = passed ++ [x] ∧ Passes rows f passed x ∧ x.parent = ""
  /-- The folders that it answers with are different ones of the owner. -/
  chain_once : ∀ chain, db.ancestors f.ownerId f.id = .ok chain →
    (chain.map Folder.id).Nodup ∧ ∀ g ∈ chain, g ∈ rows ∧ g.ownerId = f.ownerId
  /-- It answers with the first folder that it reaches a second time. -/
  cycle_iff : ∀ id, db.ancestors f.ownerId f.id = .error (.folderCycle id) ↔
    ∃ passed x, x.id = id ∧ Passes rows f passed x ∧ (passed.map Folder.id).Nodup ∧ x ∈ passed
  /-- It does so whenever there is one. -/
  exists_cycle_iff : (∃ id, db.ancestors f.ownerId f.id = .error (.folderCycle id)) ↔
    ∃ passed x, Passes rows f passed x ∧ x ∈ passed
  /-- It answers with the last folder and its parent if that parent is missing. -/
  broken_iff : ∀ child missing, db.ancestors f.ownerId f.id = .error (.brokenFolderChain child missing) ↔
    ∃ passed x, x.id = child ∧ x.parent = missing ∧ Passes rows f passed x ∧ missing ≠ "" ∧
      findFolder rows missing f.ownerId = none
  /-- There are no other answers. -/
  total : (∃ chain, db.ancestors f.ownerId f.id = .ok chain) ∨
    (∃ id, db.ancestors f.ownerId f.id = .error (.folderCycle id)) ∨
    ∃ child missing, db.ancestors f.ownerId f.id = .error (.brokenFolderChain child missing)
  /-- A walk that may be longer answers the same. -/
  longer : ∀ bound, rows.countP (·.ownerId == f.ownerId) ≤ bound →
    climb (fun id => findFolder rows id f.ownerId) bound [] f = db.ancestors f.ownerId f.id

/-- A walk to the top level from any folder is exact, whatever the parents of folders are. -/
theorem walks_are_exact (hdb : db.folders = some rows) (hids : (rows.map Folder.id).Nodup)
    (hnames : ∀ g ∈ rows, FolderRef.IsId g.id) (hf : f ∈ rows) : db.WalksExactly rows f := by
  have hends : ∀ bound, rows.countP (·.ownerId == f.ownerId) ≤ bound →
      Ends rows [] f (climb (fun id => findFolder rows id f.ownerId) bound [] f) := by
    intro bound hbound
    exact ends_climb hids hf rfl List.nodup_nil (fun id hid => by cases hid) hbound
  have hclimb := ancestors_eq_climb hdb hids (hnames f hf) hf
  have hanswer : Ends rows [] f (db.ancestors f.ownerId f.id) := hclimb ▸ hends _ (Nat.le_refl _)
  have hrounds := (Walk.start f).rounds_eq_climb (fun id => findFolder rows id f.ownerId)
    (rows.countP (·.ownerId == f.ownerId))
  constructor
  case ends =>
    rw [hclimb]
    simp only [Walk.start, List.length_nil, Nat.zero_add, List.nil_append] at hrounds ⊢
    rw [hrounds]
    cases climb (fun id => findFolder rows id f.ownerId) (rows.countP (·.ownerId == f.ownerId)) [] f <;> rfl
  case chain_iff => exact fun chain => hanswer.eq_ok_iff
  case chain_once =>
    intro chain h
    obtain ⟨passed, x, rfl, hpasses, -⟩ := hanswer.eq_ok_iff.mp h
    exact ⟨(h ▸ hanswer).nodup_of_ok, hpasses.mem hf⟩
  case cycle_iff => exact fun id => hanswer.eq_cycle_iff
  case exists_cycle_iff => exact hanswer.exists_cycle_iff
  case broken_iff => exact fun child missing => hanswer.eq_broken_iff hf
  case total =>
    revert hanswer
    generalize db.ancestors f.ownerId f.id = answer
    rintro (_ | _ | _)
    · exact Or.inl ⟨_, rfl⟩
    · exact Or.inr (Or.inl ⟨_, rfl⟩)
    · exact Or.inr (Or.inr ⟨_, _, rfl⟩)
  case longer => exact fun bound hbound => (hends bound hbound).unique hanswer

/-- The folder "a" leads into a circle of two others, and the parent of "d" belongs to another owner. -/
def tangledFolders : List Folder :=
  [⟨"a", "notes", "b", 1, "t"⟩, ⟨"b", "docs", "c", 1, "t"⟩, ⟨"c", "docs", "b", 1, "t"⟩,
    ⟨"d", "images", "e", 1, "t"⟩, ⟨"e", "images", "", 2, "t"⟩]

theorem walks_are_exact_of_tangled :
    (tangledFolders.map Folder.id).Nodup ∧ (∀ g ∈ tangledFolders, FolderRef.IsId g.id) ∧
      (fresh.withFolders tangledFolders).ancestors 1 "a" = .error (.folderCycle "b") ∧
      (fresh.withFolders tangledFolders).ancestors 1 "d" = .error (.brokenFolderChain "d" "e") := by
  have hids : (tangledFolders.map Folder.id).Nodup := by decide
  have hnames : ∀ g ∈ tangledFolders, FolderRef.IsId g.id := by
    have hall : ∀ g ∈ tangledFolders, g.id ≠ "" ∧ FolderRef.normalize g.id = g.id := by decide +kernel
    exact fun g hg => ⟨(hall g hg).1, (hall g hg).2⟩
  have hfolders : (fresh.withFolders tangledFolders).folders = some tangledFolders := rfl
  have ha := walks_are_exact hfolders hids hnames (f := ⟨"a", "notes", "b", 1, "t"⟩) (by decide)
  have hd := walks_are_exact hfolders hids hnames (f := ⟨"d", "images", "e", 1, "t"⟩) (by decide)
  have hcircle : Passes tangledFolders ⟨"a", "notes", "b", 1, "t"⟩
      [⟨"a", "notes", "b", 1, "t"⟩, ⟨"b", "docs", "c", 1, "t"⟩, ⟨"c", "docs", "b", 1, "t"⟩]
      ⟨"b", "docs", "c", 1, "t"⟩ :=
    .up (by decide) rfl (.up (by decide) rfl (.up (by decide) rfl .here))
  refine ⟨hids, hnames, ?_, ?_⟩
  · exact (ha.cycle_iff "b").mpr ⟨_, _, rfl, hcircle, by decide, by decide⟩
  · exact (hd.broken_iff "d" "e").mpr ⟨[], _, rfl, rfl, .here, by decide, by decide⟩

end Database

end FileDepot
