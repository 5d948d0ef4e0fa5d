import FileDepot.Proofs.Traffic.Effects
import FileDepot.Proofs.Traffic.Forest

/-!
# Records under traffic

What can be relied on about the rows of files while requests are under way: the row of an upload that is not
over is a stub, and the row of a file that was found for a deletion is that of a finished file whose size does
not change any more.
-/

namespace FileDepot

open Database

namespace Request

variable {d d' : Depot} {r r' : Request} {g : File}

/-- Why a row is there after a step: it was there before, or it belongs to an upload that was not over. A
    finished file comes only of an upload that is over then. -/
def Explains (db : Database) (r r' : Request) (g : File) : Prop :=
  (∃ g₀ ∈ db.fileRows, g.Alike g₀) ∨
    ∃ t u u', r = upload t u ∧ r' = upload t u' ∧ u.isOver = false ∧ g.id = t.fileId ∧ g.size ≠ int64Min ∧
      (g.state = .pending ∨ u'.isOver = true)

/-- What a request can do in one step: to the rows of files and to itself. -/
structure Moves (d : Depot) (r : Request) (d' : Depot) (r' : Request) : Prop where
  whole : d'.db.IsWhole
  unique : (d'.db.fileRows.map File.id).Nodup
  rows : ∀ g ∈ d'.db.fileRows, Explains d.db r r' g
  upload : ∀ t u', r' = .upload t u' → ∃ u, r = .upload t u ∧ (u.isOver = true → u'.isOver = true)
  deletion : ∀ owner id x', r' = .fileDeletion owner id x' → ∀ f, x'.file? = some f →
    (∃ x, r = .fileDeletion owner id x ∧ x.file? = some f) ∨ (f ∈ d.db.fileRows ∧ f.state = .complete)

theorem explains_of_sameRecords {db db' : Database} (h : SameRecords db db') (hg : g ∈ db'.fileRows) :
    Explains db r r' g := by
  obtain ⟨k, hk, hrows⟩ := h.rows
  rw [hrows] at hg
  obtain ⟨g₀, hg₀, rfl⟩ := List.mem_map.mp hg
  exact Or.inl ⟨g₀, hg₀, hk g₀⟩

theorem explains_of_mem {db : Database} (hg : g ∈ db.fileRows) : Explains db r r' g :=
  explains_of_sameRecords (.refl db) hg

theorem explains_step (hw : d.db.IsWhole) (r : Request) (hg : g ∈ (r.step d).2.db.fileRows) :
    Explains d.db r (r.step d).1 g := by
  cases r with
  | upload t u =>
    rcases u.effect_advance hw t with ⟨h, -, -⟩ | ⟨f, hid, hs, hsize, hover, -, -, hrows⟩ |
      ⟨f, parent, staged, hf, hid, hown, hu, hu', -, hrows⟩ | ⟨f, -, -, hdb⟩ | ⟨-, -, -, hrows⟩
    · exact explains_of_sameRecords h hg
    · simp only [step, hrows] at hg
      rcases List.mem_append.mp hg with hg | hg
      · exact explains_of_mem hg
      · rw [List.mem_singleton.mp hg]
        have hopposite : f.size ≠ int64Min := by
          rw [hsize]
          decide
        exact Or.inr ⟨t, u, _, rfl, rfl, hover, hid, hopposite, Or.inl hs⟩
    · simp only [step, hrows] at hg
      obtain ⟨g₀, hg₀, ⟨hgid, -, rfl⟩ | ⟨-, rfl⟩⟩ := mem_updatedRows.mp hg
      · refine Or.inr ⟨t, u, _, rfl, rfl, ?_, hgid.trans hid, ?_, Or.inr ?_⟩
        · rw [hu]
          rfl
        · exact Int.ne_of_gt (Int.lt_of_lt_of_le (by decide) (Int.natCast_nonneg staged.size))
        · rw [hu']
          rfl
      · exact explains_of_mem hg₀
    · have hsame := (onlyUsers_adjustSpaceUsed d.db t.owner f.size).fileRows
      simp only [step, hdb, hsame] at hg
      exact explains_of_mem hg
    · simp only [step, hrows] at hg
      exact explains_of_mem (List.mem_filter.mp hg).1
  | fileDeletion owner id x =>
    rcases x.effect_step hw owner id with ⟨h, -, -, -⟩ | ⟨f, -, -, -, -, hdb⟩ |
      ⟨f, h, -, -, -, -, -, -, hrows⟩ | ⟨f, -, -, hdb⟩
    · exact explains_of_sameRecords h hg
    · simp only [step, hdb] at hg
      exact explains_of_mem hg
    · simp only [step, hrows] at hg
      exact explains_of_mem (List.mem_filter.mp hg).1
    · have hsame := (onlyUsers_adjustSpaceUsed d.db owner (Deletion.opposite f.size)).fileRows
      simp only [step, hdb, hsame] at hg
      exact explains_of_mem hg
  | folderCreation owner name parent id createdAt result? =>
    rw [db_step] at hg
    exact explains_of_sameRecords (sameRecords_dbAfter hw (by simp) (by simp)) hg
  | folderRemoval owner ref x =>
    rw [db_step] at hg
    exact explains_of_sameRecords (sameRecords_dbAfter hw (by simp) (by simp)) hg
  | fileRenaming owner id name x =>
    rw [db_step] at hg
    exact explains_of_sameRecords (sameRecords_dbAfter hw (by simp) (by simp)) hg

/-- Every access is such a step. -/
theorem moves_step (hw : d.db.IsWhole) (hn : (d.db.fileRows.map File.id).Nodup) (r : Request) :
    Moves d r (r.step d).2 (r.step d).1 := by
  have hwrite := r.write_dbAfter hw
  rw [← r.db_step] at hwrite
  refine ⟨hwrite.whole hw, hwrite.unique hn, fun g hg => explains_step hw r hg, ?_, ?_⟩
  · intro t u' hu'
    cases r with
    | upload t₁ u =>
      simp only [step, upload.injEq] at hu'
      obtain ⟨rfl, rfl⟩ := hu'
      exact ⟨u, rfl, fun hover => Upload.isOver_advance hover _ d⟩
    | folderCreation owner name parent id createdAt result? => cases result? <;> cases hu'
    | folderRemoval owner ref x => cases hu'
    | fileRenaming owner id name x => cases hu'
    | fileDeletion owner id x => cases hu'
  · intro owner id x' hx' f hf
    cases r with
    | fileDeletion owner₁ id₁ x =>
      simp only [step, fileDeletion.injEq] at hx'
      obtain ⟨rfl, rfl, rfl⟩ := hx'
      rcases x.effect_step hw owner₁ id₁ with ⟨-, -, -, hnone | hsame⟩ | ⟨g, hg, hs, -, hx', -⟩ |
        ⟨g, h, -, -, -, hx, hx', -, -⟩ | ⟨g, -, hnone, -⟩
      · rw [hnone] at hf
        cases hf
      · exact Or.inl ⟨x, rfl, hsame ▸ hf⟩
      · rw [hx'] at hf
        cases hf
        exact Or.inr ⟨hg, hs⟩
      · rw [hx'] at hf
        refine Or.inl ⟨x, rfl, ?_⟩
        rw [hx]
        exact hf
      · rw [hnone] at hf
        cases hf
    | folderCreation owner name parent id createdAt result? => cases result? <;> cases hx'
    | folderRemoval owner ref x => cases hx'
    | fileRenaming owner id name x => cases hx'
    | upload t u => cases hx'

/-- And so is an event of the body, which leaves the depot alone. -/
theorem moves_receive (hw : d.db.IsWhole) (hn : (d.db.fileRows.map File.id).Nodup) (r : Request)
    (e : Multipart.Event) : Moves d r d (r.receive e) := by
  refine ⟨hw, hn, fun g hg => explains_of_mem hg, ?_, ?_⟩
  · intro t u' hu'
    cases r with
    | upload t₁ u =>
      simp only [receive, upload.injEq] at hu'
      obtain ⟨rfl, rfl⟩ := hu'
      exact ⟨u, rfl, fun hover => Upload.isOver_receive hover e⟩
    | _ => cases hu'
  · intro owner id x' hx' f hf
    cases r with
    | upload t u => cases hx'
    | _ => exact Or.inl ⟨x', hx', hf⟩

end Request

/-- The id that is given to a file with a move. -/
def Move.fileId? : Move → Option String
  | .arrive (.upload t) => some t.fileId
  | _ => none

namespace Traffic

variable {s : Traffic} {used : List String} {n : Nat} {r r' : Request} {d' : Depot} {f : File}

/-- A file that was found for a deletion: no upload writes to its row any more, and as long as the row is
    there, it is that of a finished file of the size that was found. -/
structure Chosen (s : Traffic) (used : List String) (f : File) : Prop where
  size : f.size ≠ int64Min
  used : f.id ∈ used
  past : ∀ t u, Request.upload t u ∈ s.requests → t.fileId = f.id → u.isOver = true
  row : ∀ g ∈ s.depot.db.fileRows, g.id = f.id → g.state = .complete ∧ g.size = f.size

/-- What can be relied on at every moment, where `used` are the ids that were ever given to files. -/
structure Regular (s : Traffic) (used : List String) : Prop where
  whole : s.depot.db.IsWhole
  unique : (s.depot.db.fileRows.map File.id).Nodup
  sizes : ∀ f ∈ s.depot.db.fileRows, f.size ≠ int64Min
  known : ∀ f ∈ s.depot.db.fileRows, f.id ∈ used
  given : ∀ t u, Request.upload t u ∈ s.requests → t.fileId ∈ used
  apart : ∀ (i j : Nat) (t t' : Ticket) (u u' : Upload), s.requests[i]? = some (.upload t u) →
    s.requests[j]? = some (.upload t' u') → t.fileId = t'.fileId → i = j
  stubs : ∀ t u, Request.upload t u ∈ s.requests → u.isOver = false →
    ∀ f ∈ s.depot.db.fileRows, f.id = t.fileId → f.state = .pending
  chosen : ∀ owner id x, Request.fileDeletion owner id x ∈ s.requests → ∀ f, x.file? = some f →
    s.Chosen used f

/-- Every finished file could be found for a deletion. -/
theorem Regular.chosen_of_complete (h : s.Regular used) (hf : f ∈ s.depot.db.fileRows)
    (hs : f.state = .complete) : s.Chosen used f := by
  refine ⟨h.sizes f hf, h.known f hf, ?_, ?_⟩
  · intro t u hu hid
    by_contra hover
    have hpend := h.stubs t u hu (by simpa using hover) f hf hid.symm
    rw [hs] at hpend
    cases hpend
  · intro g hg hid
    rw [List.inj_on_of_nodup_map h.unique hg hf hid]
    exact ⟨hs, rfl⟩

/-- Behind an upload among the requests after a step there is the upload as it was before. -/
theorem upload_before (hr : s.requests[n]? = some r) (hm : r.Moves s.depot d' r') {i : Nat} {t : Ticket}
    {u' : Upload} (hu : (s.requests.set n r')[i]? = some (.upload t u')) :
    ∃ u, s.requests[i]? = some (.upload t u) ∧ (u.isOver = true → u'.isOver = true) := by
  rw [List.getElem?_set] at hu
  split at hu
  · next hi =>
    split at hu
    · obtain ⟨u, rfl, hover⟩ := hm.upload t u' (by simpa using hu)
      exact ⟨u, hi ▸ hr, hover⟩
    · cases hu
  · exact ⟨u', hu, fun hover => hover⟩

/-- A file that was found stays found, whatever request makes a step. -/
theorem Chosen.set (hc : s.Chosen used f) (hr : s.requests[n]? = some r) (hm : r.Moves s.depot d' r') :
    Chosen ⟨d', s.requests.set n r'⟩ used f := by
  refine ⟨hc.size, hc.used, ?_, ?_⟩
  · intro t u' hu' hid
    obtain ⟨i, hi⟩ := List.mem_iff_getElem?.mp hu'
    obtain ⟨u, hu, hover⟩ := upload_before hr hm hi
    exact hover (hc.past t u (List.mem_of_getElem? hu) hid)
  · intro g hg hid
    rcases hm.rows g hg with ⟨g₀, hg₀, halike⟩ | ⟨t, u, u', rfl, -, hover, hgid, -, -⟩
    · obtain ⟨hs, hsize⟩ := hc.row g₀ hg₀ (halike.id.symm.trans hid)
      exact ⟨halike.state.trans hs, halike.size.trans hsize⟩
    · have hpast := hc.past t u (List.mem_of_getElem? hr) (hgid.symm.trans hid)
      rw [hover] at hpast
      cases hpast

/-- What can be relied on still can be when a request makes a step. -/
theorem Regular.set (h : s.Regular used) (hr : s.requests[n]? = some r) (hm : r.Moves s.depot d' r') :
    Regular ⟨d', s.requests.set n r'⟩ used where
  whole := hm.whole
  unique := hm.unique
  sizes := by
    intro g hg
    rcases hm.rows g hg with ⟨g₀, hg₀, halike⟩ | ⟨t, u, u', -, -, -, -, hsize, -⟩
    · rw [halike.size]
      exact h.sizes g₀ hg₀
    · exact hsize
  known := by
    intro g hg
    rcases hm.rows g hg with ⟨g₀, hg₀, halike⟩ | ⟨t, u, u', rfl, -, -, hid, -, -⟩
    · rw [halike.id]
      exact h.known g₀ hg₀
    · rw [hid]
      exact h.given t u (List.mem_of_getElem? hr)
  given := by
    intro t u' hu'
    obtain ⟨i, hi⟩ := List.mem_iff_getElem?.mp hu'
    obtain ⟨u, hu, -⟩ := upload_before hr hm hi
    exact h.given t u (List.mem_of_getElem? hu)
  apart := by
    intro i j t t' u u' hi hj hid
    obtain ⟨v, hv, -⟩ := upload_before hr hm hi
    obtain ⟨v', hv', -⟩ := upload_before hr hm hj
    exact h.apart i j t t' v v' hv hv' hid
  stubs := by
    intro t u' hu' hover' g hg hid
    obtain ⟨i, hi⟩ := List.mem_iff_getElem?.mp hu'
    obtain ⟨u, hu, hmono⟩ := upload_before hr hm hi
    have hover : u.isOver = false := by
      by_contra hpast
      rw [hmono (by simpa using hpast)] at hover'
      cases hover'
    rcases hm.rows g hg with ⟨g₀, hg₀, halike⟩ | ⟨t₁, u₁, u₁', rfl, hr', -, hgid, -, hend⟩
    · rw [halike.state]
      exact h.stubs t u (List.mem_of_getElem? hu) hover g₀ hg₀ (halike.id.symm.trans hid)
    · -- The row is that of the upload itself, which is not over.
      have hin := h.apart i n t t₁ u u₁ hu hr (hid.symm.trans hgid)
      have hlen : n < s.requests.length := (List.getElem?_eq_some_iff.mp hr).1
      have hself : u₁' = u' := by
        rw [hin, List.getElem?_set_self hlen, hr'] at hi
        cases hi
        rfl
      rw [hself, hover'] at hend
      exact hend.resolve_right Bool.false_ne_true
  chosen := by
    intro owner id x' hx' f hf
    have hold : s.Chosen used f := by
      rcases List.mem_or_eq_of_mem_set hx' with hx' | hx'
      · exact h.chosen owner id x' hx' f hf
      · rcases hm.deletion owner id x' hx'.symm f hf with ⟨x, rfl, hxf⟩ | ⟨hmem, hs⟩
        · exact h.chosen owner id x (List.mem_of_getElem? hr) f hxf
        · exact h.chosen_of_complete hmem hs
    exact hold.set hr hm

/-! ## What moves keep -/

theorem Regular.of_onlyUsers (h : s.Regular used) {db : Database} (hu : OnlyUsers s.depot.db db) :
    Regular ⟨{ s.depot with db }, s.requests⟩ used where
  whole := hu.whole h.whole
  unique := by
    simp only [hu.fileRows]
    exact h.unique
  sizes := by
    simp only [hu.fileRows]
    exact h.sizes
  known := by
    simp only [hu.fileRows]
    exact h.known
  given := h.given
  apart := h.apart
  stubs := by
    simp only [hu.fileRows]
    exact h.stubs
  chosen := by
    intro owner id x hx f hf
    have hc := h.chosen owner id x hx f hf
    refine ⟨hc.size, hc.used, hc.past, ?_⟩
    simp only [hu.fileRows]
    exact hc.row

/-- An upload that has just arrived is the last one, and nothing has been done for it. -/
theorem upload_of_arrived {o : Order} {i : Nat} {t : Ticket} {u : Upload}
    (hu : (s.requests ++ [o.request])[i]? = some (.upload t u)) :
    s.requests[i]? = some (.upload t u) ∨ (i = s.requests.length ∧ o = .upload t) := by
  rcases Nat.lt_or_ge i s.requests.length with hlt | hge
  · rw [List.getElem?_append_left hlt] at hu
    exact Or.inl hu
  · rw [List.getElem?_append_right hge, List.getElem?_singleton] at hu
    split at hu
    · next hi =>
      refine Or.inr ⟨by omega, ?_⟩
      cases o with
      | upload t' =>
        simp only [Order.request, Option.some.injEq, Request.upload.injEq] at hu
        rw [hu.1]
      | _ => simp [Order.request] at hu
    · cases hu

/-- What can be relied on still can be when a request arrives. The id of an upload has to be new. -/
theorem Regular.arrive (h : s.Regular used) {o : Order}
    (hnew : ∀ id, (Move.arrive o).fileId? = some id → id ∉ used) :
    Regular ⟨s.depot, s.requests ++ [o.request]⟩ (used ++ (Move.arrive o).fileId?.toList) where
  whole := h.whole
  unique := h.unique
  sizes := h.sizes
  known := fun f hf => List.mem_append_left _ (h.known f hf)
  given := by
    intro t u hu
    obtain ⟨i, hi⟩ := List.mem_iff_getElem?.mp hu
    rcases upload_of_arrived hi with hold | ⟨-, rfl⟩
    · exact List.mem_append_left _ (h.given t u (List.mem_of_getElem? hold))
    · exact List.mem_append_right _ (by simp [Move.fileId?])
  apart := by
    intro i j t t' u u' hi hj hid
    rcases upload_of_arrived hi with hi' | ⟨hi', rfl⟩
    · rcases upload_of_arrived hj with hj' | ⟨hj', rfl⟩
      · exact h.apart i j t t' u u' hi' hj' hid
      · exact absurd (hid ▸ h.given t u (List.mem_of_getElem? hi')) (hnew t'.fileId rfl)
    · rcases upload_of_arrived hj with hj' | ⟨hj', -⟩
      · exact absurd (hid ▸ h.given t' u' (List.mem_of_getElem? hj')) (hnew t.fileId rfl)
      · rw [hi', hj']
  stubs := by
    intro t u hu hover f hf hid
    obtain ⟨i, hi⟩ := List.mem_iff_getElem?.mp hu
    rcases upload_of_arrived hi with hold | ⟨-, rfl⟩
    · exact h.stubs t u (List.mem_of_getElem? hold) hover f hf hid
    · exact absurd (hid ▸ h.known f hf) (hnew t.fileId rfl)
  chosen := by
    intro owner id x hx f hf
    have hold : s.Chosen used f := by
      rcases List.mem_append.mp hx with hx | hx
      · exact h.chosen owner id x hx f hf
      · have heq : o.request = .fileDeletion owner id x := (List.mem_singleton.mp hx).symm
        cases o with
        | delete owner' id' =>
          cases heq
          cases hf
        | _ => cases heq
    refine ⟨hold.size, List.mem_append_left _ hold.used, ?_, hold.row⟩
    intro t u hu hid
    obtain ⟨i, hi⟩ := List.mem_iff_getElem?.mp hu
    rcases upload_of_arrived hi with hmem | ⟨-, rfl⟩
    · exact hold.past t u (List.mem_of_getElem? hmem) hid
    · exact absurd (hid ▸ hold.used) (hnew t.fileId rfl)

/-- What can be relied on still can be after any move that gives no id a second time. -/
theorem Regular.step (h : s.Regular used) {move : Move}
    (hnew : ∀ id, move.fileId? = some id → id ∉ used) :
    (s.step move).Regular (used ++ move.fileId?.toList) := by
  cases move with
  | createUser username quota createdAt =>
    rw [show used ++ (Move.createUser username quota createdAt).fileId?.toList = used from List.append_nil used]
    exact h.of_onlyUsers (onlyUsers_createUser s.depot.db username quota createdAt)
  | setQuota id quota =>
    rw [show used ++ (Move.setQuota id quota).fileId?.toList = used from List.append_nil used]
    exact h.of_onlyUsers (onlyUsers_setQuota s.depot.db id quota)
  | arrive o => exact h.arrive hnew
  | advance n =>
    rw [show used ++ (Move.advance n).fileId?.toList = used from List.append_nil used]
    simp only [Traffic.step]
    split
    · exact h
    · next r hr => exact h.set hr (r.moves_step h.whole h.unique)
  | receive n e =>
    rw [show used ++ (Move.receive n e).fileId?.toList = used from List.append_nil used]
    simp only [Traffic.step]
    split
    · exact h
    · next r hr => exact h.set hr (r.moves_receive h.whole h.unique e)

end Traffic

/-! ## Sizes -/

namespace Deletion

variable {d : Depot} {owner : Int} {id : String} {x : Deletion} {f : File}

/-- A file that is going to be deleted is one of the owner. -/
theorem file?_step (hw : d.db.IsWhole) (h : (x.step owner id d).1.file? = some f) :
    x.file? = some f ∨ f ∈ d.db.fileRows ∧ f.ownerId = owner := by
  cases x with
  | lookup =>
    simp only [step] at h
    unfold Depot.file at h
    split at h
    · cases h
    · next g hg =>
      cases h
      split at hg
      · cases hg
      · cases hg
      · next f' hf' =>
        cases hg
        obtain ⟨hmem, -, hown, -⟩ := completeFile_some hw hf'
        exact Or.inr ⟨hmem, hown⟩
  | removeBlob g =>
    simp only [step] at h
    split at h
    · exact Or.inl h
    · exact Or.inl h
    · cases h
  | removeRow g =>
    simp only [step] at h
    split at h
    · cases h
    · cases h
    · exact Or.inl h
  | release g =>
    simp only [step] at h
    split at h <;> cases h
  | done result => cases h

end Deletion

namespace Request

variable {d : Depot} {r : Request} {owner : Int} {g : File}

/-- The rows of an owner keep their sizes. A new row has none, and an upload that finishes sets what it has
    written. -/
theorem size_of_step (hw : d.db.IsWhole) (hg : g ∈ (r.step d).2.db.fileRows) (ho : g.ownerId = owner) :
    (∃ g₀ ∈ d.db.fileRows, g₀.ownerId = owner ∧ g.size = g₀.size) ∨ g.size = 0 ∨
      ∃ t parent staged, r = upload t (.finish parent staged) ∧ t.owner = owner ∧
        g.size = (staged : Staged).size := by
  rcases explains_step hw r hg with ⟨g₀, hg₀, halike⟩ | ⟨t, u, u', rfl, -⟩
  · exact Or.inl ⟨g₀, hg₀, halike.ownerId.symm.trans ho, halike.size⟩
  · have hkept : ∀ g₀ ∈ d.db.fileRows, g = g₀ → ∃ g₀ ∈ d.db.fileRows, g₀.ownerId = owner ∧ g.size = g₀.size := by
      rintro g₀ hg₀ rfl
      exact ⟨g, hg₀, ho, rfl⟩
    simp only [step] at hg
    rcases u.effect_advance hw t with ⟨h, -, -⟩ | ⟨f, -, -, hsize, -, -, -, hrows⟩ |
      ⟨f, parent, staged, -, -, hown, hu, -, -, hrows⟩ | ⟨f, -, -, hdb⟩ | ⟨-, -, -, hrows⟩
    · obtain ⟨k, hk, hrows⟩ := h.rows
      rw [hrows] at hg
      obtain ⟨g₀, hg₀, rfl⟩ := List.mem_map.mp hg
      exact Or.inl ⟨g₀, hg₀, (hk g₀).ownerId.symm.trans ho, (hk g₀).size⟩
    · rw [hrows] at hg
      rcases List.mem_append.mp hg with hg | hg
      · exact Or.inl (hkept g hg rfl)
      · rw [List.mem_singleton.mp hg]
        exact Or.inr (Or.inl hsize)
    · rw [hrows] at hg
      obtain ⟨g₀, hg₀, ⟨-, hown₀, rfl⟩ | ⟨-, rfl⟩⟩ := mem_updatedRows.mp hg
      · refine Or.inr (Or.inr ⟨t, parent, staged, ?_, ?_, rfl⟩)
        · rw [hu]
        · exact hown.symm.trans (hown₀.symm.trans ho)
      · exact Or.inl (hkept g hg₀ rfl)
    · rw [hdb, (onlyUsers_adjustSpaceUsed d.db t.owner f.size).fileRows] at hg
      exact Or.inl (hkept g hg rfl)
    · rw [hrows] at hg
      exact Or.inl (hkept g (List.mem_filter.mp hg).1 rfl)

end Request

end FileDepot
