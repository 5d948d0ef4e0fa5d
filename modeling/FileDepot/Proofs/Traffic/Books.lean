import FileDepot.Proofs.Traffic.Records

/-!
# The books of requests

How the counter of an owner and the bytes of the finished files change with each access of a request. The
bytes of a file are stored or gone one access before they are counted or given back; in between the request
owes them.
-/

namespace FileDepot

open Database

namespace Upload

variable {f : File} {e : Multipart.Event}

theorem abort_ne_account (scan : Scan) (cause : UploadError) : abort scan cause ≠ account f := by
  unfold abort
  split <;> simp

theorem headComplete_ne_account (scan : Scan) (name : String) (head : Bytes) (ended : Bool) :
    headComplete scan name head ended ≠ account f := by
  unfold headComplete
  split
  · exact abort_ne_account scan _
  · simp

/-- No event of the body makes an upload count. -/
theorem receive_ne_account {u : Upload} (h : ∀ f, u ≠ account f) : u.receive e ≠ account f := by
  unfold receive
  split
  · simp
  · split
    · exact abort_ne_account _ _
    · simp
  · simp
  · split <;> simp
  · exact abort_ne_account _ _
  · split
    · exact abort_ne_account _ _
    · simp
  · split
    · exact abort_ne_account _ _
    · simp
  · exact abort_ne_account _ _
  · simp
  · exact abort_ne_account _ _
  · split
    · simp
    · exact headComplete_ne_account _ _ _ _
  · exact headComplete_ne_account _ _ _ _
  · exact abort_ne_account _ _
  · split <;> simp
  · simp
  · simp
  · exact h f

end Upload

namespace Deletion

theorem opposite_of_ne {n : Int} (h : n ≠ int64Min) : opposite n = -n := if_neg h

theorem opposite_of_nonneg {n : Int} (h : 0 ≤ n) : opposite n = -n := by
  refine opposite_of_ne ?_
  rintro rfl
  exact absurd h (by decide)

end Deletion

namespace Request

variable {d : Depot} {r : Request} {owner delta : Int} {c : Counter}

/-- What the next access of a request adds to the counter of an owner, if it calls on the counter. -/
def due (owner : Int) : Request → Option Int
  | upload t (.account f) => if t.owner = owner then some f.size else none
  | fileDeletion o _ (.release f) => if o = owner then some (Deletion.opposite f.size) else none
  | _ => none

theorem due_upload {t : Ticket} {u : Upload} (h : ∀ f, u ≠ .account f) : (upload t u).due owner = none := by
  cases u with
  | account f => exact absurd rfl (h f)
  | _ => rfl

theorem due_fileDeletion {o : Int} {id : String} {x : Deletion} (h : ∀ f, x ≠ .release f) :
    (fileDeletion o id x).due owner = none := by
  cases x with
  | release f => exact absurd rfl (h f)
  | _ => rfl

theorem due_receive (r : Request) (e : Multipart.Event) (owner : Int) :
    (r.receive e).due owner = r.due owner := by
  cases r with
  | upload t u =>
    by_cases h : ∀ f, u ≠ .account f
    · rw [due_upload h]
      exact due_upload fun f => Upload.receive_ne_account h
    · rw [not_forall] at h
      obtain ⟨f, hf⟩ := h
      rw [not_not.mp hf]
      rfl
  | _ => rfl

theorem due_request (o : Order) (owner : Int) : o.request.due owner = none := by
  cases o <;> rfl

theorem due_of_isDone (h : r.isDone = true) (owner : Int) : r.due owner = none := by
  cases r with
  | upload t u =>
    cases u with
    | account f => cases h
    | _ => rfl
  | fileDeletion o id x =>
    cases x with
    | release f => cases h
    | _ => rfl
  | _ => rfl

/-- A call on the counter pays what is due and changes no file. -/
theorem step_of_due (hd : r.due owner = some delta) (hc : d.db.counter? owner = some c) :
    (r.step d).2.db.counter? owner = some (c.add delta) ∧
      (r.step d).2.db.fileRows = d.db.fileRows ∧ (r.step d).1.due owner = none := by
  rw [db_step]
  cases r with
  | upload t u =>
    cases u with
    | account f =>
      simp only [due, Option.ite_none_right_eq_some, Option.some.injEq] at hd
      obtain ⟨rfl, rfl⟩ := hd
      refine ⟨counter?_adjustSpaceUsed hc f.size, (onlyUsers_adjustSpaceUsed d.db t.owner f.size).fileRows, ?_⟩
      simp only [step, Upload.advance]
      split <;> rfl
    | _ => cases hd
  | fileDeletion o id x =>
    cases x with
    | release f =>
      simp only [due, Option.ite_none_right_eq_some, Option.some.injEq] at hd
      obtain ⟨rfl, rfl⟩ := hd
      refine ⟨counter?_adjustSpaceUsed hc _, (onlyUsers_adjustSpaceUsed d.db o _).fileRows, ?_⟩
      simp only [step, Deletion.step]
      split <;> rfl
    | _ => cases hd
  | _ => cases hd

/-- After an access that does not call on the counter of an owner: the counter is as it was, and the bytes
    that are stored now, or are stored no longer, are due. -/
structure Defers (owner : Int) (db db' : Database) (r' : Request) : Prop where
  counter : db'.counter? owner = db.counter? owner
  bytes : storedBytes db'.fileRows owner = storedBytes db.fileRows owner + (r'.due owner).getD 0

namespace Defers

variable {db db' : Database} {r' : Request}

/-- The same records count the same. -/
theorem of_sameRecords (h : SameRecords db db') (hr' : r'.due owner = none) : Defers owner db db' r' := by
  obtain ⟨k, hk, hrows⟩ := h.rows
  refine ⟨counter?_congr h.users owner, ?_⟩
  rw [hr', hrows, storedBytes_map db.fileRows owner fun f _ => (hk f).counted owner]
  exact (Int.add_zero _).symm

/-- The counter of somebody else does not matter. -/
theorem of_adjust (db : Database) {o : Int} (ho : o ≠ owner) (delta : Int) (hr' : r'.due owner = none) :
    Defers owner db (db.adjustSpaceUsed o delta).2 r' := by
  refine ⟨counter?_adjustSpaceUsed_of_ne db ho delta, ?_⟩
  rw [hr', (onlyUsers_adjustSpaceUsed db o delta).fileRows]
  exact (Int.add_zero _).symm

end Defers

/-- The bytes that an upload stores are due when they are stored. -/
theorem defers_upload {t : Ticket} {u : Upload} (hw : d.db.IsWhole) (hn : (d.db.fileRows.map File.id).Nodup)
    (hd : (upload t u).due owner = none)
    (hstub : u.isOver = false → ∀ f ∈ d.db.fileRows, f.id = t.fileId → f.state = .pending) :
    Defers owner d.db (u.advance t d).2.db (upload t (u.advance t d).1) := by
  rcases u.effect_advance hw t with ⟨h, -, hu'⟩ | ⟨f, -, hs, -, -, hu', husers, hrows⟩ |
    ⟨f, parent, staged, hf, hid, hown, hu, hu', husers, hrows⟩ | ⟨f, rfl, hu', hdb⟩ |
    ⟨hover, hu', husers, hrows⟩
  · exact .of_sameRecords h (due_upload hu')
  · refine ⟨counter?_congr husers owner, ?_⟩
    have hpend : f.state ≠ .complete := by
      rw [hs]
      simp
    rw [due_upload hu', hrows, storedBytes_append, File.counted_of_pending hpend]
    rfl
  · refine ⟨counter?_congr husers owner, ?_⟩
    have hpend : f.state ≠ .complete := by
      rw [hstub (by rw [hu]; rfl) f hf hid]
      simp
    rw [hu', hrows, storedBytes_updatedRows hn hf, File.counted_of_pending hpend]
    simp only [due, File.counted, FileUpdate.apply_ownerId, hown]
    by_cases ho : t.owner = owner
    · rw [if_pos ⟨ho, rfl⟩, if_pos ho, Int.sub_zero]
      rfl
    · rw [if_neg (fun hh => ho hh.1), if_neg ho, Int.sub_zero]
      rfl
  · have ho : t.owner ≠ owner := by
      intro ho
      simp [due, ho] at hd
    rw [hdb]
    exact .of_adjust d.db ho f.size (due_upload hu')
  · refine ⟨counter?_congr husers owner, ?_⟩
    rw [due_upload hu', hrows, storedBytes_filter_of_pending]
    · exact (Int.add_zero _).symm
    · intro f hf hgone
      have hself : f.id = t.fileId ∧ f.ownerId = t.owner := isFile_iff.mp (by simpa using hgone)
      rw [hstub hover f hf hself.1]
      simp

/-- The bytes that a deletion removes are due when they are removed. -/
theorem defers_fileDeletion {o : Int} {id : String} {x : Deletion} (hw : d.db.IsWhole)
    (hn : (d.db.fileRows.map File.id).Nodup) (hd : (fileDeletion o id x).due owner = none)
    (hfile : ∀ f, x.file? = some f → f.size ≠ int64Min ∧
      ∀ g ∈ d.db.fileRows, g.id = f.id → g.state = .complete ∧ g.size = f.size) :
    Defers owner d.db (x.step o id d).2.db (fileDeletion o id (x.step o id d).1) := by
  rcases x.effect_step hw o id with ⟨h, -, hx', -⟩ | ⟨f, -, -, -, hx', hdb⟩ |
    ⟨f, g, hg, hid, hown, hx, hx', husers, hrows⟩ | ⟨f, rfl, hx', hdb⟩
  · exact .of_sameRecords h (due_fileDeletion hx')
  · rw [hx', hdb]
    exact .of_sameRecords (.refl d.db) rfl
  · refine ⟨counter?_congr husers owner, ?_⟩
    obtain ⟨hopposite, hrow⟩ := hfile f (by rw [hx]; rfl)
    obtain ⟨hs, hsize⟩ := hrow g hg hid
    rw [hx', hrows, storedBytes_filter hn hg]
    simp only [due, File.counted, hown, hs, hsize, and_true]
    by_cases ho : o = owner
    · rw [if_pos ho, if_pos ho, Deletion.opposite_of_ne hopposite]
      rfl
    · rw [if_neg ho, if_neg ho, Int.sub_zero]
      exact (Int.add_zero _).symm
  · have ho : o ≠ owner := by
      intro ho
      simp [due, ho] at hd
    have hnone : ∀ g, ((Deletion.release f).step o id d).1 ≠ .release g := by
      intro g hg
      rw [hg] at hx'
      cases hx'
    rw [hdb]
    exact .of_adjust d.db ho (Deletion.opposite f.size) (due_fileDeletion hnone)

/-- Requests for folders and for names store nothing and remove nothing. -/
theorem defers_other (hw : d.db.IsWhole) (hu : ∀ t u, r ≠ upload t u)
    (hd : ∀ o id x, r ≠ fileDeletion o id x) :
    Defers owner d.db (r.step d).2.db (r.step d).1 := by
  have hdue : (r.step d).1.due owner = none := by
    cases r with
    | folderCreation o name parent id createdAt result? => cases result? <;> rfl
    | folderRemoval o ref x => rfl
    | upload t u => exact absurd rfl (hu t u)
    | fileRenaming o id name x => rfl
    | fileDeletion o id x => exact absurd rfl (hd o id x)
  rw [db_step]
  exact .of_sameRecords (sameRecords_dbAfter hw hu hd) hdue

end Request

end FileDepot
