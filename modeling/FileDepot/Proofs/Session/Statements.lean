import FileDepot.Proofs.Session.Operations
import FileDepot.Proofs.Traffic.Statements

/-!
# The statements of a session

Whatever happens in a session comes down to statements, all of them made in the name of the owner who acts. So
the rows of every session obey the schema, its users are numbered, and its folders form a forest.
-/

namespace FileDepot

open Database Depot

namespace Deletion

variable {owner : Int} {id : String}

/-- What every step of a deletion keeps of two depots, in which it goes on alike, is kept by the whole of it. -/
theorem run_keeps_both {P : Depot → Depot → Prop}
    (hstep : ∀ d e x, P d e → (step owner id e x).1 = (step owner id d x).1 ∧
      P (step owner id d x).2 (step owner id e x).2)
    {d e : Depot} (x : Deletion) (hp : P d e) :
    (run owner id e x).1 = (run owner id d x).1 ∧ P (run owner id d x).2 (run owner id e x).2 := by
  induction d, x using run.induct owner id generalizing e with
  | case1 d result =>
    rw [run, run]
    exact ⟨rfl, hp⟩
  | case2 d ih =>
    obtain ⟨hnext, hkept⟩ := hstep d e .lookup hp
    rw [run, run, hnext]
    exact ih hkept
  | case3 d f ih =>
    obtain ⟨hnext, hkept⟩ := hstep d e (.removeBlob f) hp
    rw [run, run, hnext]
    exact ih hkept
  | case4 d f ih =>
    obtain ⟨hnext, hkept⟩ := hstep d e (.removeRow f) hp
    rw [run, run, hnext]
    exact ih hkept
  | case5 d f ih =>
    obtain ⟨hnext, hkept⟩ := hstep d e (.release f) hp
    rw [run, run, hnext]
    exact ih hkept

theorem run_keeps {P : Depot → Prop} (hstep : ∀ d x, P d → P (step owner id d x).2) (d : Depot) (x : Deletion)
    (hp : P d) : P (run owner id d x).2 := by
  have hboth : ∀ d e x, e = d ∧ P d → (step owner id e x).1 = (step owner id d x).1 ∧
      (step owner id e x).2 = (step owner id d x).2 ∧ P (step owner id d x).2 := by
    rintro d e x ⟨rfl, hp⟩
    exact ⟨rfl, rfl, hstep e x hp⟩
  exact (run_keeps_both hboth x ⟨rfl, hp⟩).2.2

end Deletion

namespace Upload

theorem steps_advance (t : Ticket) (d : Depot) (u : Upload) :
    Steps (Statement.MadeBy (some t.owner) none) d.db (advance t d u).2.db :=
  (Request.upload t u).steps_step d

theorem steps_settle (t : Ticket) (d : Depot) (u : Upload) :
    Steps (Statement.MadeBy (some t.owner) none) d.db (settle t d u).2.db :=
  settle_keeps (P := fun _ e => Steps (Statement.MadeBy (some t.owner) none) d.db e.db)
    (fun u e _ h => h.trans (steps_advance t e u)) d u (.refl d.db)

theorem steps_feed (t : Ticket) (d : Depot) (u : Upload) (events : List Multipart.Event) :
    Steps (Statement.MadeBy (some t.owner) none) d.db (feed t d u events).2.db := by
  induction events generalizing d u with
  | nil => exact .refl d.db
  | cons e rest ih =>
    rw [feed_cons]
    exact (steps_settle t d _).trans (ih _ _)

end Upload

namespace Operation

/-- The owner for whom an operation is carried out, if it is not one of the keeper. -/
def owner? : Operation → Option Int
  | createUser _ _ _ => none
  | setQuota _ _ => none
  | createFolder owner _ _ _ _ => some owner
  | deleteFolder owner _ => some owner
  | listChildren owner _ => some owner
  | ancestors owner _ => some owner
  | breadcrumbs owner _ => some owner
  | listFiles owner => some owner
  | file owner _ => some owner
  | rename owner _ _ => some owner
  | openDownload owner _ => some owner
  | delete owner _ => some owner
  | usage owner => some owner

/-- The id that is generated for a folder. -/
def newId? : Operation → Option String
  | createFolder _ _ _ id _ => some id
  | _ => none

/-- An operation makes statements in the name of its owner only. -/
theorem steps_run (d : Depot) (op : Operation) :
    Steps (Statement.MadeBy op.owner? op.newId?) d.db (op.run d).2.db := by
  cases op with
  | createUser username quota createdAt =>
    exact .one (.createUser username quota createdAt) ⟨trivial, rfl, Or.inl rfl⟩
  | setQuota id quota => exact .one (.setQuota id quota) ⟨trivial, rfl, Or.inl rfl⟩
  | createFolder owner name parent id createdAt =>
    exact (Request.folderCreation owner name parent id createdAt none).steps_step d
  | deleteFolder owner ref =>
    simp only [run, owner?]
    rcases db_deleteFolder d.db owner ref with hsame | hdelete
    · rw [hsame]
      exact .refl d.db
    · rw [hdelete]
      exact .one (.deleteFolderIfEmpty (FolderRef.normalize ref) owner) ⟨trivial, rfl, Or.inl rfl⟩
  | rename owner id name =>
    simp only [run, owner?]
    rcases db_rename d owner id name with hsame | ⟨name', hupdate⟩
    · rw [hsame]
      exact .refl d.db
    · rw [hupdate]
      exact .one (.updateFile id owner { FileUpdate.none with name := some name' })
        ⟨⟨rfl, by simp [FileUpdate.none]⟩, rfl, Or.inl rfl⟩
  | delete owner id =>
    exact Deletion.run_keeps (P := fun e => Steps (Statement.MadeBy (some owner) none) d.db e.db)
      (fun e x h => h.trans ((Request.fileDeletion owner id x).steps_step e)) d .lookup (.refl d.db)
  | _ => exact .refl d.db

end Operation

/-- The id that is generated for a folder in a turn. -/
def Turn.newId? : Turn → Option String
  | operate op => op.newId?
  | _ => none

namespace Session

variable {s : Session}

/-- The owner who acts in a turn, if it is not the keeper of the depot. -/
def actor? (s : Session) : Turn → Option Int
  | .operate op => op.owner?
  | .start t _ _ => some t.owner
  | .deliver n _ => s.uploads[n]?.map (·.ticket.owner)

/-- A turn makes statements in the name of the owner who acts. -/
theorem steps_step (s : Session) (turn : Turn) :
    Steps (Statement.MadeBy (s.actor? turn) turn.newId?) s.depot.db (s.step turn).depot.db := by
  cases turn with
  | operate op => exact op.steps_run s.depot
  | start t boundary limit => exact Upload.steps_settle t s.depot .admission
  | deliver n x =>
    simp only [step]
    cases hn : s.uploads[n]? with
    | none => exact .refl s.depot.db
    | some sending =>
      have hactor : s.actor? (.deliver n x) = some sending.ticket.owner := by
        rw [actor?, hn]
        rfl
      have hfeed := sending.feed_of_take x s.depot
      have hsteps := Upload.steps_feed sending.ticket s.depot sending.intake.upload (x.events sending.intake)
      rw [← hfeed] at hsteps
      rw [hactor]
      exact hsteps

/-- The rows of a session obey the schema, and its users are numbered. -/
theorem Reached.lawful_numbered (h : s.Reached) : s.depot.db.Lawful ∧ s.depot.db.Numbered := by
  induction h with
  | fresh => exact ⟨lawful_fresh, numbered_fresh⟩
  | step h ha ih => exact (steps_step _ _).lawful_numbered ih

/-- The folders of a session form a forest, in which the finished files lie. -/
theorem Reached.sound (h : s.Reached) : s.depot.db.Sound := by
  induction h with
  | fresh => exact sound_fresh
  | step h ha ih => exact (steps_step _ _).sound (fun st hst => hst.guarded) ih

end Session

end FileDepot
