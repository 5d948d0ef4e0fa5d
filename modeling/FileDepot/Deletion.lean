import FileDepot.Depot

/-!
# Deleting a file

The deletion of a finished file, one access to the depot at a time: look the file up, remove its content,
remove its row, and give its bytes back. Other requests may run between two steps.
-/

namespace FileDepot

/-- How far a deletion has come. -/
inductive Deletion where
  | lookup
  | removeBlob (f : File)
  | removeRow (f : File)
  | release (f : File)
  | done (result : Outcome File)
  deriving Repr

namespace Deletion

/-- How many steps are left at most. -/
def stepsLeft : Deletion → Nat
  | lookup => 4
  | removeBlob _ => 3
  | removeRow _ => 2
  | release _ => 1
  | done _ => 0

/-- The opposite of a 64-bit number, which the least one is itself. -/
def opposite (n : Int) : Int := if n = int64Min then int64Min else -n

/-- The next step of the deletion of a file of an owner. A content that is already gone does not stop it. -/
def step (owner : Int) (id : String) (d : Depot) : Deletion → Deletion × Depot
  | lookup =>
    match d.file owner id with
    | .error e => (done (.error e), d)
    | .ok f => (removeBlob f, d)
  | removeBlob f =>
    match d.blobs.remove (BlobPath.ofFile owner f.id) with
    | .ok blobs => (removeRow f, { d with blobs })
    | .error (.notFound _) => (removeRow f, d)
    | .error e => (done (.error (.blob e)), d)
  | removeRow f =>
    match d.db.deleteFile f.id owner with
    | (.error e, db) => (done (.error e), { d with db })
    | (.ok false, db) => (done (.error (.notFound "file")), { d with db })
    | (.ok true, db) => (release f, { d with db })
  | release f =>
    match d.db.adjustSpaceUsed owner (opposite f.size) with
    | (.error e, db) => (done (.error e), { d with db })
    | (.ok _, db) => (done (.ok f), { d with db })
  | done result => (done result, d)

theorem stepsLeft_step_lt (owner : Int) (id : String) (d : Depot) (s : Deletion)
    (h : 0 < s.stepsLeft) : (step owner id d s).1.stepsLeft < s.stepsLeft := by
  cases s with
  | lookup => simp only [step]; split <;> simp [stepsLeft]
  | removeBlob f => simp only [step]; split <;> simp [stepsLeft]
  | removeRow f => simp only [step]; split <;> simp [stepsLeft]
  | release f => simp only [step]; split <;> simp [stepsLeft]
  | done r => simp [stepsLeft] at h

/-- Carries a deletion out to its end. -/
def run (owner : Int) (id : String) (d : Depot) (s : Deletion) : Outcome File × Depot :=
  match s with
  | done result => (result, d)
  | lookup => run owner id (step owner id d lookup).2 (step owner id d lookup).1
  | removeBlob f => run owner id (step owner id d (removeBlob f)).2 (step owner id d (removeBlob f)).1
  | removeRow f => run owner id (step owner id d (removeRow f)).2 (step owner id d (removeRow f)).1
  | release f => run owner id (step owner id d (release f)).2 (step owner id d (release f)).1
termination_by s.stepsLeft
decreasing_by all_goals exact stepsLeft_step_lt owner id d _ (by simp [stepsLeft])

end Deletion

namespace Depot

/-- Deletes a finished file and gives its bytes back to the owner (`FileService::delete`). -/
def delete (d : Depot) (owner : Int) (id : String) : Outcome File × Depot :=
  Deletion.run owner id d .lookup

end Depot

end FileDepot
