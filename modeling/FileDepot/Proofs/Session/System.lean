import FileDepot.Deletion
import FileDepot.Proofs.Upload.Progress

/-!
# Sessions

A depot that is used by any number of owners. Operations run as a whole; an upload runs as a whole from one
delivery of its body to the next, and in between anything else may happen, parts of other uploads included.
-/

namespace FileDepot

/-- What owners and the keeper of the depot can ask for, uploads apart. Ids and times that the depot would
    generate are part of the operation. -/
inductive Operation where
  | createUser (username : String) (quota : Int) (createdAt : String)
  | setQuota (id quota : Int)
  | createFolder (owner : Int) (name parent id createdAt : String)
  | deleteFolder (owner : Int) (ref : String)
  | listChildren (owner : Int) (ref : String)
  | ancestors (owner : Int) (ref : String)
  | breadcrumbs (owner : Int) (ref : String)
  | listFiles (owner : Int)
  | file (owner : Int) (id : String)
  | rename (owner : Int) (id name : String)
  | openDownload (owner : Int) (id : String)
  | delete (owner : Int) (id : String)
  | usage (owner : Int)
  deriving DecidableEq, Repr

/-- The answer to an operation. -/
inductive Answer where
  | account (result : Outcome Account)
  | changed (result : Outcome Bool)
  | folder (result : Outcome Folder)
  | removed (result : Outcome Unit)
  | listing (result : Outcome Listing)
  | chain (result : Outcome (List Folder))
  | crumbs (result : Outcome (List Breadcrumb))
  | files (result : Outcome (List File))
  | file (result : Outcome File)
  | renamed (result : Outcome File)
  | download (result : Outcome Download)
  | deleted (result : Outcome File)
  | usage (result : Outcome Usage)
  deriving Repr

namespace Operation

/-- Carries an operation out. -/
def run (d : Depot) : Operation → Answer × Depot
  | createUser username quota createdAt =>
    let r := d.db.createUser username quota createdAt
    (.account r.1, { d with db := r.2 })
  | setQuota id quota =>
    let r := d.db.setQuota id quota
    (.changed r.1, { d with db := r.2 })
  | createFolder owner name parent id createdAt =>
    let r := d.db.createFolder owner name parent id createdAt
    (.folder r.1, { d with db := r.2 })
  | deleteFolder owner ref =>
    let r := d.db.deleteFolder owner ref
    (.removed r.1, { d with db := r.2 })
  | listChildren owner ref => (.listing (d.db.listChildren owner ref), d)
  | ancestors owner ref => (.chain (d.db.ancestors owner ref), d)
  | breadcrumbs owner ref => (.crumbs (d.db.breadcrumbs owner ref), d)
  | listFiles owner => (.files (d.db.filesOf owner), d)
  | file owner id => (.file (d.file owner id), d)
  | rename owner id name =>
    let r := d.rename owner id name
    (.renamed r.1, r.2)
  | openDownload owner id => (.download (d.openDownload owner id), d)
  | delete owner id =>
    let r := d.delete owner id
    (.deleted r.1, r.2)
  | usage owner => (.usage (d.usage owner), d)

end Operation

/-- What can arrive of a body: bytes, with which the body may end, or the news that it has broken off. -/
inductive Delivery where
  | chunk (bytes : Bytes) (atEnd : Bool)
  | interrupt
  deriving DecidableEq, Repr

namespace Delivery

/-- Hands a delivery to the upload that it is for. -/
def handTo (x : Delivery) (i : Intake) (d : Depot) : Intake × Depot :=
  match x with
  | chunk bytes atEnd => i.deliver bytes atEnd d
  | interrupt => i.interrupt d

/-- The events that a delivery means to the upload that it is for. -/
def events (x : Delivery) (i : Intake) : List Multipart.Event :=
  match x with
  | chunk bytes atEnd =>
    if i.allowance < bytes.length then [.broken .bodyTooLarge] else (i.reader.push bytes atEnd).2
  | interrupt => [Multipart.Reader.interrupted]

theorem ticket_handTo (x : Delivery) (i : Intake) (d : Depot) : (x.handTo i d).1.ticket = i.ticket := by
  cases x with
  | chunk bytes atEnd =>
    simp only [handTo, Intake.deliver]
    split <;> rfl
  | interrupt => rfl

/-- Of the body the upload sees nothing but the events. -/
theorem feed_of_handTo (x : Delivery) (i : Intake) (d : Depot) :
    ((x.handTo i d).1.upload, (x.handTo i d).2) = Upload.feed i.ticket d i.upload (x.events i) := by
  cases x with
  | chunk bytes atEnd =>
    simp only [handTo, events, Intake.deliver]
    split <;> rfl
  | interrupt => rfl

/-- What has become of an intake depends on the depot only through its upload. -/
theorem handTo_congr {x : Delivery} {i : Intake} {d e : Depot}
    (h : (Upload.feed i.ticket e i.upload (x.events i)).1 = (Upload.feed i.ticket d i.upload (x.events i)).1) :
    (x.handTo i e).1 = (x.handTo i d).1 := by
  cases x with
  | chunk bytes atEnd =>
    simp only [handTo, events, Intake.deliver] at h ⊢
    split
    · next hs =>
      rw [if_pos hs] at h
      simp only [Intake.handOver, h]
    · next hs =>
      rw [if_neg hs] at h
      simp only [Intake.handOver, h]
  | interrupt =>
    simp only [handTo, events, Intake.interrupt, Intake.handOver] at h ⊢
    rw [h]

end Delivery

/-- An upload and the events of its body so far. The events are not used by the upload. -/
structure Sending where
  intake : Intake
  heard : List Multipart.Event

namespace Sending

/-- What is fixed for the upload. -/
def ticket (s : Sending) : Ticket := s.intake.ticket

/-- The result of the upload once it is done. -/
def result? (s : Sending) : Option (Outcome File) := s.intake.result?

/-- What the events so far tell of the content. -/
def hearing (s : Sending) : Hearing := Hearing.start.hearAll s.heard

/-- Starts an upload whose body has the given boundary and at most `limit` bytes. -/
def start (t : Ticket) (boundary : Bytes) (limit : Nat) (d : Depot) : Sending × Depot :=
  let r := Intake.start t boundary limit d
  (⟨r.1, []⟩, r.2)

/-- Takes the next delivery. -/
def take (s : Sending) (x : Delivery) (d : Depot) : Sending × Depot :=
  let r := x.handTo s.intake d
  (⟨r.1, s.heard ++ x.events s.intake⟩, r.2)

end Sending

namespace Sending

theorem ticket_take (s : Sending) (x : Delivery) (d : Depot) : (s.take x d).1.ticket = s.ticket :=
  x.ticket_handTo s.intake d

theorem hearing_take (s : Sending) (x : Delivery) (d : Depot) :
    (s.take x d).1.hearing = s.hearing.hearAll (x.events s.intake) :=
  Hearing.hearAll_append _ _ _

/-- What follows from a delivery is what follows from its events. -/
theorem feed_of_take (s : Sending) (x : Delivery) (d : Depot) :
    ((s.take x d).1.intake.upload, (s.take x d).2) =
      Upload.feed s.ticket d s.intake.upload (x.events s.intake) :=
  x.feed_of_handTo s.intake d

end Sending

/-- What can happen in a session. Uploads are counted from 0 in the order in which they were started. -/
inductive Turn where
  | operate (op : Operation)
  | start (t : Ticket) (boundary : Bytes) (limit : Nat)
  | deliver (n : Nat) (x : Delivery)
  deriving DecidableEq, Repr

/-- What is to be seen of a turn: the answer to an operation, or whether an upload is done and with which
    result. -/
inductive Reply where
  | answer (a : Answer)
  | upload (result? : Option (Outcome File))
  deriving Repr

/-- A turn together with its reply. -/
structure Entry where
  turn : Turn
  reply : Reply
  deriving Repr

/-- The depot, the uploads that were started, and everything that has happened so far. -/
structure Session where
  depot : Depot
  uploads : List Sending
  log : List Entry

namespace Session

/-- Nothing has happened in a depot that holds nothing. -/
def fresh : Session := ⟨Depot.fresh, [], []⟩

/-- One turn. -/
def step (s : Session) (turn : Turn) : Session :=
  match turn with
  | .operate op =>
    let r := op.run s.depot
    ⟨r.2, s.uploads, s.log ++ [⟨turn, .answer r.1⟩]⟩
  | .start t boundary limit =>
    let r := Sending.start t boundary limit s.depot
    ⟨r.2, s.uploads ++ [r.1], s.log ++ [⟨turn, .upload r.1.result?⟩]⟩
  | .deliver n x =>
    match s.uploads[n]? with
    | none => ⟨s.depot, s.uploads, s.log ++ [⟨turn, .upload none⟩]⟩
    | some sending =>
      let r := sending.take x s.depot
      ⟨r.2, s.uploads.set n r.1, s.log ++ [⟨turn, .upload r.1.result?⟩]⟩

/-- Several turns. -/
def run (s : Session) (turns : List Turn) : Session := turns.foldl step s

/-- Whether a turn can happen: the id that is generated for an upload is one segment of a path and was
    generated for no other upload. -/
def Admits (s : Session) : Turn → Prop
  | .start t _ _ => BlobPath.IsSegment t.fileId ∧ ∀ sending ∈ s.uploads, sending.ticket.fileId ≠ t.fileId
  | _ => True

/-- The sessions that can come about. -/
inductive Reached : Session → Prop
  | fresh : Reached fresh
  | step {s : Session} {turn : Turn} (h : Reached s) (ha : s.Admits turn) : Reached (s.step turn)

/-- Whether several turns can happen one after the other. -/
def AdmitsAll : Session → List Turn → Prop
  | _, [] => True
  | s, turn :: rest => s.Admits turn ∧ (s.step turn).AdmitsAll rest

theorem Reached.run {s : Session} {turns : List Turn} (h : s.Reached) (ha : s.AdmitsAll turns) :
    (s.run turns).Reached := by
  induction turns generalizing s with
  | nil => exact h
  | cons turn rest ih => exact ih (h.step ha.1) ha.2

end Session

end FileDepot
