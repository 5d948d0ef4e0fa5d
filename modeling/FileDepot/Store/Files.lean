import FileDepot.Store.Folders

/-!
# File rows

The statements on the table of files. A file is only ever seen under the id of its owner. A row starts as
the stub of an upload and becomes visible to listings when the upload is finished.
-/

namespace FileDepot

/-- The fields of a file that an update writes. -/
structure FileUpdate where
  name : Option String
  extension : Option String
  mimeType : Option String
  size : Option Int
  state : Option FileState
  parent : Option String
  deriving DecidableEq, Repr

/-- An assignment in the statement of an update: a column and the value that is bound to it. -/
inductive FileAssignment where
  | name (value : String)
  | extension (value : String)
  | mimeType (value : String)
  | size (value : Int)
  | state (value : FileState)
  | parent (value : String)
  deriving DecidableEq, Repr

namespace FileAssignment

/-- Writes the value into the column of a row. -/
def execute (f : File) : FileAssignment → File
  | name value => { f with name := value }
  | extension value => { f with extension := value }
  | mimeType value => { f with mimeType := value }
  | size value => { f with size := value }
  | state value => { f with state := value }
  | parent value => { f with parent := value }

end FileAssignment

namespace FileUpdate

/-- The update that writes nothing. -/
def none : FileUpdate := ⟨.none, .none, .none, .none, .none, .none⟩

/-- Whether no field is set (`FileUpdate::is_empty`). -/
def isEmpty (u : FileUpdate) : Bool :=
  u.name.isNone && u.extension.isNone && u.mimeType.isNone && u.size.isNone && u.state.isNone &&
    u.parent.isNone

/-- The assignments for the fields that are set, in the order in which they stand in the statement (the clauses
    that `FileRepository::update` collects). -/
def assignments (u : FileUpdate) : List FileAssignment :=
  u.name.toList.map .name ++ u.extension.toList.map .extension ++ u.mimeType.toList.map .mimeType ++
    u.size.toList.map .size ++ u.state.toList.map .state ++ u.parent.toList.map .parent

/-- Executes the assignments of an update on a row. -/
def apply (u : FileUpdate) (f : File) : File := u.assignments.foldl FileAssignment.execute f

/-- Each field that is set is written, and each other one is kept. -/
theorem apply_eq (u : FileUpdate) (f : File) :
    u.apply f =
      { f with
        name := u.name.getD f.name
        extension := u.extension.getD f.extension
        mimeType := u.mimeType.getD f.mimeType
        size := u.size.getD f.size
        state := u.state.getD f.state
        parent := u.parent.getD f.parent } := by
  obtain ⟨name, extension, mimeType, size, state, parent⟩ := u
  cases name <;> cases extension <;> cases mimeType <;> cases size <;> cases state <;> cases parent <;> rfl

@[simp] theorem apply_id (u : FileUpdate) (f : File) : (u.apply f).id = f.id := by rw [apply_eq]

@[simp] theorem apply_ownerId (u : FileUpdate) (f : File) : (u.apply f).ownerId = f.ownerId := by rw [apply_eq]

end FileUpdate

namespace File

/-- The file, provided that its state is one that can be read. -/
def read (f : File) : Outcome File :=
  match f.state with
  | .unknown text => .error (.database ("unknown file state: " ++ text))
  | _ => .ok f

end File

namespace Database

/-- The table of files. -/
def fileTable (db : Database) : Outcome (List File) :=
  match db.files with
  | some rows => .ok rows
  | none => .error (missingTable "files")

/-- The file of an owner with the given id. -/
def findFile (rows : List File) (id : String) (owner : Int) : Option File :=
  rows.find? fun f => f.id == id && f.ownerId == owner

/-- Whether a row is the file of an owner with the given id. -/
def isFile (id : String) (owner : Int) (f : File) : Bool := f.id == id && f.ownerId == owner

/-- Files in the order of listings. -/
def sortFiles (rows : List File) : List File :=
  rows.mergeSort fun a b => listedBefore a.name a.id b.name b.id

/-- Reads a file in whatever state it is (`FileRepository::get`). -/
def fileById (db : Database) (id : String) (owner : Int) : Outcome (Option File) :=
  match db.fileTable with
  | .error e => .error e
  | .ok rows =>
    match findFile rows id owner with
    | none => .ok none
    | some f => f.read.map some

/-- Reads a file whose upload was finished (`FileRepository::get_complete`). -/
def completeFile (db : Database) (id : String) (owner : Int) : Outcome (Option File) :=
  (db.fileById id owner).map (·.filter File.isComplete)

/-- Reads the finished files of an owner (`FileRepository::list`). -/
def filesOf (db : Database) (owner : Int) : Outcome (List File) :=
  db.fileTable.map fun rows =>
    sortFiles (rows.filter fun f => f.ownerId == owner && f.state == .complete)

/-- Reads the finished files of an owner directly under a parent (`FileRepository::list_by_parent`). -/
def filesUnder (db : Database) (owner : Int) (parent : String) : Outcome (List File) :=
  db.fileTable.map fun rows =>
    sortFiles (rows.filter fun f => f.ownerId == owner && f.parent == parent && f.state == .complete)

/-- Reads the stubs of all owners, oldest first (`FileRepository::list_pending`). -/
def pendingFiles (db : Database) : Outcome (List File) :=
  db.fileTable.map fun rows =>
    (rows.filter fun f => f.state == .pending).mergeSort fun a b =>
      listedBefore a.createdAt a.id b.createdAt b.id

/-- Adds a file (`FileRepository::create`). Its id must be new and its owner must exist; its parent is not looked
    at. -/
def insertFile (db : Database) (f : File) : Outcome File × Database :=
  match db.fileTable, db.userTable with
  | .error e, _ => (.error e, db)
  | _, .error e => (.error e, db)
  | .ok rows, .ok users =>
    if rows.any (·.id == f.id) then (.error (.database "the file id is taken"), db)
    else if !hasUser users f.ownerId then (.error (.database "the owner does not exist"), db)
    else (.ok f, { db with files := some (rows ++ [f]) })

/-- Whether the parent that an update sets is the top level or a folder of the owner. -/
def allowsParent (db : Database) (owner : Int) (u : FileUpdate) : Outcome Bool :=
  match u.parent with
  | none => .ok true
  | some parent =>
    if parent = "" then .ok true
    else db.folderTable.map fun rows => (findFolder rows parent owner).isSome

/-- Writes the fields that are set to a file and reads it (`FileRepository::update`). Nothing is written, and
    nothing read, if the owner has no such file or no folder like the parent that is set. -/
def updateFile (db : Database) (id : String) (owner : Int) (u : FileUpdate) :
    Outcome (Option File) × Database :=
  if u.isEmpty then (db.fileById id owner, db)
  else
    match db.fileTable, db.allowsParent owner u with
    | .error e, _ => (.error e, db)
    | _, .error e => (.error e, db)
    | .ok rows, .ok allowed =>
      match findFile rows id owner with
      | none => (.ok none, db)
      | some f =>
        if allowed then
          ((u.apply f).read.map some,
            { db with files := some (rows.map fun f => if isFile id owner f then u.apply f else f) })
        else (.ok none, db)

/-- Removes a file and tells whether there was one (`FileRepository::delete`). The table of users, which the rows
    refer to, must be there. -/
def deleteFile (db : Database) (id : String) (owner : Int) : Outcome Bool × Database :=
  match db.fileTable, db.userTable with
  | .error e, _ => (.error e, db)
  | _, .error e => (.error e, db)
  | .ok rows, .ok _ =>
    (.ok (rows.any (isFile id owner)),
      { db with files := some (rows.filter fun f => !isFile id owner f) })

end Database

end FileDepot
