import FileDepot.Store.Users

/-!
# Folder rows

The statements on the table of folders. A folder is only ever seen under the id of its owner.
-/

namespace FileDepot

/-- Whether the pair of a name and an id comes before another one: by name, then by id. -/
def listedBefore (name₁ id₁ name₂ id₂ : String) : Bool :=
  if name₁ = name₂ then Text.byteLe id₁ id₂ else Text.byteLe name₁ name₂

namespace Database

/-- The table of folders. -/
def folderTable (db : Database) : Outcome (List Folder) :=
  match db.folders with
  | some rows => .ok rows
  | none => .error (missingTable "folders")

/-- The folder of an owner with the given id. -/
def findFolder (rows : List Folder) (id : String) (owner : Int) : Option Folder :=
  rows.find? fun f => f.id == id && f.ownerId == owner

/-- Folders in the order of listings. -/
def sortFolders (rows : List Folder) : List Folder :=
  rows.mergeSort fun a b => listedBefore a.name a.id b.name b.id

/-- Reads a folder (`FolderRepository::get`). -/
def folderById (db : Database) (id : String) (owner : Int) : Outcome (Option Folder) :=
  db.folderTable.map fun rows => findFolder rows id owner

/-- Reads the folders of an owner directly under a parent (`FolderRepository::list_by_parent`). -/
def foldersUnder (db : Database) (owner : Int) (parent : String) : Outcome (List Folder) :=
  db.folderTable.map fun rows =>
    sortFolders (rows.filter fun f => f.ownerId == owner && f.parent == parent)

/-- Counts the folders of an owner (`FolderRepository::count`). -/
def folderCount (db : Database) (owner : Int) : Outcome Nat :=
  db.folderTable.map fun rows => rows.countP (·.ownerId == owner)

/-- Adds a folder (`FolderRepository::create`). A parent that is not empty must be a folder of the same owner, the
    owner must exist, and the id must be new. -/
def insertFolder (db : Database) (f : Folder) : Outcome Folder × Database :=
  match db.folderTable, db.userTable with
  | .error e, _ => (.error e, db)
  | _, .error e => (.error e, db)
  | .ok rows, .ok users =>
    if f.parent ≠ "" ∧ (findFolder rows f.parent f.ownerId).isNone then
      (.error (.parentNotFound f.parent), db)
    else if rows.any (·.id == f.id) then (.error (.database "the folder id is taken"), db)
    else if !hasUser users f.ownerId then (.error (.database "the owner does not exist"), db)
    else (.ok f, { db with folders := some (rows ++ [f]) })

/-- Whether a folder of an owner holds a folder or a file whose upload was finished. -/
def isOccupied (folders : List Folder) (files : List File) (id : String) (owner : Int) : Bool :=
  (folders.any fun f => f.ownerId == owner && f.parent == id) ||
    files.any fun f => f.ownerId == owner && f.parent == id && f.state == .complete

/-- Removes a folder that holds no folder and no finished file, and tells whether it did
    (`FolderRepository::delete_if_empty`). The table of users, which the rows refer to, must be there. -/
def deleteFolderIfEmpty (db : Database) (id : String) (owner : Int) : Outcome Bool × Database :=
  match db.folders, db.files, db.users with
  | none, _, _ => (.error (missingTable "folders"), db)
  | _, none, _ => (.error (missingTable "files"), db)
  | _, _, none => (.error (missingTable "users"), db)
  | some rows, some files, some _ =>
    if (findFolder rows id owner).isSome ∧ ¬ isOccupied rows files id owner then
      (.ok true, { db with folders := some (rows.filter fun f => !(f.id == id && f.ownerId == owner)) })
    else (.ok false, db)

end Database

end FileDepot
