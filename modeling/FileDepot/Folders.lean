import FileDepot.Store.Files

/-!
# Folder trees

Listings, walks to the top level, and the creation and removal of folders for one owner. A folder may be
referred to with white space around its id, and the top level by the empty text or by the reserved id.
-/

namespace FileDepot

/-- A step on the way back to the top level. -/
structure Breadcrumb where
  label : String
  folderId : String
  deriving DecidableEq, Repr

namespace Breadcrumb

/-- The step that leads to the top level (`Breadcrumb::root`). -/
def root : Breadcrumb := ⟨"/", rootFolderId⟩

/-- The step that leads to a folder. -/
def ofFolder (f : Folder) : Breadcrumb := ⟨f.name, f.id⟩

end Breadcrumb

/-- What a folder holds, and the way back to the top level, nearest folder first (`FolderContents`). -/
structure Listing where
  folders : List Folder
  files : List File
  breadcrumbs : List Breadcrumb
  deriving DecidableEq, Repr

namespace Database

/-- Climbs from the folder `f` to the top level by at most `bound` folders, where `find` looks a folder up and
    `seen` are the ids of the folders already passed (the loop of `FolderResolver::ancestors`). -/
def climb (find : String → Option Folder) : (bound : Nat) → (seen : List String) → (f : Folder) →
    Outcome (List Folder)
  | 0, _, f => .error (.folderCycle f.id)
  | bound + 1, seen, f =>
    if f.id ∈ seen then .error (.folderCycle f.id)
    else if f.parent = "" then .ok [f]
    else
      match find f.parent with
      | none => .error (.brokenFolderChain f.id f.parent)
      | some parent => (climb find bound (f.id :: seen) parent).map (f :: ·)

/-- The folders from the given one up to the top level; none for the top level itself
    (`FolderResolver::ancestors`). A walk cannot be longer than the number of folders of the owner. -/
def ancestors (db : Database) (owner : Int) (ref : String) : Outcome (List Folder) :=
  let id := FolderRef.normalize ref
  if id = "" then .ok []
  else
    match db.folderTable with
    | .error e => .error e
    | .ok rows =>
      match findFolder rows id owner with
      | none => .error (.notFound "folder")
      | some f =>
        climb (fun id => findFolder rows id owner) (max (rows.countP (·.ownerId == owner)) 1) [] f

/-- The way from a folder back to the top level: its parent first, the top level last
    (`FolderResolver::breadcrumbs`). The top level has none. -/
def breadcrumbs (db : Database) (owner : Int) (ref : String) : Outcome (List Breadcrumb) :=
  if FolderRef.isRoot ref then .ok []
  else (db.ancestors owner ref).map fun chain =>
    (chain.drop 1).map Breadcrumb.ofFolder ++ [Breadcrumb.root]

/-- What a folder holds (`FolderResolver::list_children`). -/
def listChildren (db : Database) (owner : Int) (ref : String) : Outcome Listing :=
  let parent := FolderRef.normalize ref
  match db.folderTable with
  | .error e => .error e
  | .ok rows =>
    if parent ≠ "" ∧ (findFolder rows parent owner).isNone then .error (.notFound "folder")
    else do
      let folders ← db.foldersUnder owner parent
      let files ← db.filesUnder owner parent
      let breadcrumbs ← db.breadcrumbs owner parent
      return ⟨folders, files, breadcrumbs⟩

/-- Creates a folder with the given new id under a parent (`FolderResolver::create_folder`). -/
def createFolder (db : Database) (owner : Int) (name parent id createdAt : String) :
    Outcome Folder × Database :=
  match Name.require name with
  | .error e => (.error e, db)
  | .ok name => db.insertFolder ⟨id, name, FolderRef.normalize parent, owner, createdAt⟩

/-- Removes a folder that is empty (`FolderResolver::delete_folder`). -/
def deleteFolder (db : Database) (owner : Int) (ref : String) : Outcome Unit × Database :=
  let id := FolderRef.normalize ref
  if id = "" then (.error (.notFound "folder"), db)
  else
    match db.folderById id owner with
    | .error e => (.error e, db)
    | .ok none => (.error (.notFound "folder"), db)
    | .ok (some _) =>
      match db.deleteFolderIfEmpty id owner with
      | (.error e, db) => (.error e, db)
      | (.ok true, db) => (.ok (), db)
      | (.ok false, db) =>
        match db.folderById id owner with
        | .error e => (.error e, db)
        | .ok none => (.error (.notFound "folder"), db)
        | .ok (some _) => (.error (.folderNotEmpty id), db)

end Database

end FileDepot
