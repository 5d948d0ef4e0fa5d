import FileDepot.Text

/-!
# Resources

The paths of the web interface and the methods that each of them knows.
-/

namespace FileDepot

/-- The actions that need no request body. -/
inductive DirectAction where
  | listFiles
  | download
  | deleteFile
  | listFolder
  | deleteFolder
  | usage
  deriving DecidableEq, Repr

/-- The actions of the interface. -/
inductive Action where
  | upload
  | createFolder
  | rename
  | direct (action : DirectAction)
  deriving DecidableEq, Repr

/-- What a path names. An id is still encoded as in the path. -/
inductive Resource where
  | files
  | file (id : String)
  | folders
  | folder (id : String)
  | usage
  | health
  deriving DecidableEq, Repr

namespace Resource

/-- What a path names, if it names anything. A path with a slash at its end names nothing. -/
def ofPath? (path : String) : Option Resource :=
  match Text.split '/' path with
  | ["", "api", "files"] => some files
  | ["", "api", "files", id] => if id.isEmpty then none else some (file id)
  | ["", "api", "folders"] => some folders
  | ["", "api", "folders", id] => if id.isEmpty then none else some (folder id)
  | ["", "api", "usage"] => some usage
  | ["", "health"] => some health
  | _ => none

/-- The methods of a resource with their actions (the routes of `create_router`). -/
def actions : Resource → List (String × Action)
  | files => [("POST", .upload), ("GET", .direct .listFiles)]
  | file _ => [("GET", .direct .download), ("PATCH", .rename), ("DELETE", .direct .deleteFile)]
  | folders => [("POST", .createFolder), ("GET", .direct .listFolder)]
  | folder _ => [("GET", .direct .listFolder), ("DELETE", .direct .deleteFolder)]
  | usage => [("GET", .direct .usage)]
  | health => []

/-- The action of a method. `HEAD` stands for `GET`. -/
def action? (r : Resource) (method : String) : Option Action :=
  r.actions.lookup (if method = "HEAD" then "GET" else method)

/-- The methods of a resource as its answers list them. -/
def allow (r : Resource) : String :=
  match r with
  | health => "GET,HEAD"
  | _ => String.intercalate "," (r.actions.map fun entry => if entry.1 = "GET" then "GET,HEAD" else entry.1)

/-- The encoded id of a resource that has one. -/
def encodedId? : Resource → Option String
  | file id => some id
  | folder id => some id
  | _ => none

end Resource

end FileDepot
