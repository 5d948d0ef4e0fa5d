import FileDepot.Error
import FileDepot.Quota

/-!
# The database

The rows of the three tables, the tables themselves, which may be missing, and what a database holds beside
them.
-/

namespace FileDepot

/-- The bytes counted against a user (`space_used`). A sum that leaves the 64-bit numbers is kept as the nearest
    number with 53 significant bits, and such a counter can no longer be read. -/
inductive Counter where
  | exact (value : Int)
  | overflowed (approx : Int)
  deriving DecidableEq, Repr

/-- A user. -/
structure User where
  id : Int
  username : String
  quota : Int
  spaceUsed : Counter
  createdAt : String
  deriving DecidableEq, Repr

/-- A folder. An empty parent means the top level. -/
structure Folder where
  id : String
  name : String
  parent : String
  ownerId : Int
  createdAt : String
  deriving DecidableEq, Repr

/-- How far the upload of a file has come. A row with any other text in its place cannot be read. -/
inductive FileState where
  | pending
  | complete
  | unknown (text : String)
  deriving DecidableEq, Repr

namespace FileState

/-- The state that a stored text stands for (`FileState::try_from`). -/
def ofText (text : String) : FileState :=
  if text = "pending" then pending else if text = "complete" then complete else unknown text

/-- The stored text (`FileState::as_str`). -/
def text : FileState → String
  | pending => "pending"
  | complete => "complete"
  | unknown text => text

end FileState

/-- A file (`FileRecord`). Its content lies in the blob store. -/
structure File where
  id : String
  name : String
  extension : String
  mimeType : String
  size : Int
  state : FileState
  parent : String
  ownerId : Int
  createdAt : String
  deriving DecidableEq, Repr

namespace Folder

/-- Whether the folder lies at the top level (`Folder::is_top_level`). -/
def isTopLevel (f : Folder) : Bool := f.parent == ""

end Folder

namespace File

/-- Whether the upload of the file was finished (`FileRecord::is_complete`). -/
def isComplete (f : File) : Bool := f.state == .complete

end File

/-- The users and the greatest id that was ever given to one. -/
structure UserTable where
  rows : List User
  lastId : Int
  deriving DecidableEq, Repr

/-- A table that is none of the program, with its rows as they are stored. -/
structure OtherTable where
  name : String
  rows : List Bytes
  deriving DecidableEq, Repr

/-- An index that was made under a name. It goes with its table. -/
structure Index where
  name : String
  table : String
  deriving DecidableEq, Repr

/-- What a database holds beside the tables of the program: other tables, views, the indexes of all tables, and
    the table of the last given ids, which is made with the first table that keeps such an id and then stays. -/
structure Surroundings where
  tables : List OtherTable
  views : List String
  indexes : List Index
  keepsLastIds : Bool
  deriving DecidableEq, Repr

/-- The tables in the order in which they were filled. A table of the program that is missing is `none`;
    `versions` are the numbers of the migrations recorded as applied. -/
structure Database where
  versions : Option (List Int)
  users : Option UserTable
  folders : Option (List Folder)
  files : Option (List File)
  surroundings : Surroundings
  deriving DecidableEq, Repr

namespace Surroundings

/-- No other table, no view and no index. -/
def empty : Surroundings := ⟨[], [], [], false⟩

end Surroundings

namespace Database

/-- The error of a statement on a table that is missing. -/
def missingTable (name : String) : Error := .database ("no such table: " ++ name)

/-- A database without any table. -/
def blank : Database := ⟨none, none, none, none, .empty⟩

end Database

end FileDepot
