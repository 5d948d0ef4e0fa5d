import FileDepot.Blob.Tree
import FileDepot.Startup.DatabaseAddress

/-!
# The working directory

The files and directories that the program finds and makes when it starts. Paths are followed from the
working directory or from the root of the file system; what lies outside of the working directory is taken
to be empty.
-/

namespace FileDepot

/-- The files and directories that are known, by their paths. A path that leaves the working directory begins
    with the segments that lead out of it. -/
structure WorkingDirectory where
  tree : BlobTree
  deriving DecidableEq, Repr

namespace WorkingDirectory

/-- A directory with the given files. -/
def ofFiles (files : List (String × Bytes)) : WorkingDirectory :=
  ⟨⟨files.map fun file => ([file.1], .blob file.2)⟩⟩

/-- What is at a path whose directories exist. The working directory, those above it and the root exist. -/
def entry? (w : WorkingDirectory) (path : BlobPath) : Option BlobEntry :=
  if path.all (· == "..") || path == ["/"] then some .directory else w.tree.get? path

/-- Whether there is a directory at a path. -/
def isDirectory (w : WorkingDirectory) (path : BlobPath) : Bool := w.entry? path == some .directory

/-- The directory above. -/
def above (path : BlobPath) : BlobPath :=
  if path == ["/"] then path
  else if path.all (· == "..") then path ++ [".."]
  else path.dropLast

/-- The segments of a path in words, where the root is a segment of its own. -/
def segments (path : String) : List String :=
  match path.toList with
  | '/' :: rest => "/" :: Text.split '/' (String.ofList rest)
  | _ => Text.split '/' path

/-- Whether a segment is a name, and not a sign for the same directory, the one above or the root. -/
def isName (s : String) : Bool := s != "" && s != "." && s != ".." && s != "/"

/-- Follows segments below a path: where they lead, provided that all but the last name directories. Between two
    names nothing has to be looked up, since a directory lies in directories. -/
def follow (w : WorkingDirectory) (path : BlobPath) : List String → Option BlobPath
  | [] => some path
  | s :: rest =>
    let isBetweenNames := isName s && (rest.head?.map isName).getD false
    if (!isBetweenNames && !w.isDirectory path) || BlobTree.isOverlong s then none
    else if s == "" || s == "." then w.follow path rest
    else if s == ".." then w.follow (above path) rest
    else if s == "/" then w.follow ["/"] rest
    else w.follow (path ++ [s]) rest

/-- Whether a text can be a path at all. -/
def isPath (path : String) : Bool :=
  path.utf8ByteSize ≤ BlobTree.maxFullLength && !path.toList.contains (Char.ofNat 0)

/-- Where a path leads. -/
def locate (w : WorkingDirectory) (path : String) : Option BlobPath :=
  if path.isEmpty || !isPath path then none else w.follow [] (segments path)

/-- What is at a path. -/
def find? (w : WorkingDirectory) (path : String) : Option BlobEntry := (w.locate path).bind w.entry?

/-- Adds directories that are missing, each in the one before. -/
def addNested (w : WorkingDirectory) (path : BlobPath) (names : List String) : WorkingDirectory :=
  ⟨w.tree.addNested path names⟩

/-- Makes the directories that segments below a directory name: whether nothing was in the way. Those made before
    stay. Below a directory that is missing all others are missing too. -/
def makeAll (w : WorkingDirectory) (path : BlobPath) : List String → Bool × WorkingDirectory
  | [] => (true, w)
  | s :: rest =>
    if BlobTree.isOverlong s then (false, w)
    else if s == "" || s == "." then w.makeAll path rest
    else if s == ".." then w.makeAll (above path) rest
    else if s == "/" then w.makeAll ["/"] rest
    else
      match w.entry? (path ++ [s]) with
      | some .directory => w.makeAll (path ++ [s]) rest
      | some (.blob _) => (false, w)
      | none =>
        let names := s :: (rest.takeWhile (· != "..")).filter isName
        let short := names.takeWhile (!BlobTree.isOverlong ·)
        let w := w.addNested path short
        if short.length < names.length then (false, w)
        else w.makeAll (path ++ names) (rest.dropWhile (· != ".."))
termination_by segments => segments.length
decreasing_by
  all_goals simp only [List.length_cons]
  all_goals first
    | omega
    | exact Nat.lt_succ_of_le (List.dropWhile_sublist _).length_le

/-- Segments without those at the end that change nothing, where the last segment comes first. -/
def dropTrailing : List String → List String
  | s :: t :: rest => if s == "" || s == "." then dropTrailing (t :: rest) else s :: t :: rest
  | segments => segments

/-- The path of the directory in which a path lies. It is empty if that is the working directory, or if there is
    none. -/
def parent (path : String) : String :=
  match (dropTrailing ((dropTrailing (segments path).reverse).drop 1)).reverse with
  | "/" :: rest => "/" ++ String.intercalate "/" rest
  | rest => String.intercalate "/" rest

/-- Whether a path ends with a sign for the directory before it. -/
def endsInDot (path : String) : Bool :=
  ((segments path).reverse.takeWhile fun s => s == "" || s == ".").contains "."

/-- Makes a directory and those above it, as far as they are missing: whether it is there then. A path that ends
    in a dot names a directory that is not made itself. -/
def makeDirectories (w : WorkingDirectory) (path : String) : Bool × WorkingDirectory :=
  if !isPath path then (false, w)
  else if endsInDot path then
    let (isMade, w) := w.makeAll [] (segments (parent path))
    (isMade && w.find? path == some .directory, w)
  else w.makeAll [] (segments path)

/-- Makes the directory in which a path lies, unless something is there. -/
def makeParent (w : WorkingDirectory) (path : String) : Bool × WorkingDirectory :=
  if parent path == "" || (w.find? (parent path)).isSome then (true, w) else w.makeDirectories (parent path)

/-- Opens a file for writing at its end: where it is. It is made if it is missing. -/
def openFile (w : WorkingDirectory) (path : String) : Option (BlobPath × WorkingDirectory) := do
  let place ← w.locate path
  match w.entry? place with
  | some .directory => none
  | some (.blob _) => return (place, w)
  | none => return (place, ⟨w.tree.put place (.blob [])⟩)

/-- Writes at the end of a file. -/
def write (w : WorkingDirectory) (place : BlobPath) (bytes : Bytes) : WorkingDirectory :=
  match w.tree.get? place with
  | some (.blob content) => ⟨w.tree.put place (.blob (content ++ bytes))⟩
  | _ => w

/-- The bytes that a database file begins with. -/
def databaseMark : Bytes := Bytes.ofAscii "SQLite format 3" ++ [0]

/-- The greatest length of the full path of a database in bytes. -/
def maxDatabasePathLength : Nat := 504

/-- What the path of the working directory takes of that length. -/
def ownPathLength : Nat := 16

/-- The length of a full path in bytes. -/
def fullLength (path : BlobPath) : Nat :=
  let length (names : List String) : Nat := names.foldl (fun n s => n + s.utf8ByteSize + 1) 0
  match path with
  | "/" :: names => length names
  | names => ownPathLength + length names

/-- The place that segments below a path name when two dots take back the segment before them. What is on the
    way may be missing, but it must be no file. -/
def reduce (w : WorkingDirectory) (path : BlobPath) : List String → Option BlobPath
  | [] => some path
  | s :: rest =>
    if s == "" || s == "." then w.reduce path rest
    else if s == ".." then w.reduce (above path) rest
    else if s == "/" then w.reduce ["/"] rest
    else
      match w.entry? path with
      | some (.blob _) => none
      | _ =>
        if BlobTree.isOverlong s || maxDatabasePathLength < fullLength (path ++ [s]) then none
        else w.reduce (path ++ [s]) rest

/-- Makes a new database in a file, which may be there without content, and the files beside it. For a while
    there is a journal as well, so that its name has to be possible. -/
def makeDatabase (w : WorkingDirectory) (file : DatabaseFile) : Option WorkingDirectory := do
  if (file.model?.map fun path => (w.find? path).isNone).getD false then none
  let place ← w.reduce [] (segments file.path)
  match w.entry? place with
  | some .directory => none
  | some (.blob content) => if !content.isEmpty then none
  | none => if file.mustExist || !w.isDirectory place.dropLast then none
  let beside (ending : String) : BlobPath := place.dropLast ++ [place.getLastD "" ++ ending]
  if BlobTree.isOverlong (place.getLastD "" ++ "-journal") then none
  if ("-journal" :: "-wal" :: file.companions).any fun ending => w.isDirectory (beside ending) then none
  return ⟨file.companions.foldl (fun tree ending => tree.put (beside ending) (.blob []))
    (w.tree.put place (.blob databaseMark))⟩

/-- Opens a new database at a path. -/
def openDatabase (w : WorkingDirectory) (path : String) : Option WorkingDirectory := do
  let address ← DatabaseAddress.ofText? path
  match ← address.target? with
  | none => return w
  | some file => w.makeDatabase file

end WorkingDirectory

end FileDepot
