import FileDepot.Blob.Path

/-!
# The blob tree

Directories and blobs below one root, and the operations on them. Every operation takes a relative path as
text and refuses the paths that `BlobPath.resolve` refuses.
-/

namespace FileDepot

/-- What a path of the blob tree can hold. -/
inductive BlobEntry where
  | directory
  | blob (content : Bytes)
  deriving DecidableEq, Repr

/-- The entries below the root, each path at most once. The root itself is a directory without entry. -/
structure BlobTree where
  entries : List (BlobPath × BlobEntry)
  deriving DecidableEq, Repr

namespace BlobTree

/-- The tree without entries. -/
def empty : BlobTree := ⟨[]⟩

/-- The entry at a path. -/
def get? (t : BlobTree) (path : BlobPath) : Option BlobEntry := t.entries.lookup path

/-- The tree without the entry at a path. -/
def erase (t : BlobTree) (path : BlobPath) : BlobTree :=
  ⟨t.entries.filter fun entry => entry.1 != path⟩

/-- The tree with a new entry at a path, which replaces the one that was there. -/
def put (t : BlobTree) (path : BlobPath) (entry : BlobEntry) : BlobTree :=
  ⟨(t.erase path).entries ++ [(path, entry)]⟩

/-- The tree with directories that are missing, each of them in the one before. -/
def addNested (t : BlobTree) (above : BlobPath) (names : List String) : BlobTree :=
  ⟨t.entries ++ (List.range names.length).map fun i => (above ++ names.take (i + 1), .directory)⟩

/-- The greatest length of a segment in bytes. -/
def maxSegmentLength : Nat := 255

/-- Whether a segment is too long for a name in a directory. -/
def isOverlong (segment : String) : Bool := maxSegmentLength < segment.utf8ByteSize

/-- The greatest length of a path in bytes, from the root of the file system on: the system takes 4096, of which the
    last is the zero at the end. -/
def maxFullLength : Nat := 4095

/-- The length in bytes of the path under which the root of the tree is kept, which is in a directory for temporary
    files. -/
def rootLength : Nat := 24

/-- The greatest length of a path below the root in bytes, where each segment counts with the slash before it: what
    the path of the root leaves of a whole path. -/
def maxPathLength : Nat := maxFullLength - rootLength

/-- Whether a path is too long or contains the character that no path may contain. -/
def isUnusable (path : BlobPath) : Bool :=
  maxPathLength < path.foldl (fun n s => n + s.utf8ByteSize + 1) 0 ||
    path.any fun s => s.toList.contains (Char.ofNat 0)

/-- Why a path leads nowhere. -/
inductive PathFault where
  | missing
  | unusable
  deriving DecidableEq, Repr

/-- Follows `rest` below the directory `above` and tells what is there, if anything. -/
def follow (t : BlobTree) (above : BlobPath) : BlobPath → Except PathFault (Option BlobEntry)
  | [] => .ok (some .directory)
  | [s] => if isOverlong s then .error .unusable else .ok (t.get? (above ++ [s]))
  | s :: rest =>
    if isOverlong s then .error .unusable
    else
      match t.get? (above ++ [s]) with
      | none => .error .missing
      | some (.blob _) => .error .unusable
      | some .directory => t.follow (above ++ [s]) rest

/-- What a path leads to. Every segment but the last has to be a directory. -/
def locate (t : BlobTree) (path : BlobPath) : Except PathFault (Option BlobEntry) :=
  if isUnusable path then .error .unusable else t.follow [] path

/-- The error for a path that leads nowhere (`map_io`). -/
def PathFault.toError (rel : String) : PathFault → BlobError
  | missing => .notFound rel
  | unusable => .io "the path cannot be used"

/-- Creates a blob without content, or empties the one that is there (`BlobStore::create`). -/
def create (t : BlobTree) (rel : String) : Except BlobError BlobTree :=
  match BlobPath.resolve rel with
  | .error e => .error e
  | .ok path =>
    match t.locate path with
    | .error fault => .error (fault.toError rel)
    | .ok (some .directory) => .error (.io "is a directory")
    | .ok _ => .ok (t.put path (.blob []))

/-- Opens what is at a path (`BlobStore::open`). A directory can be opened, though not read. -/
def open? (t : BlobTree) (rel : String) : Except BlobError BlobEntry :=
  match BlobPath.resolve rel with
  | .error e => .error e
  | .ok path =>
    match t.locate path with
    | .error fault => .error (fault.toError rel)
    | .ok none => .error (.notFound rel)
    | .ok (some entry) => .ok entry

/-- Removes a blob (`BlobStore::remove`). -/
def remove (t : BlobTree) (rel : String) : Except BlobError BlobTree :=
  match BlobPath.resolve rel with
  | .error e => .error e
  | .ok path =>
    match t.locate path with
    | .error fault => .error (fault.toError rel)
    | .ok none => .error (.notFound rel)
    | .ok (some .directory) => .error (.io "is a directory")
    | .ok (some (.blob _)) => .ok (t.erase path)

/-- Makes every directory of `rest` below the directory `above`. Those made before a failure stay. Below a
    directory that is missing all others are missing too. -/
def makeAll (t : BlobTree) (above : BlobPath) : BlobPath → Except PathFault Unit × BlobTree
  | [] => (.ok (), t)
  | s :: rest =>
    if isOverlong s then (.error .unusable, t)
    else
      match t.get? (above ++ [s]) with
      | some (.blob _) => (.error .unusable, t)
      | some .directory => t.makeAll (above ++ [s]) rest
      | none =>
        let names := (s :: rest).takeWhile (!isOverlong ·)
        (if names.length < (s :: rest).length then .error .unusable else .ok (), t.addNested above names)

/-- Makes a directory and the ones above it, as far as they are missing (`BlobStore::mkdir`). -/
def makeDirectory (t : BlobTree) (rel : String) : Except BlobError Unit × BlobTree :=
  match BlobPath.resolve rel with
  | .error e => (.error e, t)
  | .ok path =>
    if isUnusable path then (.error (PathFault.unusable.toError rel), t)
    else
      match t.makeAll [] path with
      | (.ok (), t) => (.ok (), t)
      | (.error fault, t) => (.error (fault.toError rel), t)

/-- Whether there is anything at a path (`BlobStore::exists`). -/
def contains (t : BlobTree) (rel : String) : Except BlobError Bool :=
  match BlobPath.resolve rel with
  | .error e => .error e
  | .ok path =>
    match t.locate path with
    | .error .missing => .ok false
    | .error .unusable => .error (PathFault.unusable.toError rel)
    | .ok entry => .ok entry.isSome

/-- The size that is reported for a directory. -/
def directorySize : Nat := 4096

/-- The size of what is at a path (`BlobStore::len`). -/
def sizeOf (t : BlobTree) (rel : String) : Except BlobError Nat :=
  match t.open? rel with
  | .error e => .error e
  | .ok .directory => .ok directorySize
  | .ok (.blob content) => .ok content.length

/-- Writes at the end of the blob that was opened at a path, where there is always room. If the blob has been
    removed since, what is written is lost. -/
def append (t : BlobTree) (rel : String) (bytes : Bytes) : BlobTree :=
  match BlobPath.resolve rel with
  | .error _ => t
  | .ok path =>
    match t.get? path with
    | some (.blob content) =>
      ⟨t.entries.map fun entry =>
        if entry.1 == path then (path, .blob (content ++ bytes)) else entry⟩
    | _ => t

end BlobTree

end FileDepot
