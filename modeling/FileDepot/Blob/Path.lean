import FileDepot.Error

/-!
# Blob paths

Relative paths below the root of the blob store. A path is a list of segments; a text that could leave the
root, or that names the root itself, is no path.
-/

namespace FileDepot

/-- The segments of a path below the root of the blob store. -/
abbrev BlobPath := List String

namespace BlobPath

/-- The segments of a relative path that name something. -/
def segments (rel : String) : List String :=
  (Text.split '/' rel).filter fun s => s != "" && s != "."

/-- The path that `rel` names: not absolute, without `..`, and with at least one segment (`BlobStore::resolve`). -/
def resolve (rel : String) : Except BlobError BlobPath :=
  let parts := segments rel
  if rel.toList.head? = some '/' ∨ ".." ∈ parts ∨ parts = [] then .error (.invalidPath rel)
  else .ok parts

/-- Where the content of a file lies: below the directory of its owner (`blob_path`). -/
def ofFile (owner : Int) (fileId : String) : String := toString owner ++ "/" ++ fileId

end BlobPath

end FileDepot
