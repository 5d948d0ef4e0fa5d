import FileDepot.Text

/-!
# Names and folder references

The rule for display names, the spellings of the top level, and what becomes of a file name that a client
sends.
-/

namespace FileDepot

/-- The reserved id that names the top level (`ROOT_FOLDER_ID`). No folder has it. -/
def rootFolderId : String := "c32af1cc-aba9-4878-a305-5006dc7a5b76"

namespace FolderRef

/-- The stored form of a folder reference: trimmed, and empty for the top level (`normalize_parent`). -/
def normalize (ref : String) : String :=
  let ref := Text.trim ref
  if ref = rootFolderId then "" else ref

/-- Whether a folder reference names the top level (`is_root`). -/
def isRoot (ref : String) : Bool :=
  let ref := Text.trim ref
  ref.isEmpty || ref == rootFolderId

/-- A stored parent as clients see it: the reserved id stands for the top level (`parent_for_client`). -/
def forClient (parent : String) : String := if parent = "" then rootFolderId else parent

end FolderRef

/-- What can be wrong with a display name. -/
inductive NameFault where
  | empty
  | tooLong
  | separator
  deriving DecidableEq, Repr

namespace Name

/-- The greatest length of a display name in characters (`MAX_NAME_LENGTH`). -/
def maxLength : Nat := 255

/-- The display name that `text` stands for: `text` without the white space around it, which must not be empty,
    longer than the limit, or contain a path separator (`validate_name`). -/
def check (text : String) : Except NameFault String :=
  let name := Text.trim text
  if name.isEmpty then .error .empty
  else if maxLength < name.length then .error .tooLong
  else if name.toList.any Text.isSeparator then .error .separator
  else .ok name

/-- The name of a file that comes without a usable one (`UNTITLED`). -/
def untitled : String := "untitled"

/-- What follows the last path separator. -/
def baseChars (cs : List Char) : List Char :=
  (cs.reverse.takeWhile fun c => !Text.isSeparator c).reverse

/-- The name under which a file is kept whose client calls it `raw`: the last component of the path
    (`file_name`). -/
def ofClient (raw : String) : String :=
  let base := Text.trim (String.ofList (baseChars raw.toList))
  if base = "" ∨ base = "." ∨ base = ".." then untitled else base

/-- The part after the last dot in small letters; empty without a dot or with a leading one only
    (`file_extension`). -/
def extension (name : String) : String :=
  let tail := name.toList.reverse.takeWhile (· != '.')
  if name.toList.length ≤ tail.length + 1 then "" else Text.lower (String.ofList tail.reverse)

end Name

namespace NameFault

/-- The text that tells a client what is wrong. -/
def message : NameFault → String
  | empty => "name must not be empty"
  | tooLong => "name must be at most 255 characters"
  | separator => "name must not contain path separators"

end NameFault

end FileDepot
