import FileDepot.Name

/-!
# Errors

Everything that can go wrong, as causes, and the one place where each cause is put into words.
-/

namespace FileDepot

/-- The failures of the blob store. -/
inductive BlobError where
  | invalidPath (path : String)
  | notFound (path : String)
  | io (detail : String)
  deriving DecidableEq, Repr

/-- The failures of an upload. -/
inductive UploadError where
  | unknownOwner
  | quotaExceeded
  | payloadTooLarge (limit : Nat)
  | multipleFiles
  | missingFile
  | parentTooLong
  | bodyTooLarge
  | malformed (detail : String)
  deriving DecidableEq, Repr

/-- The failures of the depot (`BurrowError`). -/
inductive Error where
  | database (detail : String)
  | io (detail : String)
  | blob (cause : BlobError)
  | upload (cause : UploadError)
  | validation (detail : String)
  | notFound (what : String)
  | parentNotFound (id : String)
  | folderNotEmpty (id : String)
  | folderCycle (id : String)
  | brokenFolderChain (child missing : String)
  | config (detail : String)
  deriving DecidableEq, Repr

/-- The result of an operation that may fail. -/
abbrev Outcome (α : Type) := Except Error α

namespace BlobError

/-- The error in words. -/
def message : BlobError → String
  | invalidPath path => "invalid blob path: " ++ path
  | notFound path => "blob not found: " ++ path
  | io detail => "blob I/O error: " ++ detail

end BlobError

namespace UploadError

/-- The error in words. -/
def message : UploadError → String
  | unknownOwner => "user not found"
  | quotaExceeded => "storage quota exceeded"
  | payloadTooLarge limit => "file exceeds the upload limit of " ++ toString limit ++ " bytes"
  | multipleFiles => "only one file may be uploaded per request"
  | missingFile => "no file part in request"
  | parentTooLong => "parent field exceeds 1024 bytes"
  | bodyTooLarge => "request body too large"
  | malformed detail => "malformed multipart body: " ++ detail

end UploadError

namespace Error

/-- The error in words. -/
def message : Error → String
  | database detail => "database error: " ++ detail
  | io detail => "I/O error: " ++ detail
  | blob cause => "blob store error: " ++ cause.message
  | upload cause => "upload error: " ++ cause.message
  | validation detail => "validation error: " ++ detail
  | notFound what => what ++ " not found"
  | parentNotFound id => "parent folder " ++ id ++ " not found"
  | folderNotEmpty id => "folder " ++ id ++ " is not empty"
  | folderCycle id => "folder cycle detected at " ++ id
  | brokenFolderChain child missing =>
    "folder " ++ child ++ " references missing parent " ++ missing
  | config detail => "configuration error: " ++ detail

end Error

namespace Name

/-- The display name that `text` stands for, as an operation of the depot. -/
def require (text : String) : Outcome String :=
  match check text with
  | .ok name => .ok name
  | .error fault => .error (.validation fault.message)

end Name

end FileDepot
