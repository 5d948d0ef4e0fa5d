import FileDepot.Error
import FileDepot.Json.Value

/-!
# Refusals

The error answers of the web interface, and which of them each error of the depot becomes. Clients learn
nothing about failures inside the depot.
-/

namespace FileDepot

/-- The kinds of error answers (`ErrorCode`). -/
inductive RefusalKind where
  | badRequest
  | unauthorized
  | notFound
  | conflict
  | payloadTooLarge
  | invalidFields
  | quotaExceeded
  | unprocessable
  | internal
  deriving DecidableEq, Repr

namespace RefusalKind

/-- The status of the answer (`ErrorCode::status_code`). -/
def status : RefusalKind → Nat
  | badRequest => 400
  | unauthorized => 401
  | notFound => 404
  | conflict => 409
  | payloadTooLarge => 413
  | invalidFields => 422
  | quotaExceeded => 422
  | unprocessable => 422
  | internal => 500

/-- The name of the kind. -/
def name : RefusalKind → String
  | badRequest => "BadRequest"
  | unauthorized => "Unauthorized"
  | notFound => "NotFound"
  | conflict => "Conflict"
  | payloadTooLarge => "PayloadTooLarge"
  | invalidFields => "ValidationError"
  | quotaExceeded => "QuotaExceeded"
  | unprocessable => "UnprocessableEntity"
  | internal => "InternalError"

/-- The code of the kind in the body of the answer. -/
def code : RefusalKind → String
  | badRequest => "BAD_REQUEST"
  | unauthorized => "UNAUTHORIZED"
  | notFound => "NOT_FOUND"
  | conflict => "CONFLICT"
  | payloadTooLarge => "PAYLOAD_TOO_LARGE"
  | invalidFields => "VALIDATION_ERROR"
  | quotaExceeded => "QUOTA_EXCEEDED"
  | unprocessable => "UNPROCESSABLE_ENTITY"
  | internal => "INTERNAL_ERROR"

end RefusalKind

/-- An error answer (`ApiError`). The details tell for each faulty field of a request what is wrong with it. -/
structure Refusal where
  kind : RefusalKind
  message : String
  details : Option (List (String × List String))
  deriving DecidableEq, Repr

namespace Refusal

/-- An error answer without details. -/
def of (kind : RefusalKind) (message : String) : Refusal := ⟨kind, message, none⟩

/-- The answer to a request with faulty fields (`from_validation_errors`). -/
def ofFields (details : List (String × List String)) : Refusal :=
  ⟨.invalidFields, "Validation failed", some details⟩

/-- The answer after a failure that clients learn nothing about. -/
def internal : Refusal := of .internal "An internal error occurred"

/-- The answer to an upload that failed. -/
def ofUpload (e : UploadError) : Refusal :=
  match e with
  | .unknownOwner => of .unauthorized "User not found"
  | .quotaExceeded => of .quotaExceeded "Storage quota exceeded"
  | .payloadTooLarge _ | .bodyTooLarge => of .payloadTooLarge e.message
  | .multipleFiles | .missingFile | .parentTooLong | .malformed _ => of .badRequest e.message

/-- The answer to a request that failed. -/
def ofError (e : Error) : Refusal :=
  match e with
  | .upload cause => ofUpload cause
  | .notFound what => of .notFound (what ++ " not found")
  | .blob (.notFound _) => of .notFound "blob not found"
  | .parentNotFound _ => of .badRequest "Parent folder not found"
  | .folderNotEmpty _ => of .conflict "Folder is not empty"
  | .validation detail => of .unprocessable detail
  | .database _ | .io _ | .blob (.invalidPath _) | .blob (.io _) | .folderCycle _
  | .brokenFolderChain _ _ | .config _ => internal

/-- The error answer in one line. -/
def summary (r : Refusal) : String := r.kind.name ++ ": " ++ r.message

/-- The body of the answer (`ErrorBody`). -/
def body (r : Refusal) : Json :=
  let details := match r.details with
    | none => []
    | some fields => [("details", Json.record (fields.map fun (name, messages) =>
        (name, .list (messages.map .text))))]
  .record [("error", .record ([("code", .text r.kind.code), ("message", .text r.message)] ++ details))]

end Refusal

end FileDepot
