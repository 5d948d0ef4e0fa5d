import FileDepot.Depot
import FileDepot.Web.Refusal

/-!
# Responses

The answers to requests, and how records look in them.
-/

namespace FileDepot

/-- The body of a response; `broken` for one that fails while it is sent. -/
inductive ResponseBody where
  | empty
  | text (s : String)
  | json (value : Json)
  | content (bytes : Bytes)
  | broken
  deriving Repr

/-- The answer to a request. -/
structure Response where
  status : Nat
  headers : List (String × String)
  body : ResponseBody
  deriving Repr

namespace Response

/-- A response without a body. -/
def empty (status : Nat) : Response := ⟨status, [], .empty⟩

/-- A response of plain text. -/
def text (status : Nat) (s : String) : Response :=
  ⟨status, [("content-type", "text/plain; charset=utf-8")], .text s⟩

/-- A response of JSON. -/
def json (status : Nat) (value : Json) : Response :=
  ⟨status, [("content-type", "application/json")], .json value⟩

/-- A response that carries data. -/
def data (status : Nat) (value : Json) : Response := json status (.record [("data", value)])

/-- A response that carries a message. -/
def message (s : String) : Response := data 200 (.record [("message", .text s)])

/-- The response that refuses a request. -/
def refuse (r : Refusal) : Response := json r.kind.status r.body

/-- The response to what has been done, or the refusal that its failure becomes. -/
def ofOutcome {α : Type} (f : α → Response) (result : Outcome α) : Response :=
  match result with
  | .ok a => f a
  | .error e => refuse (.ofError e)

/-- The response without its body. -/
def headOnly (r : Response) : Response := { r with body := .empty }

/-- The response with further headers. -/
def withHeaders (r : Response) (headers : List (String × String)) : Response :=
  { r with headers := r.headers ++ headers }

end Response

/-- A file as clients see it (`FileResponse`). -/
def File.json (f : File) : Json :=
  .record [("id", .text f.id), ("name", .text f.name), ("extension", .text f.extension),
    ("mime_type", .text f.mimeType), ("size", .number f.size),
    ("parent", .text (FolderRef.forClient f.parent)), ("owner_id", .number f.ownerId),
    ("created_at", .text f.createdAt)]

/-- A folder as clients see it (`FolderResponse`). -/
def Folder.json (f : Folder) : Json :=
  .record [("id", .text f.id), ("name", .text f.name), ("parent", .text (FolderRef.forClient f.parent)),
    ("owner_id", .number f.ownerId), ("created_at", .text f.createdAt)]

/-- A breadcrumb as clients see it (`BreadcrumbResponse`). -/
def Breadcrumb.json (b : Breadcrumb) : Json :=
  .record [("label", .text b.label), ("folder_id", .text b.folderId)]

/-- The contents of a folder as clients see them (`FolderContentsResponse`). -/
def Listing.json (l : Listing) : Json :=
  .record [("files", .list (l.files.map File.json)), ("folders", .list (l.folders.map Folder.json)),
    ("breadcrumbs", .list (l.breadcrumbs.map Breadcrumb.json))]

/-- A usage as clients see it (`UsageResponse`). Without a quota nothing is said about what remains. -/
def Usage.json (u : Usage) : Json :=
  .record ([("quota", .number u.quota), ("space_used", .number u.spaceUsed)] ++
    match u.remaining with
    | none => []
    | some n => [("remaining", .number n)])

end FileDepot
