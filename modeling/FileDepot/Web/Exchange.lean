import FileDepot.Deletion
import FileDepot.Upload
import FileDepot.Web.Attachment
import FileDepot.Web.Cors
import FileDepot.Web.Identity
import FileDepot.Web.MediaType
import FileDepot.Web.Request
import FileDepot.Web.Resource
import FileDepot.Web.Response

/-!
# Exchanges

A request from its head to its answer. The head alone decides most requests; the others wait for their body,
which may arrive in pieces while other requests run.
-/

namespace FileDepot

/-- What the answers of the web interface depend on besides the request and the depot. -/
structure Site where
  secret : Bytes
  maxFileSize : Nat
  cors : Cors
  deriving DecidableEq, Repr

namespace Site

/-- The bytes that the body of an upload may have beyond the greatest file (`MULTIPART_OVERHEAD`). -/
def multipartOverhead : Nat := 65536

/-- The greatest body of an upload. -/
def uploadBodyLimit (site : Site) : Nat := min uint64Max (site.maxFileSize + multipartOverhead)

/-- The greatest JSON body. -/
def jsonBodyLimit : Nat := 2097152

end Site

/-- What is given to a request when it comes in: the time in seconds since 1970, and the id and the time of
    creation of the record that it may make. The id is new. -/
structure Arrival where
  now : Nat
  newId : String
  createdAt : String
  deriving DecidableEq, Repr

/-- A JSON request whose body is awaited. -/
inductive JsonTask where
  | createFolder
  | renameFile (id : String)
  deriving DecidableEq, Repr

/-- How far the answer to a request has come. -/
inductive Progress where
  | uploading (intake : Intake)
  | collecting (task : JsonTask) (owner : Int) (received : Bytes)
  | answered (response : Response)

/-- A request that is being answered. -/
structure Exchange where
  site : Site
  head : RequestHead
  arrival : Arrival
  progress : Progress

namespace Exchange

/-! ### Answers -/

/-- The headers of the answer with a file. -/
def fileHeaders (f : File) : List (String × String) :=
  [("content-type", f.mimeType), ("content-disposition", Attachment.disposition f.name),
    ("content-length", toString f.size), ("cache-control", "no-cache")]

/-- The answer to a request for a file (`download_file`). It cannot be built if a value of its headers is not
    legal. -/
def download (d : Depot) (owner : Int) (id : String) : Response :=
  Response.ofOutcome (fun found =>
    if (fileHeaders found.file).all fun header => HeaderValue.isLegal header.2 then
      ⟨200, fileHeaders found.file,
        match found.entry with
        | .blob content => .content content
        | .directory => .broken⟩
    else .refuse (.of .internal "Failed to build response")) (d.openDownload owner id)

/-- The answer to a request that needs no body. -/
def answer (action : DirectAction) (id : String) (owner : Int) (d : Depot) : Response × Depot :=
  match action with
  | .listFiles =>
    (.ofOutcome (fun files => .data 200 (.list (files.map File.json))) (d.db.filesOf owner), d)
  | .download => (download d owner id, d)
  | .deleteFile =>
    let (result, d) := d.delete owner id
    (.ofOutcome (fun _ => .message "File deleted") result, d)
  | .listFolder =>
    (.ofOutcome (fun listing => .data 200 listing.json) (d.db.listChildren owner id), d)
  | .deleteFolder =>
    let (result, db) := d.db.deleteFolder owner id
    (.ofOutcome (fun _ => .message "Folder deleted") result, { d with db })
  | .usage => (.ofOutcome (fun usage => .data 200 usage.json) (d.usage owner), d)

/-- The refusal of a JSON body. -/
def badJson (detail : String) : Response := .refuse (.of .badRequest ("Invalid JSON: " ++ detail))

/-- The refusal of a JSON body that cannot be read. -/
def ofFault : Json.Fault → Response
  | .mismatched => badJson "Failed to deserialize the JSON body into the target type"
  | .malformed | .truncated => badJson "Failed to parse the request body as JSON"

/-- The request that a JSON body makes, or the refusal of the body (`ValidatedJson`). -/
def parseBody {α : Type} (read : Json.Reader α) (refusal? : α → Option Refusal) (body : Bytes) :
    Except Response α :=
  match Json.readFirst read body with
  | .error fault => .error (ofFault fault)
  | .ok request =>
    match refusal? request with
    | some refusal => .error (.refuse refusal)
    | none => .ok request

/-- Carries out a JSON request (`create_folder`, `rename_file`). -/
def perform (task : JsonTask) (owner : Int) (arrival : Arrival) (body : Bytes) (d : Depot) :
    Response × Depot :=
  match task with
  | .createFolder =>
    match parseBody FolderRequest.read FolderRequest.refusal? body with
    | .error response => (response, d)
    | .ok request =>
      let (result, db) :=
        d.db.createFolder owner request.name request.parent arrival.newId arrival.createdAt
      (.ofOutcome (fun folder => .data 201 folder.json) result, { d with db })
  | .renameFile id =>
    match parseBody RenameRequest.read RenameRequest.refusal? body with
    | .error response => (response, d)
    | .ok request =>
      let (result, d) := d.rename owner id request.name
      (.ofOutcome (fun file => .data 200 file.json) result, d)

/-! ### The start -/

/-- The media type of the body of a request. -/
def mediaType? (head : RequestHead) : Option MediaType :=
  (head.headerText? "content-type").bind MediaType.ofText?

/-- What separates the parts of the body of an upload. -/
def boundary? (head : RequestHead) : Option Bytes :=
  ((mediaType? head).bind MediaType.boundary?).map Bytes.ofText

/-- Starts a JSON request. -/
def awaitJson (head : RequestHead) (task : JsonTask) (owner : Int) : Progress :=
  if ((mediaType? head).map MediaType.isJson).getD false then .collecting task owner []
  else .answered (badJson "Expected request with \x60Content-Type: application/json\x60")

/-- Starts an action for an owner. -/
def begin (site : Site) (head : RequestHead) (arrival : Arrival) (action : Action) (id : String)
    (owner : Int) (d : Depot) : Progress × Depot :=
  match action with
  | .upload =>
    match boundary? head with
    | none =>
      (.answered (.text 400 "Invalid \x60boundary\x60 for \x60multipart/form-data\x60 request"), d)
    | some boundary =>
      let ticket : Ticket := ⟨owner, arrival.newId, arrival.createdAt, site.maxFileSize⟩
      let (intake, d) := Intake.start ticket boundary site.uploadBodyLimit d
      (.uploading intake, d)
  | .createFolder => (awaitJson head .createFolder owner, d)
  | .rename => (awaitJson head (.renameFile id) owner, d)
  | .direct action =>
    let (response, d) := answer action id owner d
    (.answered response, d)

/-- The id that a resource names: the top level unless the path has one. -/
def decodedId (resource : Resource) : Except Response String :=
  match resource.encodedId? with
  | none => .ok rootFolderId
  | some id =>
    match (Percent.decode (Bytes.ofText id)).text? with
    | some id => .ok id
    | none => .error (.text 400 "Invalid URL: Invalid UTF-8 in \x60id\x60")

/-- Finds out what a request for a resource wants and who makes it, and starts it (the routes of
    `create_router`). -/
def dispatch (site : Site) (head : RequestHead) (arrival : Arrival) (resource : Resource) (d : Depot) :
    Progress × Depot :=
  match resource.action? head.method with
  | none => (.answered ((Response.empty 405).withHeaders [("allow", resource.allow)]), d)
  | some action =>
    match head.claims (some site.secret) arrival.now with
    | .error refusal => (.answered (.refuse refusal), d)
    | .ok claims =>
      match decodedId resource with
      | .error response => (.answered response, d)
      | .ok id => begin site head arrival action id claims.subject d

/-- The answer of the health check (`health_check`). -/
def health (head : RequestHead) : Response :=
  if head.method = "GET" ∨ head.method = "HEAD" then .text 200 "OK"
  else (Response.empty 405).withHeaders [("allow", Resource.health.allow)]

/-- Starts the answer to a request. -/
def start (site : Site) (head : RequestHead) (arrival : Arrival) (d : Depot) : Exchange × Depot :=
  let (progress, d) : Progress × Depot :=
    match Resource.ofPath? head.path with
    | none => (.answered (.empty 404), d)
    | some .health => (.answered (health head), d)
    | some resource =>
      if head.method = "OPTIONS" then
        (.answered ((Response.empty 200).withHeaders [("allow", resource.allow)]), d)
      else dispatch site head arrival resource d
  (⟨site, head, arrival, progress⟩, d)

/-! ### The body -/

/-- Delivers the next bytes of the body; `atEnd` says that no more will come. -/
def deliver (e : Exchange) (bytes : Bytes) (atEnd : Bool) (d : Depot) : Exchange × Depot :=
  match e.progress with
  | .answered _ => (e, d)
  | .uploading intake =>
    let (intake, d) := intake.deliver bytes atEnd d
    ({ e with progress := .uploading intake }, d)
  | .collecting task owner received =>
    let received := received ++ bytes
    if Site.jsonBodyLimit < received.length then
      ({ e with progress := .answered (badJson "Failed to buffer the request body") }, d)
    else if atEnd then
      let (response, d) := perform task owner e.arrival received d
      ({ e with progress := .answered response }, d)
    else ({ e with progress := .collecting task owner received }, d)

/-- Lets the body break off. -/
def interrupt (e : Exchange) (d : Depot) : Exchange × Depot :=
  match e.progress with
  | .answered _ => (e, d)
  | .uploading intake =>
    let (intake, d) := intake.interrupt d
    ({ e with progress := .uploading intake }, d)
  | .collecting _ _ _ =>
    ({ e with progress := .answered (badJson "Failed to buffer the request body") }, d)

/-! ### The end -/

/-- The answer before anything is added to it for browsers. -/
def rawResponse? (e : Exchange) : Option Response :=
  match e.progress with
  | .answered response => some response
  | .uploading intake => intake.result?.map (.ofOutcome fun _ => .empty 201)
  | .collecting _ _ _ => none

/-- The headers for requests from other origins; none for paths outside the interface. -/
def originHeaders (e : Exchange) : List (String × String) :=
  match Resource.ofPath? e.head.path with
  | none => []
  | some .health => []
  | some _ =>
    if e.head.method = "OPTIONS" then e.site.cors.preflightHeaders e.head
    else e.site.cors.answerHeaders e.head

/-- The answer, once there is one. -/
def response? (e : Exchange) : Option Response :=
  e.rawResponse?.map fun r =>
    (if e.head.method = "HEAD" then r.headOnly else r).withHeaders e.originHeaders

end Exchange

end FileDepot
