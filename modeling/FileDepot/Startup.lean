import FileDepot.Config
import FileDepot.Startup.Directory
import FileDepot.Startup.LogLine
import FileDepot.Store.Schema
import FileDepot.Web.SocketAddress

/-!
# Starting the program

What happens from the command line to the moment when the web interface listens: the settings are read, the
log is opened, the database and the directory for contents are made. The first failure stops the program.
-/

namespace FileDepot

/-- The part of the start that has been carried out: the time at which it is made, the working directory, what was
    told on the standard error, the least level of the lines that are logged, these lines, and the file that takes
    them too. -/
structure StartState where
  time : String
  directory : WorkingDirectory
  complaints : List String
  level : LogLevel
  lines : List LogLine
  logFile : Option BlobPath
  deriving DecidableEq, Repr

/-- A computation that may stop the start. -/
abbrev Startup (α : Type) := OptionT (StateM StartState) α

namespace Startup

/-- Logs a line, if its level is logged. -/
def logLine (line : LogLine) : Startup Unit := do
  let s ← get
  if s.level.rank ≤ line.level.rank then
    let directory := match s.logFile with
      | some place => s.directory.write place (Bytes.ofText (line.text s.time ++ "\n"))
      | none => s.directory
    set { s with lines := s.lines ++ [line], directory }

/-- Logs a line without values. -/
def log (level : LogLevel) (source message : String) : Startup Unit := logLine ⟨level, source, message, []⟩

/-- Tells something on the standard error. -/
def complain (message : String) : Startup Unit :=
  modify fun s => { s with complaints := s.complaints ++ [message] }

/-- Stops the start. -/
def stop {α : Type} : Startup α := failure

/-- The result of a step, or the end of the start with a line that tells its failure. -/
def orStop {α : Type} (what : String) (result : Outcome α) : Startup α := do
  match result with
  | .ok a => return a
  | .error e =>
    log .error "burrow" (what ++ e.message)
    stop

/-- A change of the working directory, which is kept even if it fails. -/
def alter (e : Error) (change : WorkingDirectory → Bool × WorkingDirectory) : Startup (Outcome Unit) := do
  let s ← get
  let (isDone, directory) := change s.directory
  set { s with directory }
  return if isDone then .ok () else .error e

/-- The failure of an access to the file system. -/
def fileFailure : Error := .io "the path cannot be used"

/-- The settings of the document at a path, and whether there is one (`Config::load`). -/
def loadConfig (path : String) : Startup (Config × Bool) := do
  let read : Outcome (Option Config) := match (← get).directory.find? path with
    | none => .ok none
    | some .directory => .error fileFailure
    | some (.blob content) =>
      match content.text? with
      | none => .error fileFailure
      | some document => (Config.parse document).map some
  match read with
  | .ok none => return (Config.defaults, false)
  | .ok (some config) => return (config, true)
  | .error e =>
    complain ("Failed to load " ++ path ++ ": " ++ e.message)
    stop

/-- Opens the log (`logging::init`). Without its file the log goes to the standard output only. -/
def openLog (config : LoggingConfig) : Startup Unit := do
  modify fun s => { s with level := LogLevel.ofText config.level }
  match config.file with
  | none => return
  | some path =>
    let made ← alter fileFailure (·.makeParent path)
    let s ← get
    match made, s.directory.openFile path with
    | .ok (), some (place, directory) => set { s with directory, logFile := some place }
    | _, _ => complain ("Failed to initialize logging: " ++ fileFailure.message)

/-- What is wrong with a text that is to be an unsigned number of 64 bits. -/
def numberFault (text : String) : String :=
  let overflow := "number too large to fit in target type"
  let invalid := "invalid digit found in string"
  match text.toList with
  | [] => "cannot parse integer from empty string"
  | ['+'] => invalid
  | '+' :: digits => fault overflow invalid 0 digits
  | digits => fault overflow invalid 0 digits
where
  /-- The first fault of digits that follow the digits of `n`. -/
  fault (overflow invalid : String) (n : Nat) : List Char → String
    | [] => invalid
    | c :: rest =>
      if !c.isDigit then invalid
      else
        let n := 10 * n + (c.toNat - 48)
        if uint64Max < n then overflow else fault overflow invalid n rest

/-- Applies the environment to the settings and tells which variables cannot be used (`apply_env_overrides`). -/
def applyEnvironment (config : Config) (valueOf : String → Option String) : Startup Config := do
  let (config, ignored) := config.override valueOf
  for name in ignored do
    let value := (valueOf name).getD ""
    logLine ⟨.warn, "burrow::config", "Ignoring invalid " ++ name,
      [("value", value), ("error", numberFault (Text.trim value))]⟩
  return config

/-- Opens the database at a path and brings it up to date (`Database::open`). -/
def openDatabase (path : String) : Startup (Outcome Unit) := do
  log .info "burrow::db" ("Opening database at " ++ Text.quoted path)
  match ← alter fileFailure (·.makeParent path) with
  | .error e => return .error e
  | .ok () =>
    let s ← get
    match s.directory.openDatabase path with
    | none => return .error (.database "unable to open database file")
    | some directory =>
      set { s with directory }
      log .info "burrow::db" ("Migrating database from version " ++
        toString Database.blank.schemaVersion ++ " to " ++ toString Database.migrationCount)
      for n in List.range Database.migrationCount do
        log .debug "burrow::db" ("Migration v" ++ toString (n + 1) ++ " applied")
      return .ok ()

/-- The whole start, for the arguments of the command line and the environment: the address at which the web
    interface listens (`main`). -/
def program (args : List String) (valueOf : String → Option String) : Startup SocketAddress := do
  let path := args.headD "config.toml"
  let (config, found) ← loadConfig path
  openLog config.logging
  log .info "burrow" "Burrow - per-user file storage service"
  if !found then log .warn "burrow" (path ++ " not found, using default configuration")
  let config ← applyEnvironment config valueOf
  orStop "Invalid configuration: " config.validate
  orStop ("Failed to open database " ++ config.databasePath ++ ": ") (← openDatabase config.databasePath)
  log .info "burrow" ("Database ready at " ++ config.databasePath)
  match ← alter fileFailure (·.makeDirectories config.files.storagePath) with
  | .error _ =>
    log .error "burrow" ("Failed to initialize blob store " ++ config.files.storagePath ++ ": " ++
      (BlobError.io "the path cannot be used").message)
    stop
  | .ok () =>
    log .info "burrow" ("Blob store ready at " ++ config.files.storagePath ++ " (max file size " ++
      toString config.files.maxFileSizeBytes ++ " bytes)")
    let address ← orStop "Failed to configure web server: "
      (SocketAddress.ofHost config.web.host config.web.port)
    log .info "burrow::web::server" ("Web server listening on http://" ++ address.text)
    return address

/-- The start at a time in a working directory: the address at which the web interface listens, unless the start
    was stopped, and what was told and made. -/
def run (time : String) (directory : WorkingDirectory) (args : List String) (valueOf : String → Option String) :
    Option SocketAddress × StartState :=
  OptionT.run (program args valueOf) ⟨time, directory, [], .info, [], none⟩

end Startup

end FileDepot
