import FileDepot.Error
import FileDepot.Toml.Reader

/-!
# Settings

The settings of the program: their defaults, how a TOML document and the environment change them, and what
must hold before the program starts.
-/

namespace FileDepot

/-- Where the web interface listens and whom it trusts. -/
structure WebConfig where
  host : String
  port : Nat
  corsOrigins : List String
  jwtSecret : String
  deriving DecidableEq, Repr

/-- Where contents are kept, and how many bytes a file may have. -/
structure FilesConfig where
  storagePath : String
  maxFileSizeBytes : Nat
  deriving DecidableEq, Repr

/-- How much is logged, and where besides the standard output. -/
structure LoggingConfig where
  level : String
  file : Option String
  deriving DecidableEq, Repr

/-- All settings. -/
structure Config where
  web : WebConfig
  databasePath : String
  files : FilesConfig
  logging : LoggingConfig
  deriving DecidableEq, Repr

namespace Config

/-- The settings of a program without any document. -/
def defaults : Config where
  web := ⟨"0.0.0.0", 8080, [], ""⟩
  databasePath := "data/burrow.db"
  files := ⟨"data/blobs", 209715200⟩
  logging := ⟨"info", none⟩

/-! ### The document -/

/-- The values of the named settings of a section: of a table by name, of a list by place. A date has none. -/
def settings (names : List String) : Toml → Option (List (Option Toml))
  | .table _ entries => some (names.map fun name => entries.lookup name)
  | .list items => some ((List.range names.length).map fun n => items[n]?)
  | .tables items => some ((List.range names.length).map fun n => items[n]?.map (.table .header))
  | .date => some (names.map fun _ => none)
  | _ => none

/-- The value of a setting, which has a default. -/
def setting {α : Type} (read : Toml → Option α) (dflt : α) : Option Toml → Option α
  | none => some dflt
  | some value => read value

/-- A text. -/
def text? : Toml → Option String
  | .text s => some s
  | _ => none

/-- A number up to a greatest one. -/
def number? (greatest : Nat) : Toml → Option Nat
  | .integer n => if 0 ≤ n ∧ n ≤ greatest then some n.toNat else none
  | _ => none

/-- A list of texts. -/
def texts? : Toml → Option (List String)
  | .list items => items.mapM text?
  | _ => none

/-- The section on the web interface. -/
def web? (dflt : WebConfig) (section_ : Toml) : Option WebConfig := do
  match ← settings ["host", "port", "cors_origins", "jwt_secret"] section_ with
  | [host, port, origins, secret] =>
    return ⟨← setting text? dflt.host host, ← setting (number? 65535) dflt.port port,
      ← setting texts? dflt.corsOrigins origins, ← setting text? dflt.jwtSecret secret⟩
  | _ => none

/-- The section on the database. -/
def database? (dflt : String) (section_ : Toml) : Option String := do
  match ← settings ["path"] section_ with
  | [path] => setting text? dflt path
  | _ => none

/-- The section on files. -/
def files? (dflt : FilesConfig) (section_ : Toml) : Option FilesConfig := do
  match ← settings ["storage_path", "max_file_size_bytes"] section_ with
  | [path, size] =>
    return ⟨← setting text? dflt.storagePath path, ← setting (number? uint64Max) dflt.maxFileSizeBytes size⟩
  | _ => none

/-- The section on logging. -/
def logging? (dflt : LoggingConfig) (section_ : Toml) : Option LoggingConfig := do
  match ← settings ["level", "file"] section_ with
  | [level, file] =>
    return ⟨← setting text? dflt.level level, ← setting (fun v => (text? v).map some) dflt.file file⟩
  | _ => none

/-- The settings that the entries of a document make. Others than the known ones do not count. -/
def ofEntries? (entries : Toml.Entries) : Option Config := do
  let section? {α : Type} (name : String) (read : α → Toml → Option α) (dflt : α) : Option α :=
    setting (read dflt) dflt (entries.lookup name)
  return ⟨← section? "web" web? defaults.web, ← section? "database" database? defaults.databasePath,
    ← section? "files" files? defaults.files, ← section? "logging" logging? defaults.logging⟩

/-- The settings that a document makes (`Config::parse`). -/
def parse (document : String) : Outcome Config :=
  match (Toml.read? document).bind ofEntries? with
  | some config => .ok config
  | none => .error (.config "parse error")

/-! ### The environment -/

/-- The variable that overrides the secret (`ENV_JWT_SECRET`). -/
def secretVariable : String := "BURROW_JWT_SECRET"

/-- The variable that overrides the greatest size of a file (`ENV_MAX_FILE_BYTE_SIZE`). -/
def sizeVariable : String := "BURROW_MAX_FILE_BYTE_SIZE"

/-- The number that digits denote, after a plus sign or none, if it has 64 bits. -/
def unsigned? (text : String) : Option Nat :=
  let digits := match text.toList with
    | '+' :: rest => rest
    | cs => cs
  if digits.isEmpty || !digits.all Char.isDigit then none
  else
    let n := digits.foldl (fun n c => 10 * n + (c.toNat - 48)) 0
    if n ≤ uint64Max then some n else none

/-- The settings as the environment changes them, and the names of the variables that cannot be used
    (`apply_overrides`). Empty variables do not count. -/
def override (config : Config) (valueOf : String → Option String) : Config × List String :=
  let given? (name : String) : Option String := (valueOf name).filter fun value => !value.isEmpty
  let config := match given? secretVariable with
    | some secret => { config with web := { config.web with jwtSecret := secret } }
    | none => config
  match given? sizeVariable with
  | none => (config, [])
  | some value =>
    match unsigned? (Text.trim value) with
    | some size => ({ config with files := { config.files with maxFileSizeBytes := size } }, [])
    | none => (config, [sizeVariable])

/-- Whether the program can start with the settings (`Config::validate`). -/
def validate (config : Config) : Outcome Unit :=
  if config.web.jwtSecret.isEmpty then
    .error (.config ("web.jwt_secret must be set (or provide " ++ secretVariable ++ ")"))
  else if config.files.maxFileSizeBytes = 0 then
    .error (.config "files.max_file_size_bytes must be greater than zero")
  else .ok ()

end Config

end FileDepot
