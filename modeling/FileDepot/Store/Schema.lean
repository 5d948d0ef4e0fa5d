import FileDepot.Store.Database

/-!
# The schema

What names stand for in a database, the statements that make tables and indexes, and the migrations. Each
migration is a script of such statements and runs within a transaction of its own, which is rolled back if one
of them fails.
-/

namespace FileDepot

/-- The tables of the program. -/
inductive ProgramTable where
  | versions
  | users
  | folders
  | files
  deriving DecidableEq, Repr

namespace ProgramTable

/-- The name of the table in the schema. -/
def name : ProgramTable → String
  | versions => "schema_version"
  | users => "users"
  | folders => "folders"
  | files => "files"

/-- All tables of the program. -/
def all : List ProgramTable := [versions, users, folders, files]

end ProgramTable

/-- What a name of the schema can stand for. All names are in one space. -/
inductive SchemaObject where
  | table
  | view
  | index
  deriving DecidableEq, Repr

/-- A statement of a migration. -/
inductive SchemaStatement where
  | createTable (table : ProgramTable)
  | createIndex (name : String) (table : ProgramTable)
  | recordVersion (version : Int)
  deriving DecidableEq, Repr

namespace Database

/-! ## Names -/

/-- Whether a table of the program is there. -/
def holds (db : Database) : ProgramTable → Bool
  | .versions => db.versions.isSome
  | .users => db.users.isSome
  | .folders => db.folders.isSome
  | .files => db.files.isSome

/-- The names of all tables. -/
def tableNames (db : Database) : List String :=
  (ProgramTable.all.filter db.holds).map ProgramTable.name ++ db.surroundings.tables.map OtherTable.name ++
    if db.surroundings.keepsLastIds then ["sqlite_sequence"] else []

/-- Whether there is a table of exactly the given name (`table_exists`). -/
def hasTable (db : Database) (name : String) : Bool := db.tableNames.contains name

/-- Whether two names are one to the schema, which does not tell capital letters of ASCII from small ones. -/
def isSameName (a b : String) : Bool := a.toList.map Char.toLower == b.toList.map Char.toLower

/-- What a name stands for, if for anything. -/
def object? (db : Database) (name : String) : Option SchemaObject :=
  if db.tableNames.any (isSameName · name) then some .table
  else if db.surroundings.views.any (isSameName · name) then some .view
  else if db.surroundings.indexes.any fun i => isSameName i.name name then some .index
  else none

/-! ## Statements -/

/-- The failure to make a table under a name that is taken. -/
def tableClash (name : String) : SchemaObject → Error
  | .table => .database ("table " ++ name ++ " already exists")
  | .view => .database ("view " ++ name ++ " already exists")
  | .index => .database ("there is already an index named " ++ name)

/-- The failure to make an index under a name that is taken. -/
def indexClash (name : String) : SchemaObject → Error
  | .index => .database ("index " ++ name ++ " already exists")
  | _ => .database ("there is already a table named " ++ name)

/-- The database with a table of the program without rows. -/
def withTable (db : Database) : ProgramTable → Database
  | .versions => { db with versions := some [] }
  | .users =>
    { db with users := some ⟨[], 0⟩, surroundings := { db.surroundings with keepsLastIds := true } }
  | .folders => { db with folders := some [] }
  | .files => { db with files := some [] }

/-- The database with one more index. -/
def withIndex (db : Database) (index : Index) : Database :=
  { db with surroundings := { db.surroundings with indexes := db.surroundings.indexes ++ [index] } }

/-- Executes a statement of a migration. -/
def execute (db : Database) : SchemaStatement → Outcome Database
  | .createTable table =>
    match db.object? table.name with
    | some object => .error (tableClash table.name object)
    | none => .ok (db.withTable table)
  | .createIndex name table =>
    if !db.holds table then .error (missingTable table.name)
    else
      match db.object? name with
      | some object => .error (indexClash name object)
      | none => .ok (db.withIndex ⟨name, table.name⟩)
  | .recordVersion version =>
    match db.versions with
    | none => .error (missingTable ProgramTable.versions.name)
    | some versions =>
      if version ∈ versions then .error (.database "the version is recorded already")
      else .ok { db with versions := some (versions ++ [version]) }

/-- Makes the table of versions unless a table or a view of its name is there. -/
def ensureVersions (db : Database) : Outcome Database :=
  match db.object? ProgramTable.versions.name with
  | some .index => .error (tableClash ProgramTable.versions.name .index)
  | some _ => .ok db
  | none => .ok (db.withTable .versions)

end Database

/-! ## Transactions -/

/-- A transaction under way: the database as its statements have left it, and the one from before it, which a
    rollback brings back. -/
structure Transaction where
  current : Database
  before : Database
  deriving DecidableEq, Repr

namespace Transaction

/-- Begins a transaction. -/
def start (db : Database) : Transaction := ⟨db, db⟩

/-- Executes statements one after the other, up to the first that fails. What those before it have done stays
    done within the transaction. -/
def executeAll (t : Transaction) : List SchemaStatement → Outcome Unit × Transaction
  | [] => (.ok (), t)
  | statement :: rest =>
    match t.current.execute statement with
    | .error e => (.error e, t)
    | .ok db => { t with current := db }.executeAll rest

/-- Makes what the transaction has done permanent. -/
def commit (t : Transaction) : Database := t.current

/-- Undoes what the transaction has done. -/
def rollback (t : Transaction) : Database := t.before

end Transaction

namespace Database

/-! ## Migrations -/

/-- The scripts of the migrations, in order (`MIGRATIONS`). -/
def migrations : List (List SchemaStatement) :=
  [[.createTable .users],
    [.createTable .folders, .createIndex "idx_folders_owner_parent" .folders],
    [.createTable .files, .createIndex "idx_files_owner_parent" .files, .createIndex "idx_files_state" .files]]

/-- The number of migrations. -/
def migrationCount : Nat := migrations.length

/-- The greatest recorded migration (`schema_version`). -/
def schemaVersion (db : Database) : Int :=
  match db.versions with
  | some (v :: vs) => vs.foldl max v
  | _ => 0

/-- Runs the script of a migration and records its version, both in one transaction. A failure on the way rolls
    it back. -/
def applyMigration (db : Database) (script : List SchemaStatement) (version : Nat) : Outcome Unit × Database :=
  match (Transaction.start db).executeAll (script ++ [.recordVersion version]) with
  | (.ok (), t) => (.ok (), t.commit)
  | (.error e, t) => (.error e, t.rollback)

/-- Applies scripts, each with its place in the list of migrations, and stops at the first that fails. The version
    is the place counted from one. -/
def applyAll (db : Database) : List (List SchemaStatement × Nat) → Outcome Unit × Database
  | [] => (.ok (), db)
  | (script, place) :: rest =>
    match db.applyMigration script (place + 1) with
    | (.error e, db) => (.error e, db)
    | (.ok (), db) => db.applyAll rest

/-- Whether every migration is recorded. A negative version counts as later than all. -/
def isUpToDate (db : Database) : Bool :=
  db.schemaVersion < 0 || (migrationCount : Int) ≤ db.schemaVersion

/-- Applies the migrations that are not recorded yet (`migrate`). -/
def migrate (db : Database) : Outcome Unit × Database :=
  match db.ensureVersions with
  | .error e => (.error e, db)
  | .ok db =>
    if db.isUpToDate then (.ok (), db) else db.applyAll (migrations.zipIdx.drop db.schemaVersion.toNat)

/-- A new database. -/
def fresh : Database := blank.migrate.2

example : fresh.versions = some [1, 2, 3] ∧ fresh.surroundings.indexes.length = 3 := by decide +kernel

end Database

end FileDepot
