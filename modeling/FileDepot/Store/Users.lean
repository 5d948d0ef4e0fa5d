import FileDepot.Store.Schema

/-!
# Users and their counters

The statements on the table of users. Each is one step on the database: it answers and leaves the
database as it was or changed.
-/

namespace FileDepot

namespace Counter

/-- The counter after `delta` is added to it (the sum in `adjust_space_used`). A sum below zero counts as zero. A
    sum that leaves the 64-bit numbers is computed with 53 significant bits, and is exact again once it is back
    among them. -/
def add (c : Counter) (delta : Int) : Counter :=
  match c with
  | exact n =>
    if int64Min ≤ n + delta ∧ n + delta ≤ int64Max then exact (max 0 (n + delta))
    else settle (nearest53 (nearest53 n + nearest53 delta))
  | overflowed n => settle (nearest53 (n + nearest53 delta))
where
  /-- Stores an approximate sum. -/
  settle (n : Int) : Counter := if n ≤ int64Max then exact (max 0 n) else overflowed n

/-- The value of a counter that can be read. -/
def read (c : Counter) : Outcome Int :=
  match c with
  | exact n => .ok n
  | overflowed _ => .error (.database "the counter holds no integer")

end Counter

/-- A user as read from the table. -/
structure Account where
  id : Int
  username : String
  quota : Int
  spaceUsed : Int
  createdAt : String
  deriving DecidableEq, Repr

namespace Account

/-- The quota of the user and the bytes counted against it (`User::usage`). -/
def usage (a : Account) : Usage := ⟨a.quota, a.spaceUsed⟩

end Account

namespace User

/-- The user, provided that the counter can be read. -/
def read (u : User) : Outcome Account :=
  u.spaceUsed.read.map fun used => ⟨u.id, u.username, u.quota, used, u.createdAt⟩

end User

namespace Database

/-- The table of users. -/
def userTable (db : Database) : Outcome UserTable :=
  match db.users with
  | some table => .ok table
  | none => .error (missingTable "users")

/-- The database with other rows in the table of users. -/
def withUsers (db : Database) (table : UserTable) : Database := { db with users := some table }

/-- The row of a user. -/
def findUser (table : UserTable) (id : Int) : Option User := table.rows.find? (·.id == id)

/-- Whether there is a user with the given id. -/
def hasUser (table : UserTable) (id : Int) : Bool := table.rows.any (·.id == id)

/-- The error of a quota below zero. -/
def negativeQuota : Error := .validation "quota must not be negative"

/-- Reads a user (`UserRepository::get_by_id`). -/
def userById (db : Database) (id : Int) : Outcome (Option Account) :=
  match db.userTable with
  | .error e => .error e
  | .ok table =>
    match findUser table id with
    | none => .ok none
    | some u => u.read.map some

/-- Reads the quota of a user and the bytes counted against it (`UserRepository::usage`). -/
def usageOf (db : Database) (id : Int) : Outcome (Option Usage) :=
  (db.userById id).map (·.map Account.usage)

/-- Adds a user, whose id is the one after the greatest that was ever given (`UserRepository::create`). -/
def createUser (db : Database) (username : String) (quota : Int) (createdAt : String) :
    Outcome Account × Database :=
  if quota < 0 then (.error negativeQuota, db)
  else
    match db.userTable with
    | .error e => (.error e, db)
    | .ok table =>
      if table.rows.any (·.username == username) then
        (.error (.database "the username is taken"), db)
      else
        let id := table.lastId + 1
        (.ok ⟨id, username, quota, 0, createdAt⟩,
          db.withUsers ⟨table.rows ++ [⟨id, username, quota, .exact 0, createdAt⟩], id⟩)

/-- Changes the quota of a user and tells whether there is one (`UserRepository::set_quota`). -/
def setQuota (db : Database) (id quota : Int) : Outcome Bool × Database :=
  if quota < 0 then (.error negativeQuota, db)
  else
    match db.userTable with
    | .error e => (.error e, db)
    | .ok table =>
      (.ok (hasUser table id),
        db.withUsers { table with
          rows := table.rows.map fun u => if u.id = id then { u with quota := quota } else u })

/-- Reads the counter of a user (`UserRepository::space_used`). -/
def spaceUsed (db : Database) (id : Int) : Outcome Int :=
  match db.userTable with
  | .error e => .error e
  | .ok table =>
    match findUser table id with
    | none => .error (.notFound "user")
    | some u => u.spaceUsed.read

/-- Adds to the counter of a user and reads it (`UserRepository::adjust_space_used`). A counter that overflows is
    stored and cannot be read. -/
def adjustSpaceUsed (db : Database) (id delta : Int) : Outcome Int × Database :=
  match db.userTable with
  | .error e => (.error e, db)
  | .ok table =>
    match findUser table id with
    | none => (.error (.notFound "user"), db)
    | some u =>
      let c := u.spaceUsed.add delta
      (c.read,
        db.withUsers { table with
          rows := table.rows.map fun u => if u.id = id then { u with spaceUsed := c } else u })

/-- Removes a user together with the folders and files of the user, and tells whether there was one. -/
def deleteUser (db : Database) (id : Int) : Outcome Bool × Database :=
  match db.userTable with
  | .error e => (.error e, db)
  | .ok table =>
    (.ok (hasUser table id),
      { db with
        users := some { table with rows := table.rows.filter (·.id != id) }
        folders := db.folders.map (·.filter (·.ownerId != id))
        files := db.files.map (·.filter (·.ownerId != id)) })

end Database

end FileDepot
