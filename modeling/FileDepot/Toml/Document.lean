/-!
# TOML documents

Tables with named entries, and how the lines of a document build them: an entry or a header may not give
anything a second meaning.
-/

namespace FileDepot

/-- How a table came about, which decides what may be added to it. -/
inductive TableOrigin where
  /-- written in braces -/
  | braces
  /-- opened by a header -/
  | header
  /-- named on the way to a table that a header opened -/
  | passage
  /-- named on the way to an entry -/
  | dotted
  deriving DecidableEq, Repr

/-- A TOML value. Of the values that no setting can have only the kind is kept. -/
inductive Toml where
  | text (s : String)
  | integer (n : Int)
  | real
  | bool
  | date
  | list (items : List Toml)
  | table (origin : TableOrigin) (entries : List (String × Toml))
  /-- the tables opened by headers in double brackets -/
  | tables (items : List (List (String × Toml)))
  deriving Repr

namespace Toml

/-- The entries of a table. -/
abbrev Entries := List (String × Toml)

/-- The entries with another value for a name that they have. -/
def replace (name : String) (value : Toml) (entries : Entries) : Entries :=
  entries.map fun entry => if entry.1 == name then (name, value) else entry

/-- Whether names on the way to an entry, or to a header, may lead through a table. -/
def TableOrigin.isPassable (toEntry : Bool) : TableOrigin → Bool
  | .braces => false
  | .header => !toEntry
  | .passage => true
  | .dotted => true

/-- Changes the table that a path of names leads to. Tables that are missing on the way are made; among tables
    opened by headers in double brackets the way leads through the last one. -/
def change (toEntry : Bool) (f : TableOrigin → Entries → Option Entries) (origin : TableOrigin) :
    (path : List String) → Entries → Option Entries
  | [], entries => f origin entries
  | name :: path, entries =>
    match entries.lookup name with
    | none =>
      let made : TableOrigin := if toEntry then .dotted else .passage
      (change toEntry f made path []).map fun sub => entries ++ [(name, table made sub)]
    | some (table origin sub) =>
      if TableOrigin.isPassable toEntry origin then
        (change toEntry f origin path sub).map fun sub => replace name (table origin sub) entries
      else none
    | some (tables items) =>
      match items.getLast? with
      | none => none
      | some last =>
        (change toEntry f .header path last).map fun last =>
          replace name (tables (items.dropLast ++ [last])) entries
    | some _ => none

/-- Adds an entry to a table. The names before the last one lead only through tables that such names made. -/
def addEntry (path : List String) (name : String) (value : Toml) (entries : Entries) : Option Entries :=
  change true (fun origin found =>
    if (origin == .dotted) == path.isEmpty then none
    else if (found.lookup name).isSome then none
    else some (found ++ [(name, value)])) .header path entries

/-- The table of entries in braces. -/
def ofPairs (pairs : List (List String × String × Toml)) : Option Toml :=
  (pairs.foldlM (fun entries pair => addEntry pair.1 pair.2.1 pair.2.2 entries) []).map (table .braces)

/-- A document that is being read: the tables already complete, the path of the table that takes entries,
    whether it is one of several, and its entries. -/
structure Draft where
  root : Entries
  path : List String
  isOneOfSeveral : Bool
  current : Entries
  deriving Repr

namespace Draft

/-- A document without lines. -/
def blank : Draft := ⟨[], [], false, []⟩

/-- Puts the table that takes entries into its place. -/
def close (d : Draft) : Option Entries :=
  match d.path.getLast? with
  | none => some d.current
  | some name =>
    change false (fun _ found =>
      if d.isOneOfSeveral then
        match found.lookup name with
        | none => some (found ++ [(name, tables [d.current])])
        | some (tables items) => some (replace name (tables (items ++ [d.current])) found)
        | some _ => none
      else some (found ++ [(name, table .header d.current)])) .header d.path.dropLast d.root

/-- What a header finds in its place: the entries of a table that was only named on the way to others, which
    it may open, or nothing. -/
def opened (root : Entries) (path : List String) : Option Entries :=
  match path with
  | [] => some []
  | name :: rest =>
    match root.lookup name with
    | none => some []
    | some (table origin sub) =>
      if rest.isEmpty then if origin == .passage then some sub else none
      else opened sub rest
    | some (tables items) => if rest.isEmpty then none else (items.getLast?).bind fun last => opened last rest
    | some _ => none

/-- Begins the table of a header. -/
def openTable (path : List String) (d : Draft) : Option Draft := do
  let root ← d.close
  let current ← opened root path
  let name ← path.getLast?
  let root ← change false (fun _ found => some (found.filter fun entry => entry.1 != name)) .header
    path.dropLast root
  return ⟨root, path, false, current⟩

/-- Begins the table of a header in double brackets. -/
def openOneOfSeveral (path : List String) (d : Draft) : Option Draft := do
  let root ← d.close
  let name ← path.getLast?
  let root ← change false (fun _ found =>
    match found.lookup name with
    | none => some (found ++ [(name, tables [])])
    | some (tables _) => some found
    | some _ => none) .header path.dropLast root
  return ⟨root, path, true, []⟩

/-- Adds an entry to the table that takes entries. -/
def add (path : List String) (name : String) (value : Toml) (d : Draft) : Option Draft :=
  (addEntry path name value d.current).map fun current => { d with current }

end Draft

end Toml

end FileDepot
