import FileDepot.Store.Schema

/-!
# Statements on the schema

All names of tables, views and indexes are in one space. A statement that makes a table or an index succeeds only
if its name is free, and takes no other name away; a transaction whose statements have all succeeded therefore found
all of their names free, and a rollback brings back what was there before.
-/

namespace FileDepot

/-- Two names that differ at most in the size of ASCII letters. -/
def SameName (a b : String) : Prop := a.toList.map Char.toLower = b.toList.map Char.toLower

instance : DecidableRel SameName := fun a b =>
  inferInstanceAs (Decidable (a.toList.map Char.toLower = b.toList.map Char.toLower))

/-- A name is one of some names. -/
def IsAmong (names : List String) (name : String) : Prop := ∃ n ∈ names, SameName n name

instance (names : List String) : DecidablePred (IsAmong names) := fun name =>
  inferInstanceAs (Decidable (∃ n ∈ names, SameName n name))

/-- The name that a statement needs. -/
def SchemaStatement.name? : SchemaStatement → Option String
  | .createTable t => some t.name
  | .createIndex name _ => some name
  | .recordVersion _ => none

namespace SameName

variable {a b : String}

theorem symm (h : SameName a b) : SameName b a := Eq.symm h

end SameName

namespace Database

variable {db after : Database} {name : String}

/-! ## Names -/

/-- The names of all tables, views and indexes. -/
def namesInUse (db : Database) : List String :=
  (if db.versions.isSome then ["schema_version"] else []) ++ (if db.users.isSome then ["users"] else []) ++
    (if db.folders.isSome then ["folders"] else []) ++ (if db.files.isSome then ["files"] else []) ++
    db.surroundings.tables.map OtherTable.name ++
    (if db.surroundings.keepsLastIds then ["sqlite_sequence"] else []) ++ db.surroundings.views ++
    db.surroundings.indexes.map Index.name

/-- Something has the name already. -/
def Taken (db : Database) (name : String) : Prop := IsAmong db.namesInUse name

theorem isSameName_iff {a b : String} : isSameName a b = true ↔ SameName a b := beq_iff_eq

theorem namesInUse_eq (db : Database) :
    db.namesInUse = db.tableNames ++ db.surroundings.views ++ db.surroundings.indexes.map Index.name := by
  obtain ⟨versions, users, folders, files, surroundings⟩ := db
  cases versions <;> cases users <;> cases folders <;> cases files <;> rfl

/-- A name stands for nothing if and only if it is free. -/
theorem object?_eq_none_iff : db.object? name = none ↔ ¬db.Taken name := by
  have htaken : db.Taken name ↔ db.namesInUse.any (isSameName · name) = true := by
    simp only [Taken, IsAmong, List.any_eq_true, isSameName_iff]
  rw [htaken, namesInUse_eq, List.any_append, List.any_append, List.any_map, object?]
  simp only [Function.comp_def]
  cases db.tableNames.any (isSameName · name) with
  | true => simp
  | false =>
    cases db.surroundings.views.any (isSameName · name) with
    | true => simp
    | false => cases db.surroundings.indexes.any fun i => isSameName i.name name <;> simp

theorem mem_namesInUse : name ∈ db.namesInUse ↔
    (db.versions.isSome = true ∧ name = "schema_version") ∨ (db.users.isSome = true ∧ name = "users") ∨
      (db.folders.isSome = true ∧ name = "folders") ∨ (db.files.isSome = true ∧ name = "files") ∨
      (∃ t ∈ db.surroundings.tables, t.name = name) ∨
      (db.surroundings.keepsLastIds = true ∧ name = "sqlite_sequence") ∨
      name ∈ db.surroundings.views ∨ ∃ i ∈ db.surroundings.indexes, i.name = name := by
  simp only [namesInUse, List.mem_append, List.mem_ite_nil_right, List.mem_singleton, List.mem_map, or_assoc]

theorem name_mem_of_table {t : OtherTable} (h : t ∈ db.surroundings.tables) : t.name ∈ db.namesInUse :=
  mem_namesInUse.mpr (Or.inr (Or.inr (Or.inr (Or.inr (Or.inl ⟨t, h, rfl⟩)))))

theorem name_mem_of_index {i : Index} (h : i ∈ db.surroundings.indexes) : i.name ∈ db.namesInUse :=
  List.mem_append_right _ (List.mem_map_of_mem h)

/-- Names that were in use still are. -/
theorem Taken.mono (h : db.Taken name) (hsub : ∀ used ∈ db.namesInUse, used ∈ after.namesInUse) :
    after.Taken name := by
  obtain ⟨used, hused, hsame⟩ := h
  exact ⟨used, hsub used hused, hsame⟩

/-! ## Statements -/

theorem holds_withTable (db : Database) (t : ProgramTable) : (db.withTable t).holds t = true := by
  cases t <;> rfl

theorem versions_withTable {t : ProgramTable} (h : t ≠ .versions) : (db.withTable t).versions = db.versions := by
  cases t with
  | versions => exact absurd rfl h
  | users | folders | files => rfl

theorem holds_withIndex (db : Database) (i : Index) (t : ProgramTable) :
    (db.withIndex i).holds t = db.holds t := by
  cases t <;> rfl

theorem foldl_withIndex (db : Database) (indexes : List Index) :
    indexes.foldl withIndex db =
      { db with surroundings := { db.surroundings with indexes := db.surroundings.indexes ++ indexes } } := by
  induction indexes generalizing db with
  | nil => simp
  | cons i indexes ih => simp [ih, withIndex]

/-- A new table takes its own name, and perhaps that of the table that comes along. -/
theorem namesInUse_withTable (db : Database) (t : ProgramTable) :
    (∀ used ∈ db.namesInUse, used ∈ (db.withTable t).namesInUse) ∧
      ∀ used ∈ (db.withTable t).namesInUse, used ∈ db.namesInUse ∨ used = t.name ∨ used = "sqlite_sequence" := by
  constructor
  · intro used hused
    rw [mem_namesInUse] at hused ⊢
    rcases hused with ⟨h, rfl⟩ | ⟨h, rfl⟩ | ⟨h, rfl⟩ | ⟨h, rfl⟩ | h | ⟨h, rfl⟩ | h | h
    all_goals cases t <;> simp [withTable, h]
  · intro used hused
    rw [mem_namesInUse] at hused ⊢
    rcases hused with ⟨h, rfl⟩ | ⟨h, rfl⟩ | ⟨h, rfl⟩ | ⟨h, rfl⟩ | h | ⟨h, rfl⟩ | h | h
    all_goals cases t <;> simp_all [withTable, ProgramTable.name]

theorem namesInUse_withIndex (db : Database) (i : Index) :
    (db.withIndex i).namesInUse = db.namesInUse ++ [i.name] := by
  simp only [namesInUse, withIndex, List.map_append, List.map_cons, List.map_nil, List.append_assoc]
  rfl

theorem taken_withIndex {i : Index} : (db.withIndex i).Taken name ↔ db.Taken name ∨ SameName i.name name := by
  simp only [Taken, IsAmong, namesInUse_withIndex, List.mem_append, List.mem_singleton, or_and_right, exists_or,
    exists_eq_left]

theorem Taken.of_withTable {t : ProgramTable} (h : (db.withTable t).Taken name) :
    db.Taken name ∨ SameName t.name name ∨ SameName "sqlite_sequence" name := by
  obtain ⟨used, hused, hsame⟩ := h
  rcases (namesInUse_withTable db t).2 used hused with hold | rfl | rfl
  · exact Or.inl ⟨used, hold, hsame⟩
  · exact Or.inr (Or.inl hsame)
  · exact Or.inr (Or.inr hsame)

/-- What a statement makes of a database when it succeeds. -/
inductive Executes (db : Database) : SchemaStatement → Database → Prop where
  | createTable {t : ProgramTable} (hfree : ¬db.Taken t.name) : Executes db (.createTable t) (db.withTable t)
  | createIndex {name : String} {t : ProgramTable} (hheld : db.holds t = true) (hfree : ¬db.Taken name) :
      Executes db (.createIndex name t) (db.withIndex ⟨name, t.name⟩)
  | recordVersion {versions : List Int} {i : Int} (hversions : db.versions = some versions)
      (hnew : i ∉ versions) : Executes db (.recordVersion i) { db with versions := some (versions ++ [i]) }

theorem execute_eq_ok_iff {st : SchemaStatement} : db.execute st = .ok after ↔ db.Executes st after := by
  constructor
  · intro h
    cases st with
    | createTable t =>
      simp only [execute] at h
      split at h
      · cases h
      · next hnone =>
        cases h
        exact .createTable (object?_eq_none_iff.mp hnone)
    | createIndex name t =>
      simp only [execute] at h
      split at h
      · cases h
      · next hheld =>
        split at h
        · cases h
        · next hnone =>
          cases h
          exact .createIndex (by simpa using hheld) (object?_eq_none_iff.mp hnone)
    | recordVersion version =>
      simp only [execute] at h
      split at h
      · cases h
      · next versions hversions =>
        split at h
        · cases h
        · next hnew =>
          cases h
          exact .recordVersion hversions hnew
  · intro h
    cases h with
    | createTable hfree => simp only [execute, object?_eq_none_iff.mpr hfree]
    | createIndex hheld hfree => simp [execute, hheld, object?_eq_none_iff.mpr hfree]
    | recordVersion hversions hnew => simp only [execute, hversions, if_neg hnew]

/-- A statement that succeeds found its name free. -/
theorem Executes.free {st : SchemaStatement} (h : db.Executes st after) (hname : st.name? = some name) :
    ¬db.Taken name := by
  cases h with
  | createTable hfree =>
    cases hname
    exact hfree
  | createIndex hheld hfree =>
    cases hname
    exact hfree
  | recordVersion hversions hnew => cases hname

/-- A statement takes no name back. -/
theorem Executes.namesInUse {st : SchemaStatement} (h : db.Executes st after) :
    ∀ used ∈ db.namesInUse, used ∈ after.namesInUse := by
  intro used hused
  cases h with
  | createTable hfree => exact (namesInUse_withTable db _).1 used hused
  | createIndex hheld hfree =>
    rw [namesInUse_withIndex]
    exact List.mem_append_left _ hused
  | recordVersion hversions hnew =>
    rw [mem_namesInUse] at hused ⊢
    rwa [hversions] at hused

/-- A statement that fails tells why in the words of the database. -/
theorem execute_error {st : SchemaStatement} {e : Error} (h : db.execute st = .error e) :
    ∃ text, e = .database text := by
  cases st with
  | createTable t =>
    simp only [execute] at h
    split at h
    · next object _ =>
      cases h
      cases object <;> exact ⟨_, rfl⟩
    · cases h
  | createIndex name t =>
    simp only [execute] at h
    split at h
    · cases h
      exact ⟨_, rfl⟩
    · split at h
      · next object _ =>
        cases h
        cases object <;> exact ⟨_, rfl⟩
      · cases h
  | recordVersion version =>
    simp only [execute] at h
    split at h
    · cases h
      exact ⟨_, rfl⟩
    · split at h
      · cases h
        exact ⟨_, rfl⟩
      · cases h

end Database

/-! ## Transactions -/

namespace Transaction

variable {t : Transaction} {st : SchemaStatement} {rest script : List SchemaStatement} {db : Database}

theorem executeAll_of_executes (h : t.current.Executes st db) :
    t.executeAll (st :: rest) = { t with current := db }.executeAll rest := by
  simp only [executeAll, Database.execute_eq_ok_iff.mpr h]

/-- Whatever statements do, a rollback brings back the same. -/
theorem before_executeAll (t : Transaction) (script : List SchemaStatement) :
    (t.executeAll script).2.before = t.before := by
  induction script generalizing t with
  | nil => rfl
  | cons st rest ih =>
    rw [executeAll]
    split
    · rfl
    · exact ih _

/-- Statements that all succeed found free, before the first of them, the names that they need. -/
theorem free_of_executeAll (h : (t.executeAll script).1 = .ok ()) :
    ∀ st ∈ script, ∀ name, st.name? = some name → ¬t.current.Taken name := by
  induction script generalizing t with
  | nil =>
    intro st hst
    cases hst
  | cons first rest ih =>
    rw [executeAll] at h
    split at h
    · cases h
    · next after hafter =>
      have hdone := Database.execute_eq_ok_iff.mp hafter
      intro st hst name hname
      rcases List.mem_cons.mp hst with rfl | hst
      · exact hdone.free hname
      · exact fun htaken => ih h st hst name hname (htaken.mono hdone.namesInUse)

theorem database_of_executeAll {e : Error} (h : (t.executeAll script).1 = .error e) :
    ∃ text, e = .database text := by
  induction script generalizing t with
  | nil => cases h
  | cons first rest ih =>
    rw [executeAll] at h
    split at h
    · next e' he' =>
      cases h
      exact Database.execute_error he'
    · exact ih h

/-- Indexes of a table that is there are made one after the other. -/
theorem executeAll_createIndexes {before : Database} {t : ProgramTable} {indexes : List Index}
    (hheld : db.holds t = true) (htable : ∀ i ∈ indexes, i.table = t.name)
    (hapart : indexes.Pairwise fun i j => ¬SameName i.name j.name) (hfree : ∀ i ∈ indexes, ¬db.Taken i.name) :
    executeAll ⟨db, before⟩ (indexes.map (fun i => .createIndex i.name t) ++ rest) =
      executeAll ⟨indexes.foldl Database.withIndex db, before⟩ rest := by
  induction indexes generalizing db with
  | nil => rfl
  | cons i indexes ih =>
    obtain ⟨hi, hindexes⟩ := List.pairwise_cons.mp hapart
    have hmade : db.Executes (.createIndex i.name t) (db.withIndex i) := by
      have hmade := Database.Executes.createIndex hheld (hfree i List.mem_cons_self)
      rwa [← htable i List.mem_cons_self] at hmade
    have hstill : (db.withIndex i).holds t = true := (Database.holds_withIndex db i t).trans hheld
    rw [List.map_cons, List.cons_append, executeAll_of_executes hmade, List.foldl_cons]
    refine ih hstill (fun j hj => htable j (List.mem_cons_of_mem i hj)) hindexes ?_
    intro j hj htaken
    rcases Database.taken_withIndex.mp htaken with hold | hnew
    · exact hfree j (List.mem_cons_of_mem i hj) hold
    · exact hi j hj hnew

end Transaction

end FileDepot
