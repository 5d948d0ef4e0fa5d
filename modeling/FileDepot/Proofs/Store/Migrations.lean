import Mathlib.Data.List.Perm.Basic
import Mathlib.Data.Nat.Init
import FileDepot.Proofs.Store.Schema

/-!
# Migrations

How far a run of the migrations gets on a database in which some are recorded already, while other tables, views
and indexes may have taken names that later ones need. It stops in front of the first migration of which a
name is taken. What the statements of that migration have done until one of them failed is rolled back, and
what the migrations before it have done is what a later run goes on from.
-/

namespace FileDepot.Database

variable {db after : Database} {v w k n : Nat} {name : String} {script : List SchemaStatement}

/-! ## What the migrations make -/

/-- The name of the table that a migration makes. -/
def migrationTable : Nat → String
  | 1 => "users"
  | 2 => "folders"
  | _ => "files"

/-- The table that a migration makes. -/
def tableOf : Nat → ProgramTable
  | 1 => .users
  | 2 => .folders
  | _ => .files

/-- The indexes that a migration makes. -/
def migrationIndexes : Nat → List Index
  | 2 => [⟨"idx_folders_owner_parent", "folders"⟩]
  | 3 => [⟨"idx_files_owner_parent", "files"⟩, ⟨"idx_files_state", "files"⟩]
  | _ => []

/-- All names that a migration needs. -/
def migrationNames (k : Nat) : List String := migrationTable k :: (migrationIndexes k).map Index.name

/-- The migrations `v + 1` to `w`. -/
def migrationsBetween (v w : Nat) : List Nat := List.range' (v + 1) (w - v)

/-- What the migrations `v + 1` to `w` make of a database: each is recorded, its table is there and empty, and so
    are its indexes. Nothing else is different. -/
def withMigrations (db : Database) (v w : Nat) : Database where
  versions := some (db.versions.getD [] ++ (migrationsBetween v w).map Nat.cast)
  users := if v < 1 ∧ 1 ≤ w then some ⟨[], 0⟩ else db.users
  folders := if v < 2 ∧ 2 ≤ w then some [] else db.folders
  files := if v < 3 ∧ 3 ≤ w then some [] else db.files
  surroundings :=
    { db.surroundings with
      indexes := db.surroundings.indexes ++ (migrationsBetween v w).flatMap migrationIndexes
      keepsLastIds := db.surroundings.keepsLastIds || decide (v < 1 ∧ 1 ≤ w) }

/-! ## Databases with some migrations done -/

/-- The table of a migration is there, with whatever rows. -/
def HasTableOf (db : Database) : Nat → Prop
  | 1 => db.users.isSome = true
  | 2 => db.folders.isSome = true
  | _ => db.files.isSome = true

/-- Exactly the migrations up to `v` are recorded, and the tables that they make are there. What lies in the
    tables is left open, and so is what else there is, as long as the name of the table of versions stands for
    no other thing. -/
structure Migrated (db : Database) (v : Nat) : Prop where
  bound : v ≤ migrationCount
  recorded : (db.versions.getD []).Perm ((migrationsBetween 0 v).map Nat.cast)
  tables : ∀ k, 0 < k → k ≤ v → db.HasTableOf k
  place : db.versions = none → ¬db.Taken "schema_version"

/-- All names that the migrations `v + 1` to `w` need are free. -/
def Clear (db : Database) (v w : Nat) : Prop := ∀ k, v < k → k ≤ w → ∀ name ∈ migrationNames k, ¬db.Taken name

/-- The migration `k` is the first behind `v` that cannot be applied: the name of its table is taken, or else the
    name of one of its indexes. -/
structure Obstacle (db : Database) (v k : Nat) : Prop where
  pending : v < k
  bound : k ≤ migrationCount
  taken : db.Taken (migrationTable k) ∨ ∃ i ∈ migrationIndexes k, db.Taken i.name
  clear : db.Clear v (k - 1)

/-- The database without what has one of the given names. The indexes of a table go with it. -/
def dropping (db : Database) (gone : List String) : Database where
  versions := if IsAmong gone "schema_version" then none else db.versions
  users := if IsAmong gone "users" then none else db.users
  folders := if IsAmong gone "folders" then none else db.folders
  files := if IsAmong gone "files" then none else db.files
  surroundings :=
    { db.surroundings with
      tables := db.surroundings.tables.filter fun t => ¬IsAmong gone t.name
      views := db.surroundings.views.filter fun view => ¬IsAmong gone view
      indexes := db.surroundings.indexes.filter fun i => ¬IsAmong gone i.name ∧ ¬IsAmong gone i.table }

/-- Whatever is in the first database is in the second with the same rows. -/
structure Kept (db after : Database) : Prop where
  users : ∀ table, db.users = some table → after.users = some table
  folders : ∀ rows, db.folders = some rows → after.folders = some rows
  files : ∀ rows, db.files = some rows → after.files = some rows
  tables : after.surroundings.tables = db.surroundings.tables
  views : after.surroundings.views = db.surroundings.views
  indexes : ∀ i ∈ db.surroundings.indexes, i ∈ after.surroundings.indexes

/-! ## Numbers of migrations -/

theorem migrationsBetween_self (v : Nat) : migrationsBetween v v = [] := by
  rw [migrationsBetween, Nat.sub_self]
  rfl

theorem migrationsBetween_append (hvw : v ≤ w) (hwk : w ≤ k) :
    migrationsBetween v w ++ migrationsBetween w k = migrationsBetween v k := by
  have hstart : w + 1 = v + 1 + 1 * (w - v) := by omega
  have hlength : k - v = w - v + (k - w) := by omega
  rw [migrationsBetween, migrationsBetween, migrationsBetween, hlength, hstart, List.range'_append]

theorem mem_migrationsBetween : k ∈ migrationsBetween v w ↔ v < k ∧ k ≤ w := by
  rw [migrationsBetween, List.mem_range'_1]
  omega

theorem migrationCount_eq : migrationCount = 3 := rfl

theorem migration_cases (hk : 0 < k) (hbound : k ≤ migrationCount) : k = 1 ∨ k = 2 ∨ k = 3 := by
  rw [migrationCount_eq] at hbound
  omega

/-! ## The names that the migrations need -/

theorem mem_migrationNames :
    name ∈ migrationNames k ↔ name = migrationTable k ∨ ∃ i ∈ migrationIndexes k, i.name = name := by
  rw [migrationNames, List.mem_cons, List.mem_map]

/-- No two migrations need the same name. -/
theorem names_apart {j : Nat} (hj : 0 < j) (hjbound : j ≤ migrationCount) (hk : 0 < k)
    (hkbound : k ≤ migrationCount) (hne : j ≠ k) {a : String} (ha : a ∈ migrationNames j) :
    ¬IsAmong (migrationNames k) a := by
  have hall : ∀ j ∈ [1, 2, 3], ∀ k ∈ [1, 2, 3], j ≠ k →
      ∀ a ∈ migrationNames j, ¬IsAmong (migrationNames k) a := by decide +kernel
  have hmem : ∀ {m : Nat}, 0 < m → m ≤ migrationCount → m ∈ [1, 2, 3] := by
    intro m hm hbound
    obtain rfl | rfl | rfl := migration_cases hm hbound
    all_goals decide
  exact hall j (hmem hj hjbound) k (hmem hk hkbound) hne a ha

/-- The names of one migration are different, too. -/
theorem names_pairwise (hk : 0 < k) (hbound : k ≤ migrationCount) :
    (migrationNames k).Pairwise fun a b => ¬SameName a b := by
  obtain rfl | rfl | rfl := migration_cases hk hbound
  all_goals decide +kernel

theorem name_tableOf (hk : 0 < k) (hbound : k ≤ migrationCount) : (tableOf k).name = migrationTable k := by
  obtain rfl | rfl | rfl := migration_cases hk hbound
  all_goals rfl

theorem table_of_mem (hk : 0 < k) (hbound : k ≤ migrationCount) :
    ∀ i ∈ migrationIndexes k, i.table = migrationTable k := by
  obtain rfl | rfl | rfl := migration_cases hk hbound
  all_goals decide +kernel

/-- No migration needs the name of the table of versions or of the one that comes along with the users. -/
theorem not_isAmong_of_fixed (hk : 0 < k) (hbound : k ≤ migrationCount) :
    ¬IsAmong (migrationNames k) "schema_version" ∧ ¬IsAmong (migrationNames k) "sqlite_sequence" := by
  obtain rfl | rfl | rfl := migration_cases hk hbound
  all_goals decide +kernel

/-! ## One migration -/

/-- A script makes a table, and then the indexes of this table. -/
theorem script_eq (hs : migrations[n]? = some script) :
    script = .createTable (tableOf (n + 1)) ::
      (migrationIndexes (n + 1)).map fun i => .createIndex i.name (tableOf (n + 1)) := by
  match n with
  | 0 => exact (Option.some.inj hs).symm
  | 1 => exact (Option.some.inj hs).symm
  | 2 => exact (Option.some.inj hs).symm
  | _ + 3 => cases hs

theorem lt_of_script (hs : migrations[n]? = some script) : n < migrationCount :=
  (List.getElem?_eq_some_iff.mp hs).1

/-- Each name of a migration is needed by a statement of its script. -/
theorem needed_by_script (hs : migrations[n]? = some script) (hname : name ∈ migrationNames (n + 1)) :
    ∃ st ∈ script, st.name? = some name := by
  rw [script_eq hs]
  rcases mem_migrationNames.mp hname with rfl | ⟨i, hi, rfl⟩
  · exact ⟨_, List.mem_cons_self, congrArg some (name_tableOf n.succ_pos (lt_of_script hs))⟩
  · exact ⟨_, List.mem_cons_of_mem _ (List.mem_map_of_mem hi), rfl⟩

/-- A migration of which any statement fails leaves nothing behind, whatever its script is. -/
theorem applyMigration_of_error {version : Nat} {e : Error}
    (h : ((Transaction.start db).executeAll (script ++ [.recordVersion version])).1 = .error e) :
    db.applyMigration script version = (.error e, db) := by
  have hbefore := Transaction.before_executeAll (.start db) (script ++ [.recordVersion version])
  rw [applyMigration]
  cases hrun : (Transaction.start db).executeAll (script ++ [.recordVersion version]) with
  | mk result t =>
    rw [hrun] at h hbefore
    obtain rfl : result = .error e := h
    exact congrArg _ hbefore

/-- A migration that needs a name which is taken fails. -/
theorem applyMigration_of_taken (hs : migrations[n]? = some script) (hname : name ∈ migrationNames (n + 1))
    (h : db.Taken name) : ∃ text, db.applyMigration script (n + 1) = (.error (.database text), db) := by
  obtain ⟨st, hst, hneeds⟩ := needed_by_script hs hname
  cases hresult : ((Transaction.start db).executeAll (script ++ [.recordVersion (n + 1 : Nat)])).1 with
  | ok =>
    have hfree := Transaction.free_of_executeAll hresult
    exact absurd h (hfree st (List.mem_append_left _ hst) name hneeds)
  | error e =>
    obtain ⟨text, rfl⟩ := Transaction.database_of_executeAll hresult
    exact ⟨text, applyMigration_of_error hresult⟩

theorem tableOf_ne_versions (k : Nat) : tableOf k ≠ .versions := by
  unfold tableOf
  split <;> exact ProgramTable.noConfusion

/-- What one migration makes, as its statements make it. -/
theorem withMigrations_succ_self {versions : List Int} (hn : n < migrationCount)
    (hversions : db.versions = some versions) :
    db.withMigrations n (n + 1) =
      { (migrationIndexes (n + 1)).foldl withIndex (db.withTable (tableOf (n + 1))) with
        versions := some (versions ++ [((n + 1 : Nat) : Int)]) } := by
  rw [foldl_withIndex]
  obtain h | h | h := migration_cases n.succ_pos hn
  all_goals
    obtain rfl := Nat.succ.inj h
    simp [withMigrations, hversions, migrationsBetween, migrationIndexes, tableOf, withTable]

/-- A migration whose names are free makes its table and its indexes and is recorded. -/
theorem applyMigration_of_free {versions : List Int} (hs : migrations[n]? = some script)
    (hversions : db.versions = some versions) (hnew : ((n + 1 : Nat) : Int) ∉ versions)
    (hfree : ∀ name ∈ migrationNames (n + 1), ¬db.Taken name) :
    db.applyMigration script (n + 1) = (.ok (), db.withMigrations n (n + 1)) := by
  have hk := lt_of_script hs
  have hname := name_tableOf n.succ_pos hk
  obtain ⟨htable, hindexes⟩ := List.pairwise_cons.mp (names_pairwise n.succ_pos hk)
  have hmade : db.Executes (.createTable (tableOf (n + 1))) (db.withTable (tableOf (n + 1))) :=
    .createTable (hname ▸ hfree _ List.mem_cons_self)
  have hstill : ∀ i ∈ migrationIndexes (n + 1), ¬(db.withTable (tableOf (n + 1))).Taken i.name := by
    intro i hi htaken
    have hmem : i.name ∈ migrationNames (n + 1) := List.mem_cons_of_mem _ (List.mem_map_of_mem hi)
    rcases htaken.of_withTable with hold | hsame | hlast
    · exact hfree i.name hmem hold
    · exact htable i.name (List.mem_map_of_mem hi) (hname ▸ hsame)
    · exact (not_isAmong_of_fixed n.succ_pos hk).2 ⟨i.name, hmem, hlast.symm⟩
  have hrecorded : ((migrationIndexes (n + 1)).foldl withIndex (db.withTable (tableOf (n + 1)))).versions =
      some versions := by
    rw [foldl_withIndex]
    exact (versions_withTable (tableOf_ne_versions _)).trans hversions
  rw [applyMigration, script_eq hs, List.cons_append, Transaction.executeAll_of_executes hmade,
    Transaction.executeAll_createIndexes (holds_withTable db _) (hname ▸ table_of_mem n.succ_pos hk)
      (List.pairwise_map.mp hindexes) hstill,
    Transaction.executeAll_of_executes (.recordVersion hrecorded hnew), ← withMigrations_succ_self hk hversions]
  rfl

/-! ## Runs -/

/-- Where no migration takes effect, the table of versions is made if it was missing. -/
theorem withMigrations_self (db : Database) (v : Nat) :
    db.withMigrations v v = { db with versions := some (db.versions.getD []) } := by
  have hnone : ∀ k, ¬(v < k ∧ k ≤ v) := by
    intro k hk
    omega
  simp only [withMigrations, migrationsBetween_self, List.map_nil, List.append_nil, List.flatMap_nil, hnone,
    if_false, decide_false, Bool.or_false]

theorem withMigrations_of_recorded {vs : List Int} (h : db.versions = some vs) :
    db.withMigrations v v = db := by
  rw [withMigrations_self, h, Option.getD_some, ← h]

theorem withMigrations_withMigrations (hvw : v ≤ w) (hwk : w ≤ k) :
    (db.withMigrations v w).withMigrations w k = db.withMigrations v k := by
  have hsplit : ∀ m, (v < m ∧ m ≤ w) ∨ (w < m ∧ m ≤ k) ↔ v < m ∧ m ≤ k := by
    intro m
    omega
  have hmade : ∀ {α : Type} (m : Nat) (x y : α),
      (if w < m ∧ m ≤ k then x else if v < m ∧ m ≤ w then x else y) = if v < m ∧ m ≤ k then x else y := by
    intro α m x y
    rw [← ite_or, if_congr (or_comm.trans (hsplit m)) rfl rfl]
  simp only [withMigrations, Option.getD_some, List.append_assoc, ← List.map_append, ← List.flatMap_append,
    migrationsBetween_append hvw hwk, hmade, Bool.or_assoc, ← Bool.decide_or, hsplit]

/-- The migrations take the names that they need, and those of the tables that come along. -/
theorem Taken.of_withMigrations (h : (db.withMigrations v w).Taken name) :
    db.Taken name ∨ SameName "schema_version" name ∨ SameName "sqlite_sequence" name ∨
      ∃ j, v < j ∧ j ≤ w ∧ IsAmong (migrationNames j) name := by
  obtain ⟨used, hused, hsame⟩ := h
  have hold : used ∈ db.namesInUse → db.Taken name := fun hmem => ⟨used, hmem, hsame⟩
  have hmade : ∀ j, v < j ∧ j ≤ w → used ∈ migrationNames j →
      ∃ j, v < j ∧ j ≤ w ∧ IsAmong (migrationNames j) name := by
    intro j hj hmem
    exact ⟨j, hj.1, hj.2, used, hmem, hsame⟩
  rw [mem_namesInUse] at hused hold
  simp only [withMigrations] at hused
  rcases hused with ⟨-, rfl⟩ | ⟨h, rfl⟩ | ⟨h, rfl⟩ | ⟨h, rfl⟩ | h | ⟨-, rfl⟩ | h | ⟨i, hi, rfl⟩
  · exact Or.inr (Or.inl hsame)
  · split at h
    · next hj => exact Or.inr (Or.inr (Or.inr (hmade 1 hj List.mem_cons_self)))
    · exact Or.inl (hold (by simp [h]))
  · split at h
    · next hj => exact Or.inr (Or.inr (Or.inr (hmade 2 hj List.mem_cons_self)))
    · exact Or.inl (hold (by simp [h]))
  · split at h
    · next hj => exact Or.inr (Or.inr (Or.inr (hmade 3 hj List.mem_cons_self)))
    · exact Or.inl (hold (by simp [h]))
  · exact Or.inl (hold (by simp [h]))
  · exact Or.inr (Or.inr (Or.inl hsame))
  · exact Or.inl (hold (by simp [h]))
  · rcases List.mem_append.mp hi with hi | hi
    · exact Or.inl ⟨i.name, name_mem_of_index hi, hsame⟩
    · obtain ⟨j, hj, hmem⟩ := List.mem_flatMap.mp hi
      exact Or.inr (Or.inr (Or.inr (hmade j (mem_migrationsBetween.mp hj)
        (List.mem_cons_of_mem _ (List.mem_map_of_mem hmem)))))

/-- The migrations take no name back. -/
theorem namesInUse_withMigrations {used : String} (h : used ∈ db.namesInUse) :
    used ∈ (db.withMigrations v w).namesInUse := by
  have hsome : ∀ {α : Type} {p : Prop} [Decidable p] {x : α} {y : Option α}, y.isSome = true →
      (if p then some x else y).isSome = true := by
    intro α p _ x y hy
    split
    · rfl
    · exact hy
  rw [mem_namesInUse] at h ⊢
  simp only [withMigrations]
  rcases h with ⟨-, rfl⟩ | ⟨h, rfl⟩ | ⟨h, rfl⟩ | ⟨h, rfl⟩ | h | ⟨h, rfl⟩ | h | ⟨i, hi, rfl⟩
  · simp
  · simp [hsome h]
  · simp [hsome h]
  · simp [hsome h]
  · simp [h]
  · simp [h]
  · simp [h]
  · exact Or.inr (Or.inr (Or.inr (Or.inr (Or.inr (Or.inr (Or.inr ⟨i, List.mem_append_left _ hi, rfl⟩))))))

/-- Migrations that take effect take no name of a later one. -/
theorem Taken.before_withMigrations (h : (db.withMigrations v w).Taken name) (hwk : w < k)
    (hk : k ≤ migrationCount) (hname : name ∈ migrationNames k) : db.Taken name := by
  have hfixed := not_isAmong_of_fixed (Nat.zero_lt_of_lt hwk) hk
  rcases h.of_withMigrations with hold | hversions | hlast | ⟨j, hvj, hjw, hneeded⟩
  · exact hold
  · exact absurd ⟨name, hname, hversions.symm⟩ hfixed.1
  · exact absurd ⟨name, hname, hlast.symm⟩ hfixed.2
  · have hapart := names_apart (Nat.zero_lt_of_lt hwk) hk (Nat.zero_lt_of_lt hvj) (by omega) (by omega) hname
    exact absurd hneeded hapart

namespace Migrated

/-- The migrations that took effect are done. -/
theorem withMigrations (h : db.Migrated v) (hvw : v ≤ w) (hw : w ≤ migrationCount) :
    (db.withMigrations v w).Migrated w where
  bound := hw
  recorded := by
    have hperm := h.recorded.append_right ((migrationsBetween v w).map Nat.cast)
    rwa [← List.map_append, migrationsBetween_append v.zero_le hvw] at hperm
  tables := by
    intro k hk hkw
    by_cases hkv : k ≤ v
    · have hold := h.tables k hk hkv
      obtain rfl | rfl | rfl := migration_cases hk (Nat.le_trans hkw hw)
      all_goals
        simp only [HasTableOf, Database.withMigrations] at hold ⊢
        split
        · rfl
        · exact hold
    · have hmade : v < k ∧ k ≤ w := ⟨Nat.lt_of_not_le hkv, hkw⟩
      obtain rfl | rfl | rfl := migration_cases hk (Nat.le_trans hkw hw)
      all_goals simp only [HasTableOf, Database.withMigrations, if_pos hmade, Option.isSome_some]
  place := by
    intro hnone
    cases hnone

/-- Later migrations are not recorded. -/
theorem notMem_recorded (h : db.Migrated v) (hvn : v < n) : ((n : Nat) : Int) ∉ db.versions.getD [] := by
  intro hmem
  obtain ⟨k, hk, heq⟩ := List.mem_map.mp (h.recorded.mem_iff.mp hmem)
  have hkv := (mem_migrationsBetween.mp hk).2
  have hkn : k = n := Int.ofNat.inj heq
  omega

end Migrated

/-- The next migration is the first of those that are left. -/
theorem drop_migrations (hw : w < migrationCount) : ∃ script, migrations[w]? = some script ∧
    migrations.zipIdx.drop w = (script, w) :: migrations.zipIdx.drop (w + 1) := by
  obtain h | h | h := migration_cases w.succ_pos hw
  all_goals
    obtain rfl := Nat.succ.inj h
    exact ⟨_, rfl, rfl⟩

/-- A run goes on behind a migration whose names are free. -/
theorem applyAll_of_free (h : db.Migrated v) (hvw : v ≤ w) (hw : w < migrationCount)
    (hfree : ∀ name ∈ migrationNames (w + 1), ¬db.Taken name) :
    (db.withMigrations v w).applyAll (migrations.zipIdx.drop w) =
      (db.withMigrations v (w + 1)).applyAll (migrations.zipIdx.drop (w + 1)) := by
  obtain ⟨script, hs, hdrop⟩ := drop_migrations hw
  have hnew := (h.withMigrations hvw (Nat.le_of_lt hw)).notMem_recorded w.lt_succ_self
  have hstill : ∀ name ∈ migrationNames (w + 1), ¬(db.withMigrations v w).Taken name := fun name hname htaken =>
    hfree name hname (htaken.before_withMigrations w.lt_succ_self hw hname)
  rw [hdrop, applyAll, applyMigration_of_free hs rfl hnew hstill, withMigrations_withMigrations hvw w.le_succ]

/-- A run stops at a migration of which a name is taken. -/
theorem applyAll_of_taken (hw : w < migrationCount) (hname : name ∈ migrationNames (w + 1))
    (htaken : db.Taken name) :
    ∃ text, (db.withMigrations v w).applyAll (migrations.zipIdx.drop w) =
      (.error (.database text), db.withMigrations v w) := by
  obtain ⟨script, hs, hdrop⟩ := drop_migrations hw
  have hstill : (db.withMigrations v w).Taken name := htaken.mono fun _ => namesInUse_withMigrations
  obtain ⟨text, hfailed⟩ := applyMigration_of_taken hs hname hstill
  exact ⟨text, by rw [hdrop, applyAll, hfailed]⟩

/-- A run as far as all names are free. The induction is on the migration it has come to. -/
theorem applyAll_withMigrations (h : db.Migrated v) (hvw : v ≤ w) (hw : w ≤ migrationCount)
    (hclear : db.Clear v w) :
    (db.withMigrations v v).applyAll (migrations.zipIdx.drop v) =
      (db.withMigrations v w).applyAll (migrations.zipIdx.drop w) := by
  induction w, hvw using Nat.le_induction with
  | base => rfl
  | succ w hvw ih =>
    have hfree : ∀ name ∈ migrationNames (w + 1), ¬db.Taken name :=
      hclear (w + 1) (Nat.lt_succ_of_le hvw) (Nat.le_refl _)
    have hbefore : db.Clear v w := fun k hvk hkw => hclear k hvk (Nat.le_succ_of_le hkw)
    rw [ih (Nat.le_of_succ_le hw) hbefore, applyAll_of_free h hvw hw hfree]

/-- The recorded version is the greatest number in the table. -/
theorem schemaVersion_eq_max (db : Database) :
    db.schemaVersion = ((db.versions.getD []).max?).getD 0 := by
  rw [schemaVersion]
  cases db.versions with
  | none => rfl
  | some vs =>
    cases vs with
    | nil => rfl
    | cons v vs => rfl

namespace Migrated

theorem schemaVersion (h : db.Migrated v) : db.schemaVersion = v := by
  rw [schemaVersion_eq_max]
  cases v with
  | zero =>
    have hnone : db.versions.getD [] = [] := List.perm_nil.mp h.recorded
    rw [hnone]
    rfl
  | succ v =>
    have hmax : (db.versions.getD []).max? = some ((v + 1 : Nat) : Int) := by
      rw [List.max?_eq_some_iff]
      constructor
      · refine h.recorded.mem_iff.mpr (List.mem_map_of_mem ?_)
        exact mem_migrationsBetween.mpr ⟨v.succ_pos, Nat.le_refl _⟩
      · intro i hi
        obtain ⟨k, hk, rfl⟩ := List.mem_map.mp (h.recorded.mem_iff.mp hi)
        exact_mod_cast (mem_migrationsBetween.mp hk).2
    rw [hmax]
    rfl

/-- The table of versions is made if it is missing. -/
theorem ensureVersions (h : db.Migrated v) : db.ensureVersions = .ok (db.withMigrations v v) := by
  rw [Database.ensureVersions]
  cases hversions : db.versions with
  | none =>
    have hfree : db.object? ProgramTable.versions.name = none := object?_eq_none_iff.mpr (h.place hversions)
    rw [hfree, withMigrations_self, hversions]
    rfl
  | some vs =>
    have htable : db.object? ProgramTable.versions.name = some .table := by
      have hmem : db.tableNames.any (isSameName · ProgramTable.versions.name) = true := by
        simp [tableNames, ProgramTable.all, holds, hversions, isSameName]
      rw [object?, if_pos hmem]
    rw [htable, withMigrations_of_recorded hversions]

/-- A run of the migrations, cut behind a migration up to which all names are free. -/
theorem migrate_eq (h : db.Migrated v) (hvw : v ≤ w) (hw : w ≤ migrationCount) (hclear : db.Clear v w) :
    db.migrate = (db.withMigrations v w).applyAll (migrations.zipIdx.drop w) := by
  have hversion : (db.withMigrations v v).schemaVersion = v :=
    (h.withMigrations (Nat.le_refl v) h.bound).schemaVersion
  rw [← applyAll_withMigrations h hvw hw hclear, migrate, h.ensureVersions]
  simp only [isUpToDate, hversion, Int.toNat_natCast]
  split
  case isTrue hdone =>
    -- With all migrations recorded there is none left to run.
    have hv : v = migrationCount := by
      refine Nat.le_antisymm h.bound ?_
      simp only [Bool.or_eq_true, decide_eq_true_eq] at hdone
      omega
    rw [hv]
    rfl
  case isFalse => rfl

end Migrated

/-! ## Obstacles -/

theorem clear_self (db : Database) (v : Nat) : db.Clear v v := by
  intro k hvk hkv
  omega

/-- Either all names are free up to `w`, or there is a first migration that cannot be applied. -/
theorem clear_or_obstacle (db : Database) (hvw : v ≤ w) (hw : w ≤ migrationCount) :
    db.Clear v w ∨ ∃ k, db.Obstacle v k := by
  induction w, hvw using Nat.le_induction with
  | base => exact Or.inl (db.clear_self v)
  | succ w hvw ih =>
    rcases ih (Nat.le_of_succ_le hw) with hclear | hobstacle
    · by_cases htaken : db.Taken (migrationTable (w + 1)) ∨ ∃ i ∈ migrationIndexes (w + 1), db.Taken i.name
      · exact Or.inr ⟨w + 1, Nat.lt_succ_of_le hvw, hw, htaken, hclear⟩
      · left
        intro k hvk hkw
        rcases Nat.le_succ_iff.mp hkw with hle | rfl
        · exact hclear k hvk hle
        · intro name hname htaken'
          rcases mem_migrationNames.mp hname with rfl | ⟨i, hi, rfl⟩
          · exact htaken (Or.inl htaken')
          · exact htaken (Or.inr ⟨i, hi, htaken'⟩)
    · exact Or.inr hobstacle

theorem Obstacle.exists_name (h : db.Obstacle v k) : ∃ name ∈ migrationNames k, db.Taken name := by
  rcases h.taken with htable | ⟨i, hi, hindex⟩
  · exact ⟨_, List.mem_cons_self, htable⟩
  · exact ⟨_, List.mem_cons_of_mem _ (List.mem_map_of_mem hi), hindex⟩

/-- What is left of the names when something is dropped. -/
theorem namesInUse_dropping {gone : List String} {used : String} (h : used ∈ (db.dropping gone).namesInUse) :
    used ∈ db.namesInUse ∧ (¬IsAmong gone used ∨ used = "sqlite_sequence") := by
  have hsome : ∀ {α : Type} {p : Prop} [Decidable p] {y : Option α}, (if p then none else y).isSome = true →
      y.isSome = true ∧ ¬p := by
    intro α p _ y hy
    split at hy
    · cases hy
    · next hp => exact ⟨hy, hp⟩
  rw [mem_namesInUse] at h
  simp only [dropping, List.mem_filter, decide_eq_true_eq] at h
  rcases h with ⟨h, rfl⟩ | ⟨h, rfl⟩ | ⟨h, rfl⟩ | ⟨h, rfl⟩ | ⟨t, ⟨ht, hkept⟩, rfl⟩ | ⟨h, rfl⟩ | ⟨h, hkept⟩ |
    ⟨i, ⟨hi, hkept⟩, rfl⟩
  · simp [mem_namesInUse, hsome h]
  · simp [mem_namesInUse, hsome h]
  · simp [mem_namesInUse, hsome h]
  · simp [mem_namesInUse, hsome h]
  · exact ⟨name_mem_of_table ht, Or.inl hkept⟩
  · simp [mem_namesInUse, h]
  · simp [mem_namesInUse, h, hkept]
  · exact ⟨name_mem_of_index hi, Or.inl hkept.1⟩

theorem Taken.of_dropping {gone : List String} (h : (db.dropping gone).Taken name) : db.Taken name := by
  obtain ⟨used, hused, hsame⟩ := h
  exact ⟨used, (namesInUse_dropping hused).1, hsame⟩

/-- Dropping what is in the way of a migration frees its names. -/
theorem not_taken_dropping (hk : 0 < k) (hbound : k ≤ migrationCount) (hname : name ∈ migrationNames k) :
    ¬(db.dropping (migrationNames k)).Taken name := by
  rintro ⟨used, hused, hsame⟩
  rcases (namesInUse_dropping hused).2 with hkept | rfl
  · exact hkept ⟨name, hname, hsame.symm⟩
  · exact (not_isAmong_of_fixed hk hbound).2 ⟨name, hname, hsame.symm⟩

theorem Clear.dropping {gone : List String} (h : db.Clear v w) : (db.dropping gone).Clear v w :=
  fun k hvk hkw name hname htaken => h k hvk hkw name hname htaken.of_dropping

theorem migrationTable_mem (k : Nat) : migrationTable k ∈ migrationNames k := List.mem_cons_self

/-- What is in the way of a migration that is not done can go. -/
theorem Migrated.dropping (h : db.Migrated v) (hvn : v < n) (hn : n ≤ migrationCount) :
    (db.dropping (migrationNames n)).Migrated v where
  bound := h.bound
  recorded := by
    simp only [Database.dropping, if_neg (not_isAmong_of_fixed (Nat.zero_lt_of_lt hvn) hn).1]
    exact h.recorded
  tables := by
    intro k hk hkv
    have hbound := Nat.le_trans hkv h.bound
    have hkept := names_apart hk hbound (Nat.zero_lt_of_lt hvn) hn (by omega) (migrationTable_mem k)
    have hold := h.tables k hk hkv
    obtain rfl | rfl | rfl := migration_cases hk hbound
    all_goals
      simp only [migrationTable] at hkept
      simp only [HasTableOf, Database.dropping, if_neg hkept] at hold ⊢
      exact hold
  place := by
    intro hnone htaken
    simp only [Database.dropping, if_neg (not_isAmong_of_fixed (Nat.zero_lt_of_lt hvn) hn).1] at hnone
    exact h.place hnone htaken.of_dropping

/-- What is in the way of a later migration goes before or after a run to the same effect. -/
theorem dropping_withMigrations (hwn : w < n) (hn : n ≤ migrationCount) :
    (db.withMigrations v w).dropping (migrationNames n) = (db.dropping (migrationNames n)).withMigrations v w := by
  have hkept : ∀ k, v < k ∧ k ≤ w → ∀ name ∈ migrationNames k, ¬IsAmong (migrationNames n) name := by
    intro k hk name hname
    exact names_apart (Nat.zero_lt_of_lt hk.1) (by omega) (Nat.zero_lt_of_lt hwn) hn (by omega) hname
  have htable : ∀ {α : Type} (k : Nat) (x y : Option α),
      (if IsAmong (migrationNames n) (migrationTable k) then none else if v < k ∧ k ≤ w then x else y) =
        if v < k ∧ k ≤ w then x else if IsAmong (migrationNames n) (migrationTable k) then none else y := by
    intro α k x y
    by_cases hk : v < k ∧ k ≤ w
    · rw [if_pos hk, if_pos hk, if_neg (hkept k hk _ (migrationTable_mem k))]
    · rw [if_neg hk, if_neg hk]
  have hindexes : ((migrationsBetween v w).flatMap migrationIndexes).filter
      (fun i => ¬IsAmong (migrationNames n) i.name ∧ ¬IsAmong (migrationNames n) i.table) =
      (migrationsBetween v w).flatMap migrationIndexes := by
    refine List.filter_eq_self.mpr fun i hi => ?_
    obtain ⟨k, hk, hmem⟩ := List.mem_flatMap.mp hi
    have hbetween := mem_migrationsBetween.mp hk
    have htable := table_of_mem (Nat.zero_lt_of_lt hbetween.1) (by omega) i hmem
    refine decide_eq_true ⟨hkept k hbetween _ (List.mem_cons_of_mem _ (List.mem_map_of_mem hmem)), ?_⟩
    rw [htable]
    exact hkept k hbetween _ (migrationTable_mem k)
  have husers := @htable UserTable 1
  have hfolders := @htable (List Folder) 2
  have hfiles := @htable (List File) 3
  simp only [migrationTable] at husers hfolders hfiles
  simp only [dropping, withMigrations, husers, hfolders, hfiles, List.filter_append, hindexes,
    if_neg (not_isAmong_of_fixed (Nat.zero_lt_of_lt hwn) hn).1]

namespace Obstacle

/-- A run goes as far as the migration before the obstacle. -/
theorem migrate_eq (hk : db.Obstacle v (n + 1)) (h : db.Migrated v) :
    ∃ text, db.migrate = (.error (.database text), db.withMigrations v n) := by
  obtain ⟨name, hname, htaken⟩ := hk.exists_name
  rw [h.migrate_eq (Nat.le_of_lt_succ hk.pending) (Nat.le_of_succ_le hk.bound) hk.clear]
  exact applyAll_of_taken hk.bound hname htaken

/-- Without the obstacle, a run from where the last one stopped comes to what one run comes to. -/
theorem resume_eq (hk : db.Obstacle v (n + 1)) (h : db.Migrated v) :
    ((db.withMigrations v n).dropping (migrationNames (n + 1))).migrate =
      (db.dropping (migrationNames (n + 1))).migrate := by
  have hvn : v ≤ n := Nat.le_of_lt_succ hk.pending
  have hn : n ≤ migrationCount := Nat.le_of_succ_le hk.bound
  have hstopped : ((db.withMigrations v n).dropping (migrationNames (n + 1))).Migrated n :=
    (h.withMigrations hvn hn).dropping n.lt_succ_self hk.bound
  have hrecorded : ((db.withMigrations v n).dropping (migrationNames (n + 1))).versions =
      some (db.versions.getD [] ++ (migrationsBetween v n).map Nat.cast) := by
    simp only [dropping, withMigrations, if_neg (not_isAmong_of_fixed n.succ_pos hk.bound).1]
  rw [hstopped.migrate_eq (Nat.le_refl n) hn (clear_self _ n), withMigrations_of_recorded hrecorded,
    (h.dropping hk.pending hk.bound).migrate_eq hvn hn hk.clear.dropping,
    dropping_withMigrations n.lt_succ_self hk.bound]

end Obstacle

/-! ## What a run answers and leaves -/

/-- Where all names are free, the migrations make new tables and indexes only. -/
theorem kept_withMigrations (hclear : db.Clear v w) : db.Kept (db.withMigrations v w) := by
  have hnot : ∀ k, migrationTable k ∈ db.namesInUse → ¬(v < k ∧ k ≤ w) := by
    rintro k hmem ⟨hvk, hkw⟩
    exact hclear k hvk hkw _ (migrationTable_mem k) ⟨_, hmem, rfl⟩
  refine ⟨fun table htable => ?_, fun rows hrows => ?_, fun rows hrows => ?_, rfl, rfl, fun i hi => ?_⟩
  · have hone := hnot 1 (mem_namesInUse.mpr (by simp [htable, migrationTable]))
    rw [withMigrations, if_neg hone, htable]
  · have htwo := hnot 2 (mem_namesInUse.mpr (by simp [hrows, migrationTable]))
    rw [withMigrations, if_neg htwo, hrows]
  · have hthree := hnot 3 (mem_namesInUse.mpr (by simp [hrows, migrationTable]))
    rw [withMigrations, if_neg hthree, hrows]
  · exact List.mem_append_left _ hi

/-- Migrating does all that is left: all migrations are done, whatever was there is kept, and migrating again
    changes nothing. -/
structure Completes (db : Database) (v : Nat) : Prop where
  clear : db.Clear v migrationCount
  run : db.migrate = (.ok (), db.withMigrations v migrationCount)
  migrated : db.migrate.2.Migrated migrationCount
  version : db.migrate.2.schemaVersion = migrationCount
  kept : db.Kept db.migrate.2
  again : db.migrate.2.migrate = (.ok (), db.migrate.2)

/-- Migrating stops at the migration `k`: those before it are done, and whatever was there is kept. Of `k` itself
    nothing remains, that is, each of its names is taken only if it was before. Once what has these names is gone,
    going on comes to what one run comes to if it is gone from the start. -/
structure StopsAt (db : Database) (v k : Nat) : Prop where
  obstacle : db.Obstacle v k
  run : ∃ text, db.migrate = (.error (.database text), db.withMigrations v (k - 1))
  migrated : db.migrate.2.Migrated (k - 1)
  version : db.migrate.2.schemaVersion = (k - 1 : Nat)
  kept : db.Kept db.migrate.2
  nothing : ∀ name ∈ migrationNames k, db.migrate.2.Taken name → db.Taken name
  freed : ∀ name ∈ migrationNames k, ¬(db.migrate.2.dropping (migrationNames k)).Taken name
  resumed : (db.migrate.2.dropping (migrationNames k)).migrate = (db.dropping (migrationNames k)).migrate

theorem Migrated.completes (h : db.Migrated v) (hclear : db.Clear v migrationCount) : db.Completes v := by
  have hdone : (db.withMigrations v migrationCount).Migrated migrationCount :=
    h.withMigrations h.bound (Nat.le_refl _)
  have hrun : db.migrate = (.ok (), db.withMigrations v migrationCount) := by
    rw [h.migrate_eq h.bound (Nat.le_refl _) hclear]
    rfl
  have hagain : (db.withMigrations v migrationCount).migrate = (.ok (), db.withMigrations v migrationCount) := by
    rw [hdone.migrate_eq (Nat.le_refl _) (Nat.le_refl _) (clear_self _ _), withMigrations_of_recorded rfl]
    rfl
  refine ⟨hclear, hrun, ?_, ?_, ?_, ?_⟩
  all_goals rw [hrun]
  · exact hdone
  · exact hdone.schemaVersion
  · exact kept_withMigrations hclear
  · exact hagain

theorem Obstacle.stopsAt (hk : db.Obstacle v (n + 1)) (h : db.Migrated v) : db.StopsAt v (n + 1) := by
  have hdone : (db.withMigrations v n).Migrated n :=
    h.withMigrations (Nat.le_of_lt_succ hk.pending) (Nat.le_of_succ_le hk.bound)
  obtain ⟨text, hrun⟩ := hk.migrate_eq h
  refine ⟨hk, ⟨text, hrun⟩, ?_, ?_, ?_, ?_, ?_, ?_⟩
  all_goals rw [hrun]
  · exact hdone
  · exact hdone.schemaVersion
  · exact kept_withMigrations hk.clear
  · exact fun name hname htaken => htaken.before_withMigrations n.lt_succ_self hk.bound hname
  · exact fun name hname => not_taken_dropping n.succ_pos hk.bound hname
  · exact hk.resume_eq h

/-- A database in which the first migration is done, with a user, beside other things. -/
def halfMigrated (surroundings : Surroundings) : Database where
  versions := some [1]
  users := some ⟨[⟨1, "alice", 0, .exact 5, "2000-01-01T00:00:00Z"⟩], 1⟩
  folders := none
  files := none
  surroundings := surroundings

/-- A table with the name of a later one. -/
def tableInTheWay : Surroundings := ⟨[⟨"Files", [[1, 2]]⟩], [], [], true⟩

/-- A table with an index that has the name of a later one. -/
def indexInTheWay : Surroundings := ⟨[⟨"notes", [[1, 2]]⟩], [], [⟨"idx_files_state", "notes"⟩], true⟩

theorem halfMigrated_migrated (surroundings : Surroundings) : (halfMigrated surroundings).Migrated 1 where
  bound := by decide
  recorded := List.Perm.refl [1]
  tables := by
    intro k hlow hhigh
    obtain rfl : k = 1 := Nat.le_antisymm hhigh hlow
    rfl
  place := by
    intro hnone
    cases hnone

end FileDepot.Database
