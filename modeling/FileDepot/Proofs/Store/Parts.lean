import FileDepot.Proofs.Store.Counters
import FileDepot.Proofs.Store.Listings
import FileDepot.Proofs.Store.Statements

/-!
# The part of one owner

The user, the folders and the files of one owner. Whatever an owner reads is read from that part alone, in
whatever order the rows lie; a statement of the owner does the same to the same part, and leaves the parts of
all other owners as they were.
-/

namespace FileDepot

open Database

namespace Database

/-! ## Rows that are found by what they are -/

section Rows

variable {α κ : Type} {key : α → κ} {rows rows' : List α} {p : α → Bool}

/-- Where keys are unique, the same rows are kept of two tables that agree on them. -/
theorem perm_filter (hn : (rows.map key).Nodup) (hn' : (rows'.map key).Nodup)
    (h : ∀ x, p x = true → (x ∈ rows' ↔ x ∈ rows)) : (rows'.filter p).Perm (rows.filter p) := by
  refine (List.perm_ext_iff_of_nodup ((hn'.of_map key).filter p) ((hn.of_map key).filter p)).mpr ?_
  intro x
  rw [List.mem_filter, List.mem_filter]
  constructor
  · rintro ⟨hx, hp⟩
    exact ⟨(h x hp).mp hx, hp⟩
  · rintro ⟨hx, hp⟩
    exact ⟨(h x hp).mpr hx, hp⟩

/-- A row is found if it is there, where no other one can be meant. -/
theorem find?_eq_some_iff_mem (hn : (rows.map key).Nodup)
    (hone : ∀ x y, p x = true → p y = true → key x = key y) {x : α} :
    rows.find? p = some x ↔ x ∈ rows ∧ p x = true := by
  constructor
  · intro h
    exact ⟨List.mem_of_find?_eq_some h, List.find?_some h⟩
  · rintro ⟨hx, hp⟩
    obtain ⟨y, hy⟩ := Option.isSome_iff_exists.mp (List.find?_isSome.mpr ⟨x, hx, hp⟩)
    have hkey : key y = key x := hone y x (List.find?_some hy) hp
    rw [hy, List.inj_on_of_nodup_map hn (List.mem_of_find?_eq_some hy) hx hkey]

theorem find?_congr (hn : (rows.map key).Nodup) (hn' : (rows'.map key).Nodup)
    (hone : ∀ x y, p x = true → p y = true → key x = key y)
    (h : ∀ x, p x = true → (x ∈ rows' ↔ x ∈ rows)) : rows'.find? p = rows.find? p := by
  apply Option.ext
  intro x
  rw [find?_eq_some_iff_mem hn' hone, find?_eq_some_iff_mem hn hone]
  constructor
  · rintro ⟨hx, hp⟩
    exact ⟨(h x hp).mp hx, hp⟩
  · rintro ⟨hx, hp⟩
    exact ⟨(h x hp).mpr hx, hp⟩

theorem any_congr (h : ∀ x, p x = true → (x ∈ rows' ↔ x ∈ rows)) : rows'.any p = rows.any p := by
  rw [Bool.eq_iff_iff, List.any_eq_true, List.any_eq_true]
  constructor
  · rintro ⟨x, hx, hp⟩
    exact ⟨x, (h x hp).mp hx, hp⟩
  · rintro ⟨x, hx, hp⟩
    exact ⟨x, (h x hp).mpr hx, hp⟩

end Rows

/-- Two databases have the same part of an owner: the same user, folders and files, in whatever order. -/
structure SamePart (owner : Int) (d e : Database) : Prop where
  user : e.user? owner = d.user? owner
  folders : ∀ f : Folder, f.ownerId = owner → (f ∈ e.folderRows ↔ f ∈ d.folderRows)
  files : ∀ f : File, f.ownerId = owner → (f ∈ e.fileRows ↔ f ∈ d.fileRows)

variable {d e d' e' : Database} {owner other : Int}

namespace SamePart

theorem refl (owner : Int) (d : Database) : SamePart owner d d := ⟨rfl, fun _ _ => Iff.rfl, fun _ _ => Iff.rfl⟩

theorem trans (h : SamePart owner d e) (h' : SamePart owner e d') : SamePart owner d d' where
  user := h'.user.trans h.user
  folders f hf := (h'.folders f hf).trans (h.folders f hf)
  files f hf := (h'.files f hf).trans (h.files f hf)

theorem withFolders (h : SamePart owner d e) {rows rows' : List Folder}
    (hf : ∀ f : Folder, f.ownerId = owner → (f ∈ rows' ↔ f ∈ rows)) :
    SamePart owner (d.withFolders rows) (e.withFolders rows') := ⟨h.user, hf, h.files⟩

theorem withFiles (h : SamePart owner d e) {rows rows' : List File}
    (hf : ∀ f : File, f.ownerId = owner → (f ∈ rows' ↔ f ∈ rows)) :
    SamePart owner (d.withFiles rows) (e.withFiles rows') := ⟨h.user, h.folders, hf⟩

end SamePart

/-- The same rows, in whatever order they were inserted. -/
structure Reordered (d e : Database) : Prop where
  whole : e.IsWhole
  users : e.userRows.Perm d.userRows
  folders : e.folderRows.Perm d.folderRows
  files : e.fileRows.Perm d.fileRows

theorem user?_eq_find? (d : Database) (id : Int) : d.user? id = d.userRows.find? (·.id == id) := by
  rw [user?, userRows]
  cases d.users <;> rfl

namespace Reordered

theorem lawful (h : Reordered d e) (hd : d.Lawful) : e.Lawful where
  whole := h.whole
  userIds := (h.users.map User.id).nodup_iff.mpr hd.userIds
  folderIds := (h.folders.map Folder.id).nodup_iff.mpr hd.folderIds
  fileIds := (h.files.map File.id).nodup_iff.mpr hd.fileIds
  folderOwners f hf := (h.users.map User.id).mem_iff.mpr (hd.folderOwners f (h.folders.mem_iff.mp hf))
  fileOwners f hf := (h.users.map User.id).mem_iff.mpr (hd.fileOwners f (h.files.mem_iff.mp hf))

/-- The part of an owner does not depend on the order of the rows. -/
theorem samePart (h : Reordered d e) (hd : d.Lawful) (owner : Int) : SamePart owner d e where
  user := by
    rw [user?_eq_find?, user?_eq_find?]
    refine find?_congr hd.userIds (h.lawful hd).userIds ?_ fun u _ => h.users.mem_iff
    intro u v hu hv
    rw [beq_iff_eq.mp hu, beq_iff_eq.mp hv]
  folders _ _ := h.folders.mem_iff
  files _ _ := h.files.mem_iff

end Reordered

/-! ## What an owner reads -/

theorem hasUser_eq_isSome {table : UserTable} (h : d.users = some table) (id : Int) :
    hasUser table id = (d.user? id).isSome := by
  rw [user?, h, Option.bind_some, findUser, List.isSome_find?, hasUser]

theorem userById_eq (hw : d.IsWhole) (id : Int) :
    d.userById id = match d.user? id with
      | none => .ok none
      | some u => u.read.map some := by
  obtain ⟨table, hu, ht⟩ := hw.userTable
  rw [userById, ht, user?, hu]
  rfl

namespace SamePart

theorem isOccupied_eq (h : SamePart owner d e) (id : String) :
    isOccupied e.folderRows e.fileRows id owner = isOccupied d.folderRows d.fileRows id owner := by
  unfold isOccupied
  congr 1
  · refine any_congr fun f hf => h.folders f ?_
    simpa using (Bool.and_eq_true_iff.mp hf).1
  · refine any_congr fun f hf => h.files f ?_
    simpa using (Bool.and_eq_true_iff.mp (Bool.and_eq_true_iff.mp hf).1).1

section Rows

variable (h : SamePart owner d e) (hd : d.Lawful) (he : e.Lawful)

include h hd he

theorem findFolder_eq (id : String) : findFolder e.folderRows id owner = findFolder d.folderRows id owner := by
  refine find?_congr hd.folderIds he.folderIds ?_ ?_
  · intro f g hf hg
    simp only [Bool.and_eq_true, beq_iff_eq] at hf hg
    rw [hf.1, hg.1]
  · intro f hf
    simp only [Bool.and_eq_true, beq_iff_eq] at hf
    exact h.folders f hf.2

theorem findFile_eq (id : String) : findFile e.fileRows id owner = findFile d.fileRows id owner := by
  refine find?_congr hd.fileIds he.fileIds ?_ ?_
  · intro f g hf hg
    simp only [Bool.and_eq_true, beq_iff_eq] at hf hg
    rw [hf.1, hg.1]
  · intro f hf
    simp only [Bool.and_eq_true, beq_iff_eq] at hf
    exact h.files f hf.2

/-- Folders of the owner are listed alike. -/
theorem sortFolders_eq {p : Folder → Bool} (hp : ∀ f, p f = true → f.ownerId = owner) :
    sortFolders (e.folderRows.filter p) = sortFolders (d.folderRows.filter p) := by
  have hperm := perm_filter hd.folderIds he.folderIds fun f hf => h.folders f (hp f hf)
  exact inOrder_congr (he.folderIds.sublist (List.filter_sublist.map _)) hperm

/-- Files of the owner are listed alike. -/
theorem sortFiles_eq {p : File → Bool} (hp : ∀ f, p f = true → f.ownerId = owner) :
    sortFiles (e.fileRows.filter p) = sortFiles (d.fileRows.filter p) := by
  have hperm := perm_filter hd.fileIds he.fileIds fun f hf => h.files f (hp f hf)
  exact inOrder_congr (he.fileIds.sublist (List.filter_sublist.map _)) hperm

theorem folderById_eq (id : String) : e.folderById id owner = d.folderById id owner := by
  rw [folderById, folderById, he.whole.folderTable, hd.whole.folderTable, Except.map, Except.map,
    h.findFolder_eq hd he]

theorem foldersUnder_eq (parent : String) : e.foldersUnder owner parent = d.foldersUnder owner parent := by
  rw [foldersUnder, foldersUnder, he.whole.folderTable, hd.whole.folderTable, Except.map, Except.map]
  rw [h.sortFolders_eq hd he fun f hf => by simpa using (Bool.and_eq_true_iff.mp hf).1]

theorem folderCount_eq : e.folderRows.countP (·.ownerId == owner) = d.folderRows.countP (·.ownerId == owner) := by
  rw [List.countP_eq_length_filter, List.countP_eq_length_filter]
  exact (perm_filter hd.folderIds he.folderIds fun f hf => h.folders f (by simpa using hf)).length_eq

theorem fileById_eq (id : String) : e.fileById id owner = d.fileById id owner := by
  rw [fileById, fileById, he.whole.fileTable, hd.whole.fileTable]
  simp only [h.findFile_eq hd he]

theorem completeFile_eq (id : String) : e.completeFile id owner = d.completeFile id owner := by
  rw [completeFile, completeFile, h.fileById_eq hd he]

theorem filesOf_eq : e.filesOf owner = d.filesOf owner := by
  rw [filesOf, filesOf, he.whole.fileTable, hd.whole.fileTable, Except.map, Except.map]
  rw [h.sortFiles_eq hd he fun f hf => by simpa using (Bool.and_eq_true_iff.mp hf).1]

theorem filesUnder_eq (parent : String) : e.filesUnder owner parent = d.filesUnder owner parent := by
  rw [filesUnder, filesUnder, he.whole.fileTable, hd.whole.fileTable, Except.map, Except.map]
  rw [h.sortFiles_eq hd he fun f hf => by
    simpa using (Bool.and_eq_true_iff.mp (Bool.and_eq_true_iff.mp hf).1).1]

theorem userById_eq : e.userById owner = d.userById owner := by
  rw [Database.userById_eq he.whole, Database.userById_eq hd.whole, h.user]

theorem usageOf_eq : e.usageOf owner = d.usageOf owner := by
  rw [usageOf, usageOf, h.userById_eq hd he]

theorem ancestors_eq (ref : String) : e.ancestors owner ref = d.ancestors owner ref := by
  unfold ancestors
  rw [he.whole.folderTable, hd.whole.folderTable]
  simp only [h.findFolder_eq hd he, h.folderCount_eq hd he]

theorem breadcrumbs_eq (ref : String) : e.breadcrumbs owner ref = d.breadcrumbs owner ref := by
  rw [breadcrumbs, breadcrumbs, h.ancestors_eq hd he]

theorem listChildren_eq (ref : String) : e.listChildren owner ref = d.listChildren owner ref := by
  unfold listChildren
  rw [he.whole.folderTable, hd.whole.folderTable]
  simp only [h.findFolder_eq hd he, h.foldersUnder_eq hd he, h.filesUnder_eq hd he, h.breadcrumbs_eq hd he]

theorem allowsParent_eq (u : FileUpdate) : e.allowsParent owner u = d.allowsParent owner u := by
  unfold allowsParent
  rw [he.whole.folderTable, hd.whole.folderTable]
  simp only [Except.map, h.findFolder_eq hd he]

end Rows

end SamePart

/-! ## What an owner writes -/

/-- No other owner has a folder with the given id. -/
def SparesFolders (d : Database) (owner : Int) (id : String) : Prop :=
  ∀ f ∈ d.folderRows, f.id = id → f.ownerId = owner

/-- No other owner has a file with the given id. -/
def SparesFiles (d : Database) (owner : Int) (id : String) : Prop :=
  ∀ f ∈ d.fileRows, f.id = id → f.ownerId = owner

theorem insertFolder_eq (hw : d.IsWhole) (f : Folder) :
    d.insertFolder f =
      if f.parent ≠ "" ∧ (findFolder d.folderRows f.parent f.ownerId).isNone then
        (.error (.parentNotFound f.parent), d)
      else if d.folderRows.any (·.id == f.id) then (.error (.database "the folder id is taken"), d)
      else if !(d.user? f.ownerId).isSome then (.error (.database "the owner does not exist"), d)
      else (.ok f, d.withFolders (d.folderRows ++ [f])) := by
  obtain ⟨table, hu, ht⟩ := hw.userTable
  rw [insertFolder, hw.folderTable, ht]
  simp only [hasUser_eq_isSome hu]
  rfl

theorem insertFile_eq (hw : d.IsWhole) (f : File) :
    d.insertFile f =
      if d.fileRows.any (·.id == f.id) then (.error (.database "the file id is taken"), d)
      else if !(d.user? f.ownerId).isSome then (.error (.database "the owner does not exist"), d)
      else (.ok f, d.withFiles (d.fileRows ++ [f])) := by
  obtain ⟨table, hu, ht⟩ := hw.userTable
  rw [insertFile, hw.fileTable, ht]
  simp only [hasUser_eq_isSome hu]
  rfl

/-- A call on a counter reads what it leaves. -/
theorem adjustSpaceUsed_fst (hw : d.IsWhole) (id delta : Int) :
    (d.adjustSpaceUsed id delta).1 = match d.user? id with
      | none => .error (.notFound "user")
      | some u => (u.spaceUsed.add delta).read := by
  obtain ⟨table, hu, ht⟩ := hw.userTable
  rw [adjustSpaceUsed, ht, user?, hu, Option.bind_some]
  cases hf : findUser table id <;> simp only [hf]

/-- A statement ends alike in two databases and does the same to the part of an owner. -/
def Alike {α : Type} (owner : Int) (r r' : α × Database) : Prop := r'.1 = r.1 ∧ SamePart owner r.2 r'.2

theorem Alike.cases {α : Type} {r r' : α × Database} (h : Alike owner r r') :
    ∃ result db db', r = (result, db) ∧ r' = (result, db') ∧ SamePart owner db db' := by
  obtain ⟨result, db⟩ := r
  obtain ⟨result', db'⟩ := r'
  obtain ⟨hresult, hpart⟩ := h
  cases hresult
  exact ⟨result, db, db', rfl, rfl, hpart⟩

namespace SamePart

/-- A row that is added is added to the part. -/
theorem mem_append_iff {α : Type} {rows rows' : List α} {x : α} (y : α) (h : x ∈ rows' ↔ x ∈ rows) :
    x ∈ rows' ++ [y] ↔ x ∈ rows ++ [y] := by
  rw [List.mem_append, List.mem_append, h]

variable (h : SamePart owner d e) (hd : d.Lawful) (he : e.Lawful)

include h hd he

theorem insertFolder {f : Folder} (hf : f.ownerId = owner) (hsd : d.SparesFolders owner f.id)
    (hse : e.SparesFolders owner f.id) : Alike owner (d.insertFolder f) (e.insertFolder f) := by
  subst hf
  have hany : e.folderRows.any (·.id == f.id) = d.folderRows.any (·.id == f.id) := by
    refine any_congr fun g hg => ?_
    rw [beq_iff_eq] at hg
    exact ⟨fun hmem => (h.folders g (hse g hmem hg)).mp hmem, fun hmem => (h.folders g (hsd g hmem hg)).mpr hmem⟩
  rw [insertFolder_eq hd.whole, insertFolder_eq he.whole, h.findFolder_eq hd he, hany, h.user]
  split
  · exact ⟨rfl, h⟩
  · split
    · exact ⟨rfl, h⟩
    · split
      · exact ⟨rfl, h⟩
      · exact ⟨rfl, h.withFolders fun g hg => mem_append_iff f (h.folders g hg)⟩

theorem insertFile {f : File} (hf : f.ownerId = owner) (hsd : d.SparesFiles owner f.id)
    (hse : e.SparesFiles owner f.id) : Alike owner (d.insertFile f) (e.insertFile f) := by
  subst hf
  have hany : e.fileRows.any (·.id == f.id) = d.fileRows.any (·.id == f.id) := by
    refine any_congr fun g hg => ?_
    rw [beq_iff_eq] at hg
    exact ⟨fun hmem => (h.files g (hse g hmem hg)).mp hmem, fun hmem => (h.files g (hsd g hmem hg)).mpr hmem⟩
  rw [insertFile_eq hd.whole, insertFile_eq he.whole, hany, h.user]
  split
  · exact ⟨rfl, h⟩
  · split
    · exact ⟨rfl, h⟩
    · exact ⟨rfl, h.withFiles fun g hg => mem_append_iff f (h.files g hg)⟩

theorem deleteFolderIfEmpty (id : String) :
    Alike owner (d.deleteFolderIfEmpty id owner) (e.deleteFolderIfEmpty id owner) := by
  rw [deleteFolderIfEmpty_eq hd.whole, deleteFolderIfEmpty_eq he.whole, h.findFolder_eq hd he, h.isOccupied_eq]
  split
  · refine ⟨rfl, h.withFolders fun g hg => ?_⟩
    rw [mem_foldersWithout, mem_foldersWithout, h.folders g hg]
  · exact ⟨rfl, h⟩

theorem updateFile (id : String) (u : FileUpdate) :
    Alike owner (d.updateFile id owner u) (e.updateFile id owner u) := by
  by_cases hu : u.isEmpty = true
  · rw [Database.updateFile, Database.updateFile, if_pos hu, if_pos hu]
    exact ⟨h.fileById_eq hd he id, h⟩
  · have hu' : u.isEmpty = false := by simpa using hu
    rw [updateFile_eq hd.whole id owner hu', updateFile_eq he.whole id owner hu', h.allowsParent_eq hd he,
      h.findFile_eq hd he]
    split
    · exact ⟨rfl, h⟩
    · exact ⟨rfl, h⟩
    · refine ⟨rfl, h.withFiles fun g hg => ?_⟩
      -- The row that is updated is one of the owner, before and after.
      have hrow : ∀ g' : File, (g'.id = id ∧ g'.ownerId = owner ∧ g = u.apply g') ∨
          (¬ (g'.id = id ∧ g'.ownerId = owner) ∧ g = g') → g'.ownerId = owner := by
        rintro g' (⟨-, hown, -⟩ | ⟨-, rfl⟩)
        · exact hown
        · exact hg
      rw [mem_updatedRows, mem_updatedRows]
      constructor
      · rintro ⟨g', hg', hcase⟩
        exact ⟨g', (h.files g' (hrow g' hcase)).mp hg', hcase⟩
      · rintro ⟨g', hg', hcase⟩
        exact ⟨g', (h.files g' (hrow g' hcase)).mpr hg', hcase⟩
    · exact ⟨rfl, h⟩

theorem deleteFile (id : String) : Alike owner (d.deleteFile id owner) (e.deleteFile id owner) := by
  have hany : e.fileRows.any (isFile id owner) = d.fileRows.any (isFile id owner) :=
    any_congr fun f hf => h.files f (isFile_iff.mp hf).2
  rw [deleteFile_eq hd.whole, deleteFile_eq he.whole, hany]
  refine ⟨rfl, h.withFiles fun g hg => ?_⟩
  rw [List.mem_filter, List.mem_filter, h.files g hg]

theorem adjustSpaceUsed (delta : Int) :
    Alike owner (d.adjustSpaceUsed owner delta) (e.adjustSpaceUsed owner delta) := by
  have hod := onlyUsers_adjustSpaceUsed d owner delta
  have hoe := onlyUsers_adjustSpaceUsed e owner delta
  refine ⟨?_, ?_, ?_, ?_⟩
  · rw [adjustSpaceUsed_fst hd.whole, adjustSpaceUsed_fst he.whole, h.user]
  · rw [user?_adjustSpaceUsed, user?_adjustSpaceUsed, h.user]
  · rw [hod.folderRows, hoe.folderRows]
    exact h.folders
  · rw [hod.fileRows, hoe.fileRows]
    exact h.files

theorem createFolder {id : String} (hsd : d.SparesFolders owner id) (hse : e.SparesFolders owner id)
    (name parent createdAt : String) :
    Alike owner (d.createFolder owner name parent id createdAt) (e.createFolder owner name parent id createdAt) := by
  unfold Database.createFolder
  split
  · exact ⟨rfl, h⟩
  · next name' _ =>
    exact h.insertFolder hd he (f := ⟨id, name', FolderRef.normalize parent, owner, createdAt⟩) rfl hsd hse

theorem deleteFolder (ref : String) : Alike owner (d.deleteFolder owner ref) (e.deleteFolder owner ref) := by
  have hkept : ∀ {db : Database}, db.Lawful →
      (db.deleteFolderIfEmpty (FolderRef.normalize ref) owner).2.Lawful := fun hdb =>
    (Statement.deleteFolderIfEmpty (FolderRef.normalize ref) owner).lawful_apply hdb fun hnone => by cases hnone
  obtain ⟨result, db, db', hr, hr', hpart⟩ := (h.deleteFolderIfEmpty hd he (FolderRef.normalize ref)).cases
  have hdb : db.Lawful := by simpa only [hr] using hkept hd
  have hdb' : db'.Lawful := by simpa only [hr'] using hkept he
  unfold Database.deleteFolder
  simp only [hr, hr', h.folderById_eq hd he]
  split
  · exact ⟨rfl, h⟩
  · split
    · exact ⟨rfl, h⟩
    · exact ⟨rfl, h⟩
    · cases result with
      | error cause => exact ⟨rfl, hpart⟩
      | ok removed =>
        cases removed with
        | true => exact ⟨rfl, hpart⟩
        | false =>
          simp only [hpart.folderById_eq hdb hdb']
          split
          · exact ⟨rfl, hpart⟩
          · exact ⟨rfl, hpart⟩
          · exact ⟨rfl, hpart⟩

end SamePart

/-! ## What an owner leaves to others -/

/-- A statement of one owner leaves the parts of all others as they were. -/
theorem samePart_apply {st : Statement} (hw : d.IsWhole) (hst : st.owner? = some owner) (hne : other ≠ owner) :
    SamePart other d (st.apply d) := by
  have hnot : ∀ {o : Int}, o = other → o ≠ owner := by
    rintro o rfl
    exact hne
  cases st with
  | createUser username quota createdAt => cases hst
  | setQuota id quota => cases hst
  | adjustSpaceUsed id delta =>
    cases hst
    have ho := onlyUsers_adjustSpaceUsed d owner delta
    refine ⟨?_, ?_, ?_⟩
    · rw [Statement.apply, user?_adjustSpaceUsed]
      cases hv : d.user? other with
      | none => rfl
      | some v => rw [Option.map_some, if_neg (hnot (id_of_user? hv))]
    · intro f _
      rw [Statement.apply, ho.folderRows]
    · intro f _
      rw [Statement.apply, ho.fileRows]
  | insertFolder f =>
    cases hst
    rcases insertFolder_cases hw f with ⟨e, he⟩ | ⟨hok, -⟩
    · rw [Statement.apply, he]
      exact .refl other d
    · rw [Statement.apply, hok]
      refine ⟨rfl, fun g hg => ?_, fun _ _ => Iff.rfl⟩
      have hgf : g ≠ f := by
        rintro rfl
        exact hnot hg rfl
      simp [hgf]
  | deleteFolderIfEmpty id o =>
    cases hst
    rw [Statement.apply, deleteFolderIfEmpty_eq hw]
    split
    · refine ⟨rfl, fun g hg => ?_, fun _ _ => Iff.rfl⟩
      simp [foldersWithout, hnot hg]
    · exact .refl other d
  | insertFile f =>
    cases hst
    rcases insertFile_cases hw f with ⟨e, he⟩ | ⟨hok, -⟩
    · rw [Statement.apply, he]
      exact .refl other d
    · rw [Statement.apply, hok]
      refine ⟨rfl, fun _ _ => Iff.rfl, fun g hg => ?_⟩
      have hgf : g ≠ f := by
        rintro rfl
        exact hnot hg rfl
      simp [hgf]
  | updateFile id o u =>
    cases hst
    by_cases hu : u.isEmpty = true
    · rw [Statement.apply, Database.updateFile, if_pos hu]
      exact .refl other d
    · rcases updateFile_cases hw id owner (by simpa using hu) with ⟨f, -, -, hok⟩ | ⟨hsame, -⟩
      · rw [Statement.apply, hok]
        refine ⟨rfl, fun _ _ => Iff.rfl, fun g hg => ?_⟩
        rw [fileRows_withFiles, mem_updatedRows]
        constructor
        · rintro ⟨g', hg', ⟨-, hown, rfl⟩ | ⟨-, rfl⟩⟩
          · rw [u.apply_ownerId] at hg
            exact absurd hown (hnot hg)
          · exact hg'
        · intro hmem
          exact ⟨g, hmem, Or.inr ⟨fun hself => hnot hg hself.2, rfl⟩⟩
      · rw [Statement.apply, hsame]
        exact .refl other d
  | deleteFile id o =>
    cases hst
    rw [Statement.apply, deleteFile_eq hw]
    refine ⟨rfl, fun _ _ => Iff.rfl, fun g hg => ?_⟩
    simp [isFile, hnot hg]

namespace Steps

variable {p : Statement → Prop}

/-- The parts of all others stay as they were, whatever one owner does. -/
theorem samePart (h : Steps p d d') (hown : ∀ st, p st → st.owner? = some owner) (hd : d.Lawful)
    (hne : other ≠ owner) : SamePart other d d' := by
  refine (h.keeps (P := fun db => db.Lawful ∧ SamePart other d db) ⟨hd, .refl other d⟩ ?_).2
  intro db st hst hdb
  refine ⟨st.lawful_apply hdb.1 fun hnone => ?_, hdb.2.trans (samePart_apply hdb.1.whole (hown st hst) hne)⟩
  rw [hown st hst] at hnone
  cases hnone

end Steps

/-- Ids that no other owner has stay so, as long as the parts of all others do. -/
theorem SparesFolders.of_samePart {id : String} (h : d.SparesFolders owner id)
    (hsame : ∀ other, other ≠ owner → SamePart other d d') : d'.SparesFolders owner id := by
  intro f hf hid
  by_contra hne
  exact hne (h f (((hsame f.ownerId hne).folders f rfl).mp hf) hid)

theorem SparesFiles.of_samePart {id : String} (h : d.SparesFiles owner id)
    (hsame : ∀ other, other ≠ owner → SamePart other d d') : d'.SparesFiles owner id := by
  intro f hf hid
  by_contra hne
  exact hne (h f (((hsame f.ownerId hne).files f rfl).mp hf) hid)

end Database

end FileDepot
