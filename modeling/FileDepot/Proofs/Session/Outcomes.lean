import FileDepot.Proofs.Session.Accounts
import FileDepot.Proofs.Session.Parts
import FileDepot.Proofs.Store.Listings

/-!
# The outcomes of operations

An operation that fails has changed nothing, and what an operation finds, makes or changes for an owner are rows
of that owner. The one failure that comes after a change is that of a counter that can no longer be read.
-/

namespace FileDepot

open BlobPath Database

namespace Database

variable {db : Database} {owner : Int} {e : Error}

/-! ## Failures -/

/-- Whether the counters of all users can be read. -/
def CountersFit (db : Database) : Prop := ∀ u ∈ db.userRows, ∃ n, u.spaceUsed = .exact n

/-- Adding to a counter makes and removes no users. -/
theorem userIds_adjustSpaceUsed (db : Database) (id delta : Int) :
    (db.adjustSpaceUsed id delta).2.userIds = db.userIds := by
  rcases adjustSpaceUsed_cases db id delta with ⟨cause, hfail⟩ | ⟨table, u, ht, -, hok⟩
  · rw [hfail]
  · rw [hok, userIds, userIds, userRows_withUsers, userRows_of_users ht, List.map_map]
    refine List.map_congr_left fun v _ => ?_
    simp only [Function.comp]
    split <;> rfl

/-- Adding to the counter of a user succeeds if the counter can be read afterwards. -/
theorem adjustSpaceUsed_ok {id : Int} (hid : id ∈ db.userIds) (delta : Int)
    (hfit : (db.adjustSpaceUsed id delta).2.CountersFit) : ∃ n, (db.adjustSpaceUsed id delta).1 = .ok n := by
  obtain ⟨v, hv, rfl⟩ := List.mem_map.mp hid
  unfold adjustSpaceUsed userTable at hfit ⊢
  cases ht : db.users with
  | none =>
    rw [userRows, ht] at hv
    cases hv
  | some table =>
    rw [userRows_of_users ht] at hv
    simp only [ht] at hfit ⊢
    cases hu : findUser table v.id with
    | none => exact absurd (List.find?_eq_none.mp hu v hv) (by simp)
    | some u =>
      simp only [hu] at hfit ⊢
      obtain ⟨n, hn⟩ := hfit { v with spaceUsed := u.spaceUsed.add delta }
        (List.mem_map.mpr ⟨v, hv, if_pos rfl⟩)
      exact ⟨n, by rw [show u.spaceUsed.add delta = .exact n from hn, Counter.read]⟩

theorem createFolder_of_error (hw : db.IsWhole) {name parent id createdAt : String}
    (h : (db.createFolder owner name parent id createdAt).1 = .error e) :
    (db.createFolder owner name parent id createdAt).2 = db := by
  unfold createFolder at h ⊢
  split
  · rfl
  · next name' hname =>
    rw [hname] at h
    rcases insertFolder_cases hw ⟨id, name', FolderRef.normalize parent, owner, createdAt⟩ with
      ⟨cause, hfail⟩ | ⟨hok, -⟩
    · rw [hfail]
    · simp only [hok] at h
      cases h

theorem deleteFolder_of_error (hw : db.IsWhole) {ref : String} (h : (db.deleteFolder owner ref).1 = .error e) :
    (db.deleteFolder owner ref).2 = db := by
  simp only [deleteFolder, deleteFolderIfEmpty_eq hw] at h ⊢
  split_ifs at h ⊢ with htop hempty
  · rfl
  · cases hf : db.folderById (FolderRef.normalize ref) owner with
    | error cause => rfl
    | ok found =>
      cases found with
      | none => rfl
      | some f =>
        simp only [hf] at h
        cases h
  · cases hf : db.folderById (FolderRef.normalize ref) owner with
    | error cause => rfl
    | ok found =>
      cases found with
      | none => rfl
      | some f => simp only [hf]

/-! ## Rows that are found -/

theorem filesOf_ok (hw : db.IsWhole) {rows : List File} (h : db.filesOf owner = .ok rows) :
    ∀ f ∈ rows, f ∈ db.fileRows ∧ f.ownerId = owner := by
  simp only [filesOf, hw.fileTable, Except.map, Except.ok.injEq] at h
  subst h
  intro f hf
  have hmem := List.mem_filter.mp ((inOrder_perm File.name File.id _).mem_iff.mp hf)
  simp only [Bool.and_eq_true, beq_iff_eq] at hmem
  exact ⟨hmem.1, hmem.2.1⟩

/-- A walk to the top level passes no folders but those that are looked up. -/
theorem climb_ok {find : String → Option Folder} {bound : Nat} {seen : List String} {f : Folder}
    {chain : List Folder} (h : climb find bound seen f = .ok chain) :
    ∀ g ∈ chain, g = f ∨ ∃ id, find id = some g := by
  induction bound generalizing seen f chain with
  | zero => cases h
  | succ bound ih =>
    rw [climb] at h
    split_ifs at h with hseen htop
    · obtain rfl := Except.ok.inj h
      exact fun g hg => Or.inl (List.mem_singleton.mp hg)
    · split at h
      · cases h
      · next parent hparent =>
        cases hc : climb find bound (f.id :: seen) parent with
        | error cause =>
          rw [hc] at h
          cases h
        | ok above =>
          rw [hc] at h
          obtain rfl := Except.ok.inj h
          intro g hg
          rcases List.mem_cons.mp hg with rfl | hg
          · exact Or.inl rfl
          · rcases ih hc g hg with rfl | hfound
            · exact Or.inr ⟨_, hparent⟩
            · exact Or.inr hfound

theorem ancestors_ok (hw : db.IsWhole) {ref : String} {chain : List Folder}
    (h : db.ancestors owner ref = .ok chain) : ∀ f ∈ chain, f ∈ db.folderRows ∧ f.ownerId = owner := by
  simp only [ancestors, hw.folderTable] at h
  split_ifs at h with htop
  · obtain rfl := Except.ok.inj h
    simp
  · split at h
    · cases h
    · next f hf =>
      intro g hg
      have hfound : ∃ id, findFolder db.folderRows id owner = some g := by
        rcases climb_ok h g hg with rfl | hfound
        · exact ⟨_, hf⟩
        · exact hfound
      obtain ⟨id, hid⟩ := hfound
      exact ⟨(findFolder_some hid).1, (findFolder_some hid).2.2⟩

theorem breadcrumbs_ok (hw : db.IsWhole) {ref : String} {crumbs : List Breadcrumb}
    (h : db.breadcrumbs owner ref = .ok crumbs) :
    ∀ b ∈ crumbs, b = .root ∨ ∃ f ∈ db.folderRows, f.ownerId = owner ∧ b = .ofFolder f := by
  unfold breadcrumbs at h
  split at h
  · obtain rfl := Except.ok.inj h
    simp
  · cases hc : db.ancestors owner ref with
    | error cause =>
      rw [hc] at h
      cases h
    | ok chain =>
      rw [hc] at h
      obtain rfl := Except.ok.inj h
      intro b hb
      rcases List.mem_append.mp hb with hb | hb
      · obtain ⟨f, hf, rfl⟩ := List.mem_map.mp hb
        obtain ⟨hmem, hown⟩ := ancestors_ok hw hc f (List.mem_of_mem_drop hf)
        exact Or.inr ⟨f, hmem, hown, rfl⟩
      · exact Or.inl (List.mem_singleton.mp hb)

end Database

/-- Whether a listing holds nothing but rows of an owner. -/
structure Listing.IsOf (owner : Int) (db : Database) (l : Listing) : Prop where
  folders : ∀ f ∈ l.folders, f ∈ db.folderRows ∧ f.ownerId = owner
  files : ∀ f ∈ l.files, f ∈ db.fileRows ∧ f.ownerId = owner
  breadcrumbs : ∀ b ∈ l.breadcrumbs, b = .root ∨ ∃ f ∈ db.folderRows, f.ownerId = owner ∧ b = .ofFolder f

namespace Database

variable {db : Database} {owner : Int}

theorem listChildren_ok (hw : db.IsWhole) {ref : String} {l : Listing} (h : db.listChildren owner ref = .ok l) :
    l.IsOf owner db := by
  simp only [listChildren, foldersUnder, filesUnder, hw.folderTable, hw.fileTable] at h
  split_ifs at h with hmissing
  cases hc : db.breadcrumbs owner (FolderRef.normalize ref) with
  | error cause =>
    rw [hc] at h
    cases h
  | ok crumbs =>
    rw [hc] at h
    obtain rfl := Except.ok.inj h
    refine ⟨fun f hf => ?_, fun f hf => ?_, breadcrumbs_ok hw hc⟩
    · have hmem := List.mem_filter.mp ((inOrder_perm Folder.name Folder.id _).mem_iff.mp hf)
      simp only [Bool.and_eq_true, beq_iff_eq] at hmem
      exact ⟨hmem.1, hmem.2.1⟩
    · have hmem := List.mem_filter.mp ((inOrder_perm File.name File.id _).mem_iff.mp hf)
      simp only [Bool.and_eq_true, beq_iff_eq] at hmem
      exact ⟨hmem.1, hmem.2.1.1⟩

/-- A folder that is created is one of the owner. -/
theorem createFolder_ok (hw : db.IsWhole) {name parent id createdAt : String} {f : Folder}
    (h : (db.createFolder owner name parent id createdAt).1 = .ok f) :
    f ∈ (db.createFolder owner name parent id createdAt).2.folderRows ∧ f.ownerId = owner := by
  unfold createFolder at h ⊢
  split
  · next cause hname =>
    rw [hname] at h
    cases h
  · next name' hname =>
    rw [hname] at h
    rcases insertFolder_cases hw ⟨id, name', FolderRef.normalize parent, owner, createdAt⟩ with
      ⟨cause, hfail⟩ | ⟨hok, -⟩
    · simp only [hfail] at h
      cases h
    · simp only [hok] at h ⊢
      obtain rfl := Except.ok.inj h
      exact ⟨List.mem_append_right _ (List.mem_singleton_self _), rfl⟩

end Database

namespace Depot

variable {d : Depot} {owner : Int} {id : String} {e : Error}

theorem rename_of_error (ho : d.Orderly) {name : String} (h : (d.rename owner id name).1 = .error e) :
    (d.rename owner id name).2 = d := by
  cases hname : Name.require name with
  | error cause => simp only [rename, hname]
  | ok name' =>
    cases hf : d.file owner id with
    | error cause => simp only [rename, hname, hf]
    | ok f =>
      rw [rename_of_file ho hf hname] at h
      cases h

/-- A file that is renamed is one of the owner. -/
theorem rename_ok (ho : d.Orderly) {name : String} {f : File} (h : (d.rename owner id name).1 = .ok f) :
    f ∈ (d.rename owner id name).2.db.fileRows ∧ f.ownerId = owner := by
  cases hname : Name.require name with
  | error cause =>
    simp only [rename, hname] at h
    cases h
  | ok name' =>
    cases hf : d.file owner id with
    | error cause =>
      simp only [rename, hname, hf] at h
      cases h
    | ok g =>
      rw [rename_of_file ho hf hname] at h ⊢
      obtain rfl := Except.ok.inj h
      obtain ⟨hmem, rfl, rfl, -⟩ := file_some ho.whole hf
      exact ⟨mem_updatedRows.mpr ⟨g, hmem, Or.inl ⟨rfl, rfl, rfl⟩⟩, rfl⟩

/-- A file that cannot be deleted is still there, unless it is that its bytes could not be given back. -/
theorem delete_of_failure (ho : d.Orderly) (hc : d.Contentful) (hl : d.db.Lawful)
    (h : (d.delete owner id).1 = .error e) (hfit : (d.delete owner id).2.db.CountersFit) :
    (d.delete owner id).2 = d := by
  cases hf : d.file owner id with
  | error cause => rw [delete_of_error hf]
  | ok f =>
    obtain ⟨hmem, -, rfl, -⟩ := file_some ho.whole hf
    rw [delete_of_file ho hc hf] at h hfit
    have howner : f.ownerId ∈ (d.db.withFiles (d.db.fileRows.filter fun g => !isFile id f.ownerId g)).userIds :=
      hl.fileOwners f hmem
    obtain ⟨n, hn⟩ := adjustSpaceUsed_ok howner (Deletion.opposite f.size) hfit
    simp only [hn] at h
    cases h

/-- What is opened is a file of the owner with its content. -/
theorem openDownload_ok (ho : d.Orderly) (hc : d.Contentful) {found : Download}
    (h : d.openDownload owner id = .ok found) :
    found.file ∈ d.db.fileRows ∧ found.file.ownerId = owner ∧
      ∃ content, found.entry = .blob content ∧ d.blobs.get? (ofIds owner found.file.id) = some (.blob content) := by
  cases hf : d.file owner id with
  | error cause =>
    simp only [openDownload, hf] at h
    cases h
  | ok f =>
    obtain ⟨hmem, rfl, rfl, hs⟩ := file_some ho.whole hf
    obtain ⟨hid, content, hg⟩ := hc f hmem hs
    rw [openDownload_of_mem ho hmem hs hid hg] at h
    obtain rfl := Except.ok.inj h
    exact ⟨hmem, rfl, content, rfl, hg⟩

/-- What is told of the usage is the row of the user. -/
theorem usage_ok {u : Usage} (h : d.usage owner = .ok u) :
    ∃ v ∈ d.db.userRows, v.id = owner ∧ v.quota = u.quota ∧ v.spaceUsed = .exact u.spaceUsed := by
  unfold usage usageOf userById userTable at h
  cases ht : d.db.users with
  | none => simp [ht, Except.map] at h
  | some table =>
    cases hv : findUser table owner with
    | none => simp [ht, hv, Except.map] at h
    | some v =>
      have hid : v.id = owner := by simpa using List.find?_some hv
      rw [userRows_of_users ht]
      refine ⟨v, List.mem_of_find?_eq_some hv, hid, ?_⟩
      cases hc : v.spaceUsed with
      | overflowed n => simp [ht, hv, User.read, hc, Counter.read, Except.map] at h
      | exact n =>
        simp [ht, hv, User.read, hc, Counter.read, Except.map, Account.usage] at h
        subst h
        exact ⟨rfl, rfl⟩

end Depot

end FileDepot
