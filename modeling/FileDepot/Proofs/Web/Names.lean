import FileDepot.Proofs.Session.Outcomes
import FileDepot.Proofs.Text.Names
import FileDepot.Proofs.Text.Percent
import FileDepot.Proofs.Upload.Rows
import FileDepot.Proofs.Web.Service

/-!
# The names in a service

Names come into the depot in two ways: an operation writes a name that has passed the rule, and an upload writes
what is kept of the name that the client gave to its file. What an upload writes was heard in its body, and that
is followed through the stages of uploads, the turns of sessions and the requests of services.
-/

namespace FileDepot

open BlobPath Database Depot

/-- The name that a client gives to a file with the beginning of a part. -/
def Multipart.Event.fileName? : Multipart.Event → Option String
  | .part (some "file") filename => some (filename.getD "")
  | _ => none

/-- The name of the file whose part is over. -/
def Scan.names (scan : Scan) : List String := (scan.staged.map Staged.name).toList

namespace Upload

/-- The names that an upload may still write. -/
def names : Upload → List String
  | betweenParts scan => scan.names
  | inParent scan _ => scan.names
  | inOther scan => scan.names
  | inHead scan name _ => name :: scan.names
  | inBody scan staged => staged.name :: scan.names
  | insertStub scan name _ _ => name :: scan.names
  | makeDirectory scan staged _ _ => staged.name :: scan.names
  | createBlob scan staged _ _ => staged.name :: scan.names
  | write scan staged _ _ => staged.name :: scan.names
  | finish _ staged => [staged.name]
  | _ => []

variable {t : Ticket} {d d' d'' : Depot} {u : Upload} {e : Multipart.Event} {known : List String}

/-- Among the known names are all those that an upload may still write. -/
def Knows (known : List String) (u : Upload) : Prop := ∀ name ∈ u.names, name ∈ known

/-- Among the known names are those under which the files of a list of events are kept. -/
def Heard (known : List String) (events : List Multipart.Event) : Prop :=
  ∀ e ∈ events, ∀ raw, e.fileName? = some raw → Name.ofClient raw ∈ known

/-- The names that an upload may still write are those of its labels. -/
theorem names_eq (u : Upload) : u.names = u.labels.map Prod.fst := by
  have hscan : ∀ scan : Scan, scan.names = scan.labels.map Prod.fst := by
    intro scan
    unfold Scan.names Scan.labels
    cases scan.staged <;> rfl
  cases u with
  | betweenParts scan => exact hscan scan
  | inParent scan text => exact hscan scan
  | inOther scan => exact hscan scan
  | inHead scan name head => exact congrArg (name :: ·) (hscan scan)
  | inBody scan staged => exact congrArg (staged.name :: ·) (hscan scan)
  | insertStub scan name head ended => exact congrArg (name :: ·) (hscan scan)
  | makeDirectory scan staged head ended => exact congrArg (staged.name :: ·) (hscan scan)
  | createBlob scan staged head ended => exact congrArg (staged.name :: ·) (hscan scan)
  | write scan staged bytes ended => exact congrArg (staged.name :: ·) (hscan scan)
  | _ => rfl

theorem knows_iff : Knows known u ↔ ∀ label ∈ u.labels, label.1 ∈ known := by
  rw [Knows, names_eq, List.forall_mem_map]

theorem knows_receive (h : Knows known u) (e : Multipart.Event) (hheard : Heard known [e]) :
    Knows known (u.receive e) := by
  rw [knows_iff] at h ⊢
  intro label hlabel
  cases labels_receive hlabel with
  | kept hkept => exact h label hkept
  | heard filename he =>
    have hraw : e.fileName? = some (filename.getD "") := by rw [he]; rfl
    simp only
    exact hheard e List.mem_cons_self _ hraw
  | told hname hd => exact h (_, none) hname

/-- An access to the depot brings no names. -/
theorem knows_advance (h : Knows known u) (t : Ticket) (d : Depot) : Knows known (advance t d u).1 := by
  rw [knows_iff] at h ⊢
  exact fun label hlabel => h label (labels_advance t d u hlabel)

/-- Rows that were not there before are those of the upload, under a known name. -/
def Writes (t : Ticket) (known : List String) (d d' : Depot) : Prop :=
  ∀ f ∈ d'.db.fileRows, f ∈ d.db.fileRows ∨ f.id = t.fileId ∧ f.ownerId = t.owner ∧ f.name ∈ known

theorem Writes.trans (h : Writes t known d d') (h' : Writes t known d' d'') : Writes t known d d'' := by
  intro f hf
  rcases h' f hf with hf | hf
  · exact h f hf
  · exact Or.inr hf

theorem Writes.of_subset (h : d'.db.fileRows ⊆ d.db.fileRows) : Writes t known d d' :=
  fun _ hf => Or.inl (h hf)

theorem writes_advance (h : Knows known u) (hw : d.db.IsWhole) : Writes t known d (advance t d u).2 := by
  intro f hf
  rcases rows_advance hw u hf with hf | ⟨hid, hown, hlabel, -⟩
  · exact Or.inl hf
  · exact Or.inr ⟨hid, hown, knows_iff.mp h _ hlabel⟩

theorem writes_settle (hl : d.db.Lawful) (h : Knows known u) :
    Knows known (settle t d u).1 ∧ Writes t known d (settle t d u).2 := by
  have hkept := settle_keeps (t := t)
    (P := fun u e => e.db.Lawful ∧ Knows known u ∧ Writes t known d e)
    (fun u e _ hp => ⟨(steps_advance t e u).lawful_of_owner hp.1, knows_advance hp.2.1 t e,
      hp.2.2.trans (writes_advance hp.2.1 hp.1.whole)⟩)
    d u ⟨hl, h, .of_subset fun _ hf => hf⟩
  exact hkept.2

/-- An upload that takes events of its body writes no names but those that it knew and those that it hears. -/
theorem writes_feed (hl : d.db.Lawful) (h : Knows known u) {events : List Multipart.Event}
    (hheard : Heard known events) :
    Knows known (feed t d u events).1 ∧ Writes t known d (feed t d u events).2 := by
  induction events generalizing d u with
  | nil => exact ⟨h, .of_subset fun _ hf => hf⟩
  | cons e rest ih =>
    have hone : Heard known [e] := fun x hx => hheard x (List.mem_singleton.mp hx ▸ List.mem_cons_self)
    obtain ⟨hknows, hwrites⟩ := writes_settle (t := t) hl (knows_receive h e hone)
    obtain ⟨hknows', hwrites'⟩ := ih ((steps_settle t d (u.receive e)).lawful_of_owner hl) hknows
      fun x hx => hheard x (List.mem_cons_of_mem e hx)
    exact ⟨hknows', hwrites.trans hwrites'⟩

end Upload

/-! ## Operations -/

/-- Without a new id no folder is made. -/
theorem Database.Steps.folderRows_subset {owner? : Option Int} {db db' : Database}
    (h : Steps (Statement.MadeBy owner? none) db db') (hw : db.IsWhole) : db'.folderRows ⊆ db.folderRows := by
  have hkept := h.keeps (P := fun e => e.IsWhole ∧ e.folderRows ⊆ db.folderRows) ⟨hw, fun _ hf => hf⟩ ?_
  · exact hkept.2
  · intro e st hst he
    refine ⟨(st.write_apply he.1 hst.guarded).whole he.1, fun f hf => ?_⟩
    rcases st.mem_folderRows_apply he.1 hf with hf | hid
    · exact he.2 hf
    · rcases hst.newId with hnone | hnone
      · cases hnone.symm.trans hid
      · cases hnone.symm.trans hid

namespace Depot

variable {d : Depot} {f : File}

/-- A row is there already, or it is that of a file that has been given a name that passes the rule. -/
def IsRowOrRenamed (d : Depot) (f : File) : Prop :=
  f ∈ d.db.fileRows ∨ ∃ g ∈ d.db.fileRows, ∃ name, Name.check name = .ok name ∧ f = { g with name := name }

theorem mem_fileRows_rename (ho : d.Orderly) {owner : Int} {id name : String}
    (hf : f ∈ (d.rename owner id name).2.db.fileRows) : d.IsRowOrRenamed f := by
  cases hname : Name.require name with
  | error cause =>
    simp only [rename, hname] at hf
    exact Or.inl hf
  | ok name' =>
    cases hfile : d.file owner id with
    | error cause =>
      simp only [rename, hname, hfile] at hf
      exact Or.inl hf
    | ok g =>
      rw [rename_of_file ho hfile hname] at hf
      obtain ⟨g, hg, ⟨-, -, rfl⟩ | ⟨-, rfl⟩⟩ := mem_updatedRows.mp hf
      · exact Or.inr ⟨g, hg, name', Name.check_of_require hname, rfl⟩
      · exact Or.inl hg

/-- A finished file can be given the name that it has, which changes nothing, unless the name is too long. -/
theorem rename_self (ho : d.Orderly) (hf : f ∈ d.db.fileRows) (hs : f.state = .complete)
    (hplain : Name.IsPlain f.name) :
    d.rename f.ownerId f.id f.name =
      (if f.name.length ≤ Name.maxLength then .ok f else .error (.validation NameFault.tooLong.message), d) := by
  split
  · next hle =>
    have hname : Name.require f.name = .ok f.name := by
      rw [Name.require, Name.check_eq_self_iff.mpr ⟨hplain, hle⟩]
    have hrows : updatedRows d.db.fileRows f.id f.ownerId { FileUpdate.none with name := some f.name } =
        d.db.fileRows := by
      refine (List.map_congr_left fun g hg => ?_).trans (List.map_id _)
      split
      · next hfile =>
        rw [List.inj_on_of_nodup_map ho.unique hg hf (isFile_iff.mp hfile).1]
        rfl
      · rfl
    rw [rename_of_file ho (file_of_mem ho hf hs) hname, hrows, withFiles_self ho.whole]
  · next hlong =>
    have hname : Name.require f.name = .error (.validation NameFault.tooLong.message) := by
      rw [Name.require, hplain.check_of_long (Nat.lt_of_not_le hlong)]
    simp only [rename, hname]

end Depot

namespace Operation

variable {d : Depot}

/-- A folder is made with a name that has passed the rule and with the stored form of its parent. -/
theorem mem_folderRows_run (hw : d.db.IsWhole) (op : Operation) {f : Folder}
    (hf : f ∈ (op.run d).2.db.folderRows) :
    f ∈ d.db.folderRows ∨ Name.check f.name = .ok f.name ∧ FolderRef.normalize f.parent = f.parent := by
  cases op with
  | createFolder owner name parent id createdAt =>
    simp only [run, Database.createFolder] at hf
    split at hf
    · exact Or.inl hf
    · next name' hname =>
      rcases insertFolder_cases hw ⟨id, name', FolderRef.normalize parent, owner, createdAt⟩ with
        ⟨e, he⟩ | ⟨hok, -⟩
      · rw [he] at hf
        exact Or.inl hf
      · rw [hok, folderRows_withFolders] at hf
        rcases List.mem_append.mp hf with hf | hf
        · exact Or.inl hf
        · rw [List.mem_singleton.mp hf]
          exact Or.inr ⟨Name.check_of_require hname, FolderRef.normalize_normalize parent⟩
  | createUser username quota createdAt =>
    exact Or.inl ((steps_run d (.createUser username quota createdAt)).folderRows_subset hw hf)
  | setQuota id quota => exact Or.inl ((steps_run d (.setQuota id quota)).folderRows_subset hw hf)
  | deleteFolder owner ref => exact Or.inl ((steps_run d (.deleteFolder owner ref)).folderRows_subset hw hf)
  | rename owner id name => exact Or.inl ((steps_run d (.rename owner id name)).folderRows_subset hw hf)
  | delete owner id => exact Or.inl ((steps_run d (.delete owner id)).folderRows_subset hw hf)
  | _ => exact Or.inl hf

theorem mem_fileRows_run (ho : d.Orderly) (hc : d.Contentful) (op : Operation) {f : File}
    (hf : f ∈ (op.run d).2.db.fileRows) : d.IsRowOrRenamed f := by
  rcases op.run_cases d with hsame | ⟨owner, id, name, rfl⟩ | ⟨owner, id, rfl⟩
  · rw [hsame.fileRows] at hf
    exact Or.inl hf
  · simp only [run] at hf
    exact mem_fileRows_rename ho hf
  · simp only [run] at hf
    cases hfile : d.file owner id with
    | error e =>
      rw [delete_of_error hfile] at hf
      exact Or.inl hf
    | ok g =>
      rw [delete_of_file ho hc hfile] at hf
      simp only [(onlyUsers_adjustSpaceUsed _ _ _).fileRows, fileRows_withFiles] at hf
      exact Or.inl (List.mem_filter.mp hf).1

end Operation

/-! ## Sessions and services -/

/-- What uploads carry into the rows holds of all files of a session, as long as a new name does not matter to it. -/
theorem Session.Reached.carried {P : Upload → Prop} {Q : File → Prop} (hc : Upload.Carries P Q)
    (hrename : ∀ f name, Name.check name = .ok name → Q f → Q { f with name := name }) {s : Session}
    (h : s.Reached) : (∀ f ∈ s.depot.db.fileRows, Q f) ∧ ∀ a ∈ s.uploads, P a.intake.upload := by
  induction h with
  | fresh => exact ⟨fun f hf => (List.not_mem_nil hf).elim, fun a ha => (List.not_mem_nil ha).elim⟩
  | @step s turn h ha ih =>
    obtain ⟨hrows, huploads⟩ := ih
    have hl := h.lawful_numbered.1
    cases turn with
    | operate op =>
      refine ⟨fun f hf => ?_, huploads⟩
      rcases op.mem_fileRows_run h.custody.orderly h.custody.contentful hf with hf | ⟨g, hg, name, hname, rfl⟩
      · exact hrows f hf
      · exact hrename g name hname (hrows g hg)
    | start t boundary limit =>
      obtain ⟨hupload, hdepot⟩ := hc.settle (t := t) hl hc.admission hrows
      refine ⟨hdepot, fun a ha => ?_⟩
      rcases List.mem_append.mp ha with ha | ha
      · exact huploads a ha
      · rw [List.mem_singleton.mp ha]
        exact hupload
    | deliver n x =>
      simp only [Session.step]
      cases hn : s.uploads[n]? with
      | none => exact ⟨hrows, huploads⟩
      | some a =>
        have hfeed := hc.feed (t := a.ticket) hl (huploads a (List.mem_of_getElem? hn)) hrows (x.events a.intake)
        rw [← a.feed_of_take] at hfeed
        refine ⟨hfeed.2, fun b hb => ?_⟩
        rcases List.mem_or_eq_of_mem_set hb with hb | rfl
        · exact huploads b hb
        · exact hfeed.1

/-- The same of a service. -/
theorem Service.Reached.carried {P : Upload → Prop} {Q : File → Prop} (hc : Upload.Carries P Q)
    (hrename : ∀ f name, Name.check name = .ok name → Q f → Q { f with name := name }) {s : Service}
    (h : s.Reached) : ∀ f ∈ s.depot.db.fileRows, Q f := by
  obtain ⟨σ, hσ, hshows⟩ := h.shows
  rw [← hshows.depot]
  exact (hσ.carried hc hrename).1

namespace Sending

/-- The names that the client gave to files in the body so far. -/
def clientNames (a : Sending) : List String := a.heard.filterMap Multipart.Event.fileName?

/-- The names under which files may be kept that the client named so. -/
def names (a : Sending) : List String := a.clientNames.map Name.ofClient

theorem names_take (a : Sending) (x : Delivery) (d : Depot) :
    (a.take x d).1.names =
      a.names ++ ((x.events a.intake).filterMap Multipart.Event.fileName?).map Name.ofClient := by
  simp only [names, clientNames, take, List.filterMap_append, List.map_append]

theorem heard_take (a : Sending) (x : Delivery) (d : Depot) :
    Upload.Heard (a.take x d).1.names (x.events a.intake) := by
  intro e he raw hraw
  rw [names_take]
  exact List.mem_append_right _ (List.mem_map_of_mem (List.mem_filterMap.mpr ⟨e, he, hraw⟩))

end Sending

/-- What an upload hears with a delivery, and what it had heard before, accounts for every name that it writes. -/
theorem Sending.writes_take {a : Sending} {d : Depot} (hl : d.db.Lawful)
    (h : Upload.Knows a.names a.intake.upload) (x : Delivery) :
    Upload.Knows (a.take x d).1.names (a.take x d).1.intake.upload ∧
      Upload.Writes a.ticket (a.take x d).1.names d (a.take x d).2 := by
  have hgrown : a.names ⊆ (a.take x d).1.names := by
    rw [a.names_take]
    exact List.subset_append_left _ _
  have hknows : Upload.Knows (a.take x d).1.names a.intake.upload := fun m hm => hgrown (h m hm)
  have hfeed := Upload.writes_feed (t := a.ticket) hl hknows (a.heard_take x d)
  rw [← a.feed_of_take] at hfeed
  exact hfeed

/-- Where the names in a depot come from. The name of a file that does not pass the rule was heard by the upload
    of the file. -/
structure Named (d : Depot) (uploads : List Sending) : Prop where
  folders : ∀ f ∈ d.db.folderRows, Name.check f.name = .ok f.name
  knows : ∀ a ∈ uploads, Upload.Knows a.names a.intake.upload
  files : ∀ f ∈ d.db.fileRows, Name.check f.name = .ok f.name ∨
    ∃ a ∈ uploads, a.ticket.fileId = f.id ∧ a.ticket.owner = f.ownerId ∧ f.name ∈ a.names

namespace Named

variable {d d' : Depot} {uploads : List Sending} {a : Sending}

theorem operate (h : Named d uploads) (ho : d.Orderly) (hc : d.Contentful) (op : Operation) :
    Named (op.run d).2 uploads := by
  refine ⟨fun f hf => ?_, h.knows, fun f hf => ?_⟩
  · rcases op.mem_folderRows_run ho.whole hf with hf | ⟨hname, -⟩
    · exact h.folders f hf
    · exact hname
  · rcases op.mem_fileRows_run ho hc hf with hf | ⟨g, -, name, hname, rfl⟩
    · exact h.files f hf
    · exact Or.inl hname

theorem start (h : Named d uploads) (hl : d.db.Lawful) (t : Ticket) (boundary : Bytes) (limit : Nat) :
    Named (Sending.start t boundary limit d).2 (uploads ++ [(Sending.start t boundary limit d).1]) := by
  have hsubset := (Upload.steps_settle t d .admission).folderRows_subset hl.whole
  have hnone : Upload.Knows [] .admission := fun n hn => by cases hn
  obtain ⟨hknows, hwrites⟩ := Upload.writes_settle (t := t) hl hnone
  refine ⟨fun f hf => h.folders f (hsubset hf), fun b hb => ?_, fun f hf => ?_⟩
  · rcases List.mem_append.mp hb with hb | hb
    · exact h.knows b hb
    · rw [List.mem_singleton.mp hb]
      exact hknows
  · rcases hwrites f hf with hf | ⟨-, -, hname⟩
    · refine (h.files f hf).imp_right fun ⟨b, hb, hfile⟩ => ⟨b, List.mem_append_left _ hb, hfile⟩
    · cases hname

theorem take (h : Named d uploads) (hl : d.db.Lawful) {n : Nat} (hn : uploads[n]? = some a) (x : Delivery) :
    Named (a.take x d).2 (uploads.set n (a.take x d).1) := by
  have hmem := List.mem_of_getElem? hn
  have hlt := (List.getElem?_eq_some_iff.mp hn).1
  have hgrown : a.names ⊆ (a.take x d).1.names := by
    rw [a.names_take]
    exact List.subset_append_left _ _
  have hfeed := a.writes_take hl (h.knows a hmem) x
  have hsubset := (Upload.steps_feed a.ticket d a.intake.upload (x.events a.intake)).folderRows_subset hl.whole
  rw [← a.feed_of_take] at hsubset
  refine ⟨fun f hf => h.folders f (hsubset hf), fun b hb => ?_, fun f hf => ?_⟩
  · rcases List.mem_or_eq_of_mem_set hb with hb | rfl
    · exact h.knows b hb
    · exact hfeed.1
  · rcases hfeed.2 f hf with hf | ⟨hid, hown, hname⟩
    · refine (h.files f hf).imp_right fun ⟨b, hb, hbid, hbown, hname⟩ => ?_
      by_cases hba : b = a
      · subst hba
        refine ⟨_, List.mem_set hlt _, ?_, ?_, hgrown hname⟩
        · rw [b.ticket_take, hbid]
        · rw [b.ticket_take, hbown]
      · obtain ⟨m, hm⟩ := List.mem_iff_getElem?.mp hb
        have hmn : n ≠ m := by
          rintro rfl
          exact hba (Option.some.inj (hm.symm.trans hn))
        exact ⟨b, List.mem_iff_getElem?.mpr ⟨m, by rw [List.getElem?_set_ne hmn, hm]⟩, hbid, hbown, hname⟩
    · refine Or.inr ⟨_, List.mem_set hlt _, ?_, ?_, hname⟩
      · rw [a.ticket_take, hid]
      · rw [a.ticket_take, hown]

end Named

theorem Session.Reached.named {s : Session} (h : s.Reached) : Named s.depot s.uploads := by
  induction h with
  | fresh => exact ⟨fun f hf => (List.not_mem_nil hf).elim, fun a ha => (List.not_mem_nil ha).elim,
      fun f hf => (List.not_mem_nil hf).elim⟩
  | @step s turn h ha ih =>
    have hc := h.custody
    have hl := h.lawful_numbered.1
    cases turn with
    | operate op => exact ih.operate hc.orderly hc.contentful op
    | start t boundary limit => exact ih.start hl t boundary limit
    | deliver n x =>
      simp only [Session.step]
      cases hn : s.uploads[n]? with
      | none => exact ih
      | some a => exact ih.take hl hn x

namespace Service

variable {s : Service}

theorem Reached.named (h : s.Reached) : Named s.depot s.sendings := by
  obtain ⟨σ, hσ, hshows⟩ := h.shows
  have hnamed := hσ.named
  rw [hshows.depot] at hnamed
  refine ⟨hnamed.folders, fun a ha => hnamed.knows a (hshows.uploads.mem_iff.mpr ha), fun f hf => ?_⟩
  exact (hnamed.files f hf).imp_right fun ⟨a, ha, hfile⟩ => ⟨a, hshows.uploads.mem_iff.mp ha, hfile⟩

/-- Whatever happens to a service, the names in the depot obey the rule for names, but that the name of a file
    may be too long. Folders have names that pass the rule as they are. The names of files are plain, so that they
    pass it as they are if they are not too long, and only then can a file be given the name that it has; a name
    that is too long is what is kept of the name that the client gave to the file when it uploaded it. Hence all
    names pass the rule as long as no client gives a file a name of which too much is kept. -/
theorem names_are_plain (h : s.Reached) :
    (∀ f ∈ s.depot.db.folderRows, Name.check f.name = .ok f.name) ∧
      (∀ f ∈ s.depot.db.fileRows,
        Name.IsPlain f.name ∧ (Name.check f.name = .ok f.name ↔ f.name.length ≤ Name.maxLength) ∧
          (Name.maxLength < f.name.length → ∃ a ∈ s.sendings, a.ticket.fileId = f.id ∧
            a.ticket.owner = f.ownerId ∧ ∃ raw ∈ a.clientNames, f.name = Name.ofClient raw) ∧
          (f.state = .complete → s.depot.rename f.ownerId f.id f.name =
            (if f.name.length ≤ Name.maxLength then .ok f else .error (.validation NameFault.tooLong.message),
              s.depot))) ∧
      ((∀ a ∈ s.sendings, ∀ raw ∈ a.clientNames, (Name.ofClient raw).length ≤ Name.maxLength) →
        ∀ f ∈ s.depot.db.fileRows, Name.check f.name = .ok f.name) := by
  have hnamed := h.named
  have ho := h.proper.orderly
  have hplain : ∀ f ∈ s.depot.db.fileRows, Name.IsPlain f.name := by
    intro f hf
    rcases hnamed.files f hf with hcheck | ⟨a, -, -, -, hname⟩
    · exact (Name.check_eq_self_iff.mp hcheck).1
    · obtain ⟨raw, -, heq⟩ := List.mem_map.mp hname
      rw [← heq]
      exact Name.isPlain_ofClient raw
  have hcheck : ∀ f ∈ s.depot.db.fileRows, (Name.check f.name = .ok f.name ↔ f.name.length ≤ Name.maxLength) := by
    intro f hf
    rw [Name.check_eq_self_iff]
    exact and_iff_right (hplain f hf)
  refine ⟨hnamed.folders, fun f hf => ⟨hplain f hf, hcheck f hf, fun hlong => ?_, fun hs => ?_⟩,
    fun hshort f hf => ?_⟩
  · rcases hnamed.files f hf with hok | ⟨a, ha, hid, hown, hname⟩
    · exact absurd ((hcheck f hf).mp hok) (Nat.not_le_of_lt hlong)
    · obtain ⟨raw, hraw, heq⟩ := List.mem_map.mp hname
      exact ⟨a, ha, hid, hown, raw, hraw, heq.symm⟩
  · exact rename_self ho hf hs (hplain f hf)
  · rcases hnamed.files f hf with hok | ⟨a, ha, -, -, hname⟩
    · exact hok
    · obtain ⟨raw, hraw, heq⟩ := List.mem_map.mp hname
      rw [hcheck f hf, ← heq]
      exact hshort a ha raw hraw

/-- A user has begun to upload a file. -/
def begun : Service :=
  fresh.run [.turn (.operate (.createUser "alice" 0 "2026")),
    .turn (.start ⟨1, "f", "2026", 100⟩ (Bytes.ofAscii "b") 1000)]

/-- The body of an upload of the two bytes `hi` as a file of the given name. -/
def bodyNamed (name : Bytes) : Delivery :=
  .chunk (Bytes.ofAscii "--b\r\nContent-Disposition: form-data; name=\"file\"; filename=\"" ++ name ++
    Bytes.ofAscii "\"\r\n\r\nhi\r\n--b--") true

/-- The body has come. -/
def named (name : Bytes) : Service := begun.step (.turn (.deliver 0 (bodyNamed name)))

theorem reached_begun : begun.Reached := by
  refine Reached.fresh.run ⟨trivial, ⟨⟨by decide, by decide, by decide, by decide⟩, fun a ha => ?_⟩, trivial⟩
  exact (List.not_mem_nil ha).elim

theorem reached_named (name : Bytes) : (named name).Reached := reached_begun.step trivial

theorem names_are_plain_of_note :
    (named (Bytes.ofAscii " a/note ")).Reached ∧
      (named (Bytes.ofAscii " a/note ")).depot.db.fileRows =
        [⟨"f", "note", "", "text/plain; charset=utf-8", 2, .complete, "", 1, "2026"⟩] ∧
      (named (Bytes.ofAscii " a/note ")).depot.rename 1 "f" "note" =
        (.ok ⟨"f", "note", "", "text/plain; charset=utf-8", 2, .complete, "", 1, "2026"⟩,
          (named (Bytes.ofAscii " a/note ")).depot) := by
  have hreached := reached_named (Bytes.ofAscii " a/note ")
  have hrows : (named (Bytes.ofAscii " a/note ")).depot.db.fileRows =
      [⟨"f", "note", "", "text/plain; charset=utf-8", 2, .complete, "", 1, "2026"⟩] := by decide +kernel
  obtain ⟨-, hfiles, -⟩ := names_are_plain hreached
  obtain ⟨-, -, -, hrename⟩ := hfiles _ (hrows ▸ List.mem_singleton_self _)
  exact ⟨hreached, hrows, hrename rfl⟩

/-- The file is kept under the name that was heard. -/
theorem name_of_named {name : Bytes} {raw : String}
    (hheard : (named name).sendings.map Sending.clientNames = [[raw]]) :
    ∀ f ∈ (named name).depot.db.fileRows, f.name = Name.ofClient raw := by
  obtain ⟨a, ha⟩ : ∃ a, begun.session.uploads = [a] := ⟨_, rfl⟩
  have hrequests : begun.requests = [] := rfl
  have hempty : begun.depot.db.fileRows = [] := by decide +kernel
  have hsendings : begun.sendings = [a] := by rw [sendings, ha, hrequests]; rfl
  have hafter : (named name).depot = (a.take (bodyNamed name) begun.depot).2 ∧
      (named name).sendings = [(a.take (bodyNamed name) begun.depot).1] := by
    simp only [named, step, depot, sendings, Session.step, ha, hrequests]
    exact ⟨rfl, rfl⟩
  have hlawful := reached_begun.proper.lawful
  have hknows := reached_begun.named.knows a (hsendings ▸ List.mem_singleton_self a)
  have hwrites := (a.writes_take hlawful hknows (bodyNamed name)).2
  have hnames : (a.take (bodyNamed name) begun.depot).1.names = [Name.ofClient raw] := by
    rw [hafter.2] at hheard
    rw [Sending.names, (List.cons.inj hheard).1]
    rfl
  intro f hf
  rw [hafter.1] at hf
  rcases hwrites f hf with hf | ⟨-, -, hname⟩
  · rw [hempty] at hf
    cases hf
  · rw [hnames] at hname
    exact List.mem_singleton.mp hname

/-- A name of as many characters as one likes. -/
def repeated (n : Nat) : String := String.ofList (List.replicate n 'a')

theorem length_repeated (n : Nat) : (repeated n).length = n := by
  rw [repeated, String.length_ofList, List.length_replicate]

theorem isPlain_repeated {n : Nat} (hn : n ≠ 0) : Name.IsPlain (repeated n) := by
  have hblank : Text.isBlank 'a' = false := by decide
  refine ⟨?_, ?_, ?_⟩
  · intro he
    have hlength := length_repeated n
    rw [he] at hlength
    exact hn hlength.symm
  · rw [Text.trim, repeated, String.toList_ofList, Text.trimChars]
    simp only [List.dropWhile_replicate, hblank, Bool.false_eq_true, if_false, List.reverse_replicate]
  · rw [repeated, String.toList_ofList]
    intro c hc
    rw [List.eq_of_mem_replicate hc]
    decide

/-- The bytes that a client sends for such a name. -/
theorem text?_replicate (n : Nat) : Bytes.text? (List.replicate n 97) = some (repeated n) := by
  have hchar : String.utf8EncodeChar 'a' = [97] := by decide
  have hbytes : Bytes.ofText (repeated n) = List.replicate n 97 := by
    rw [repeated, Bytes.ofText_ofList, List.flatMap_replicate, hchar, List.flatten_replicate_singleton]
  rw [← hbytes, Bytes.text?_ofText]

/-- A client can give a file a name that does not pass the rule, and under which it cannot be renamed to itself. -/
theorem long_names_are_kept :
    (named (List.replicate 256 97)).Reached ∧
      ∃ f ∈ (named (List.replicate 256 97)).depot.db.fileRows,
        f.state = .complete ∧ f.name = repeated 256 ∧ Name.check f.name = .error .tooLong ∧
          ((named (List.replicate 256 97)).depot.rename 1 "f" f.name).1 =
            .error (.validation "name must be at most 255 characters") := by
  have hstates : (named (List.replicate 256 97)).depot.db.fileRows.map File.state = [.complete] := by
    decide +kernel
  have hheard : (named (List.replicate 256 97)).sendings.map Sending.clientNames =
      [[(Bytes.text? (List.replicate 256 97)).getD ""]] := by decide +kernel
  rw [text?_replicate] at hheard
  obtain ⟨f, hf⟩ : ∃ f, (named (List.replicate 256 97)).depot.db.fileRows = [f] := by
    obtain ⟨f, rest, hrows, -, hrest⟩ := List.map_eq_cons_iff.mp hstates
    exact ⟨f, by rw [hrows, List.map_eq_nil_iff.mp hrest]⟩
  have hmem : f ∈ (named (List.replicate 256 97)).depot.db.fileRows := hf ▸ List.mem_singleton_self f
  have hs : f.state = .complete := by
    rw [hf] at hstates
    exact (List.cons.inj hstates).1
  have hname : f.name = repeated 256 := by
    rw [name_of_named hheard f hmem]
    have hne : ∀ other : String, other.length < 256 → repeated 256 ≠ other := by
      intro other hlt heq
      rw [← heq, length_repeated] at hlt
      omega
    exact Name.ofClient_of_isPlain (isPlain_repeated (by decide)) (hne "." (by decide)) (hne ".." (by decide))
  have hcheck : Name.check (repeated 256) = .error .tooLong :=
    (isPlain_repeated (by decide)).check_of_long (by rw [length_repeated]; decide)
  refine ⟨reached_named _, f, hmem, hs, hname, hname ▸ hcheck, ?_⟩
  rw [hname, rename, Name.require, hcheck]
  rfl

end Service

end FileDepot
