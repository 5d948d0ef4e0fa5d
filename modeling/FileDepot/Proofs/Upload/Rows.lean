import FileDepot.Proofs.Session.Parts
import FileDepot.Proofs.Text.Names

/-!
# The rows that uploads write

An upload writes no row but its own, and what it writes there is what it has kept of its file: the name of the
part and the type that was told from the beginning of the content.
-/

namespace FileDepot

open Database Depot

/-- Whether a type is the one that is told from some content. -/
def Sniff.IsDetected (mimeType : String) : Prop := ∃ content, mimeType = detect content

/-- The name and the type of a file. -/
def Staged.label (staged : Staged) : String × Option String := (staged.name, some staged.mimeType)

/-- The label of the file whose part is over. -/
def Scan.labels (scan : Scan) : List (String × Option String) := (scan.staged.map Staged.label).toList

namespace Upload

variable {t : Ticket} {d : Depot} {u : Upload} {e : Multipart.Event} {f : File} {label : String × Option String}

/-- The names and types that an upload may still write. Before the beginning of the content has come there is a name
    without a type. -/
def labels : Upload → List (String × Option String)
  | betweenParts scan => scan.labels
  | inParent scan _ => scan.labels
  | inOther scan => scan.labels
  | inHead scan name _ => (name, none) :: scan.labels
  | inBody scan staged => staged.label :: scan.labels
  | insertStub scan name head _ => (name, some (Sniff.detect head)) :: scan.labels
  | makeDirectory scan staged _ _ => staged.label :: scan.labels
  | createBlob scan staged _ _ => staged.label :: scan.labels
  | write scan staged _ _ => staged.label :: scan.labels
  | finish _ staged => [staged.label]
  | _ => []

/-- The parent that an upload may still write. -/
def parent? : Upload → Option String
  | betweenParts scan | inParent scan _ | inOther scan | inHead scan _ _ | inBody scan _ => some scan.parent
  | insertStub scan _ _ _ | makeDirectory scan _ _ _ | createBlob scan _ _ _ | write scan _ _ _ => some scan.parent
  | finish parent _ => some parent
  | _ => none

/-- Rows that were not there before an access are the row of the upload, with a name and a type that go together and
    with the parent that the upload has. -/
theorem rows_advance (hw : d.db.IsWhole) (u : Upload) (hf : f ∈ (advance t d u).2.db.fileRows) :
    f ∈ d.db.fileRows ∨
      f.id = t.fileId ∧ f.ownerId = t.owner ∧ (f.name, some f.mimeType) ∈ u.labels ∧ u.parent? = some f.parent := by
  cases u with
  | insertStub scan name head ended =>
    simp only [advance] at hf
    rcases insertFile_cases hw (stub t scan.parent ⟨name, Name.extension name, Sniff.detect head, 0⟩)
      with ⟨cause, he⟩ | ⟨hok, -⟩
    · rw [he] at hf
      exact Or.inl hf
    · rw [hok] at hf
      rcases List.mem_append.mp hf with hf | hf
      · exact Or.inl hf
      · rw [List.mem_singleton.mp hf]
        exact Or.inr ⟨rfl, rfl, List.mem_cons_self, rfl⟩
  | finish parent staged =>
    simp only [advance] at hf
    rcases updateFile_cases hw t.fileId t.owner (u := finalFields parent staged) rfl
      with ⟨g, -, -, hok⟩ | ⟨hdb, -⟩
    · rw [hok] at hf
      obtain ⟨g, hg, ⟨hid, hown, rfl⟩ | ⟨-, rfl⟩⟩ := mem_updatedRows.mp hf
      · exact Or.inr ⟨hid, hown, List.mem_cons_self, rfl⟩
      · exact Or.inl hg
    · left
      rw [← hdb]
      split at hf <;> simp_all
  | account g =>
    have hu := (onlyUsers_adjustSpaceUsed d.db t.owner g.size).fileRows
    simp only [advance] at hf
    split at hf
    · next cause db hdb =>
      rw [hdb] at hu
      exact Or.inl (hu ▸ hf)
    · next n db hdb =>
      rw [hdb] at hu
      exact Or.inl (hu ▸ hf)
  | removeStub next =>
    have hrows : (advance t d (removeStub next)).2.db = (d.db.deleteFile t.fileId t.owner).2 := by
      cases next <;> rfl
    rw [hrows, deleteFile_eq hw] at hf
    exact Or.inl (List.mem_filter.mp hf).1
  | admission =>
    simp only [advance] at hf
    split at hf <;> exact Or.inl hf
  | makeDirectory scan staged head ended =>
    simp only [advance] at hf
    split at hf <;> exact Or.inl hf
  | createBlob scan staged head ended =>
    simp only [advance] at hf
    split at hf <;> exact Or.inl hf
  | write scan staged bytes ended =>
    simp only [advance] at hf
    split at hf <;> exact Or.inl hf
  | removeBlob next =>
    simp only [advance] at hf
    split at hf <;> exact Or.inl hf
  | explainMiss parent =>
    simp only [advance] at hf
    split at hf
    · exact Or.inl hf
    · split at hf <;> exact Or.inl hf
  | _ => exact Or.inl hf

/-! ## Where names and types come from -/

/-- Where a label comes from when an upload takes an event of its body: it was there, or it is the name that the
    client gives, or a type is told from a content and goes to a name that had none. -/
inductive LabelSource (u : Upload) (e : Multipart.Event) : String × Option String → Prop
  | kept {label : String × Option String} (h : label ∈ u.labels) : LabelSource u e label
  | heard (filename : Option String) (h : e = .part (some "file") filename) :
    LabelSource u e (Name.ofClient (filename.getD ""), none)
  | told {name mimeType : String} (h : (name, none) ∈ u.labels) (hd : Sniff.IsDetected mimeType) :
    LabelSource u e (name, some mimeType)

theorem labels_abort (scan : Scan) (cause : UploadError) : (abort scan cause).labels = [] := by
  unfold abort
  split <;> rfl

theorem notMem_labels_abort {scan : Scan} {cause : UploadError} : label ∉ (abort scan cause).labels := by
  rw [labels_abort]
  exact List.not_mem_nil

theorem source_of_headComplete {scan : Scan} {name : String} {before head : Bytes} {ended : Bool}
    (h : label ∈ (headComplete scan name head ended).labels) : LabelSource (inHead scan name before) e label := by
  unfold headComplete at h
  split at h
  · exact absurd h notMem_labels_abort
  · rcases List.mem_cons.mp h with rfl | h
    · exact .told List.mem_cons_self ⟨head, rfl⟩
    · exact .kept (List.mem_cons_of_mem _ h)

theorem labels_receive (h : label ∈ (u.receive e).labels) : LabelSource u e label := by
  cases u with
  | betweenParts scan =>
    cases e with
    | part name filename =>
      by_cases hname : name = some "file"
      · subst hname
        simp only [receive] at h
        split at h
        · exact absurd h notMem_labels_abort
        · rcases List.mem_cons.mp h with rfl | h
          · exact .heard filename rfl
          · exact .kept h
      · refine .kept ?_
        unfold receive at h
        split at h <;> simp_all [labels]
    | bodyEnd =>
      simp only [receive] at h
      split at h
      · cases h
      · next staged hscan =>
        refine .kept ?_
        simpa [labels, Scan.labels, hscan] using h
    | broken cause => exact absurd h notMem_labels_abort
    | data more => exact .kept h
    | partEnd => exact .kept h
  | inParent scan text =>
    cases e with
    | data more =>
      simp only [receive] at h
      split at h
      · exact absurd h notMem_labels_abort
      · exact .kept h
    | partEnd =>
      simp only [receive] at h
      split at h
      · exact absurd h notMem_labels_abort
      · exact .kept h
    | broken cause => exact absurd h notMem_labels_abort
    | part name filename => exact .kept h
    | bodyEnd => exact .kept h
  | inOther scan =>
    cases e with
    | broken cause => exact absurd h notMem_labels_abort
    | _ => exact .kept h
  | inHead scan name head =>
    cases e with
    | data more =>
      simp only [receive] at h
      split at h
      · exact .kept h
      · exact source_of_headComplete h
    | partEnd => exact source_of_headComplete h
    | broken cause => exact absurd h notMem_labels_abort
    | part name filename => exact .kept h
    | bodyEnd => exact .kept h
  | inBody scan staged =>
    cases e with
    | data more =>
      simp only [receive] at h
      split at h
      · cases h
      · exact .kept h
    | partEnd => exact .kept (List.mem_cons.mpr (Or.inl (List.mem_singleton.mp h)))
    | broken cause => cases h
    | part name filename => exact .kept h
    | bodyEnd => exact .kept h
  | _ => exact .kept h

/-- An access to the depot brings no labels. -/
theorem labels_advance (t : Ticket) (d : Depot) (u : Upload) : (advance t d u).1.labels ⊆ u.labels := by
  cases u with
  | write scan staged bytes ended =>
    simp only [advance]
    split
    · exact List.cons_subset_cons staged.label (List.nil_subset _)
    · exact List.Subset.refl _
  | removeStub next => cases next <;> exact List.nil_subset _
  | insertStub scan name head ended =>
    simp only [advance]
    split
    · exact List.nil_subset _
    · exact List.Subset.refl _
  | makeDirectory scan staged head ended =>
    simp only [advance]
    split
    · exact List.nil_subset _
    · exact List.Subset.refl _
  | createBlob scan staged head ended =>
    simp only [advance]
    split
    · exact List.nil_subset _
    · exact List.Subset.refl _
  | explainMiss parent =>
    simp only [advance]
    split
    · exact List.nil_subset _
    · split <;> exact List.nil_subset _
  | admission =>
    simp only [advance]
    split <;> exact List.nil_subset _
  | finish parent staged =>
    simp only [advance]
    split <;> exact List.nil_subset _
  | account g =>
    simp only [advance]
    split <;> exact List.nil_subset _
  | removeBlob next =>
    simp only [advance]
    split <;> exact List.nil_subset _
  | _ => exact List.Subset.refl _

/-! ## What uploads carry into the rows -/

/-- What holds of an upload at every stage, whatever its body is, and then of every row that it writes. -/
structure Carries (P : Upload → Prop) (Q : File → Prop) : Prop where
  admission : P .admission
  receive : ∀ {u : Upload} (e : Multipart.Event), P u → P (u.receive e)
  advance : ∀ {u : Upload} (t : Ticket) (d : Depot), P u → P (advance t d u).1
  row : ∀ {u : Upload} {f : File}, P u → (f.name, some f.mimeType) ∈ u.labels → u.parent? = some f.parent → Q f

namespace Carries

variable {P : Upload → Prop} {Q : File → Prop}

theorem settle (hc : Carries P Q) (hl : d.db.Lawful) (hp : P u) (hq : ∀ f ∈ d.db.fileRows, Q f) :
    P (settle t d u).1 ∧ ∀ f ∈ (settle t d u).2.db.fileRows, Q f := by
  have hkept := settle_keeps (t := t)
    (P := fun u e => e.db.Lawful ∧ P u ∧ ∀ f ∈ e.db.fileRows, Q f)
    (fun u e _ hp => ⟨(steps_advance t e u).lawful_of_owner hp.1, hc.advance t e hp.2.1, fun f hf => ?_⟩)
    d u ⟨hl, hp, hq⟩
  · exact hkept.2
  · rcases rows_advance hp.1.whole u hf with hf | ⟨-, -, hlabel, hparent⟩
    · exact hp.2.2 f hf
    · exact hc.row hp.2.1 hlabel hparent

theorem feed (hc : Carries P Q) (hl : d.db.Lawful) (hp : P u) (hq : ∀ f ∈ d.db.fileRows, Q f)
    (events : List Multipart.Event) :
    P (feed t d u events).1 ∧ ∀ f ∈ (feed t d u events).2.db.fileRows, Q f := by
  induction events generalizing d u with
  | nil => exact ⟨hp, hq⟩
  | cons e rest ih =>
    obtain ⟨hsettled, hrows⟩ := hc.settle (t := t) hl (hc.receive e hp) hq
    exact ih ((steps_settle t d (u.receive e)).lawful_of_owner hl) hsettled hrows

end Carries

/-! ### Types -/

/-- The types that an upload may still write were told from contents. -/
def IsSniffed (u : Upload) : Prop :=
  ∀ label ∈ u.labels, ∀ mimeType, label.2 = some mimeType → Sniff.IsDetected mimeType

theorem isSniffed_receive (h : u.IsSniffed) (e : Multipart.Event) : (u.receive e).IsSniffed := by
  intro label hlabel mimeType htype
  cases labels_receive hlabel with
  | kept hkept => exact h label hkept mimeType htype
  | heard filename he => cases htype
  | told hname hd => exact Option.some.inj htype ▸ hd

theorem carries_isSniffed : Carries IsSniffed fun f => Sniff.IsDetected f.mimeType where
  admission _ hlabel := (List.not_mem_nil hlabel).elim
  receive e h := isSniffed_receive h e
  advance t d h label hlabel := h label (labels_advance t d _ hlabel)
  row {_ f} h hlabel _ := h _ hlabel f.mimeType rfl

/-! ### Parents -/

/-- The parent that an upload may still write is in its stored form. -/
def HasNormalParent (u : Upload) : Prop := ∀ parent, u.parent? = some parent → FolderRef.normalize parent = parent

theorem hasNormalParent_abort (scan : Scan) (cause : UploadError) : (abort scan cause).HasNormalParent := by
  unfold abort
  split <;> exact fun _ h => by cases h

theorem hasNormalParent_headComplete {scan : Scan} (h : FolderRef.normalize scan.parent = scan.parent)
    (name : String) (head : Bytes) (ended : Bool) : (headComplete scan name head ended).HasNormalParent := by
  unfold headComplete
  split
  · exact hasNormalParent_abort scan _
  · exact fun _ hp => Option.some.inj hp ▸ h

/-- What the body names as parent is brought into its stored form. -/
theorem hasNormalParent_receive (h : u.HasNormalParent) (e : Multipart.Event) :
    (u.receive e).HasNormalParent := by
  cases u with
  | betweenParts scan =>
    cases e with
    | part name filename =>
      by_cases hname : name = some "file"
      · subst hname
        simp only [receive]
        split
        · exact hasNormalParent_abort scan _
        · exact h
      · have hkept : (receive (betweenParts scan) (.part name filename)).parent? = some scan.parent := by
          unfold receive
          split <;> simp_all [parent?]
        exact fun parent hp => h parent (hkept.symm.trans hp)
    | bodyEnd =>
      simp only [receive]
      split
      · exact fun _ hp => by cases hp
      · exact h
    | broken cause => exact hasNormalParent_abort scan cause
    | data more => exact h
    | partEnd => exact h
  | inParent scan text =>
    cases e with
    | data more =>
      simp only [receive]
      split
      · exact hasNormalParent_abort scan _
      · exact h
    | partEnd =>
      simp only [receive]
      split
      · exact hasNormalParent_abort scan _
      · exact fun _ hp => Option.some.inj hp ▸ FolderRef.normalize_normalize _
    | broken cause => exact hasNormalParent_abort scan cause
    | part name filename => exact h
    | bodyEnd => exact h
  | inOther scan =>
    cases e with
    | broken cause => exact hasNormalParent_abort scan cause
    | _ => exact h
  | inHead scan name head =>
    cases e with
    | data more =>
      simp only [receive]
      split
      · exact h
      · exact hasNormalParent_headComplete (h _ rfl) name _ false
    | partEnd => exact hasNormalParent_headComplete (h _ rfl) name _ true
    | broken cause => exact hasNormalParent_abort scan cause
    | part name filename => exact h
    | bodyEnd => exact h
  | inBody scan staged =>
    cases e with
    | data more =>
      simp only [receive]
      split
      · exact fun _ hp => by cases hp
      · exact h
    | broken cause => exact fun _ hp => by cases hp
    | _ => exact h
  | _ => exact h

/-- An access to the depot brings no parent but the top level, at which every upload begins. -/
theorem parent?_advance (t : Ticket) (d : Depot) {parent : String} (h : (advance t d u).1.parent? = some parent) :
    u.parent? = some parent ∨ parent = "" := by
  cases u with
  | write scan staged bytes ended =>
    cases ended <;> exact Or.inl h
  | removeStub next => cases next <;> cases h
  | explainMiss parent =>
    simp only [advance] at h
    split at h
    · cases h
    · split at h <;> cases h
  | admission =>
    simp only [advance] at h
    split at h
    · cases h
    · exact Or.inr (Option.some.inj h).symm
  | insertStub scan name head ended =>
    simp only [advance] at h
    split at h
    · cases h
    · exact Or.inl h
  | makeDirectory scan staged head ended =>
    simp only [advance] at h
    split at h
    · cases h
    · exact Or.inl h
  | createBlob scan staged head ended =>
    simp only [advance] at h
    split at h
    · cases h
    · exact Or.inl h
  | finish parent staged =>
    simp only [advance] at h
    split at h <;> cases h
  | account g =>
    simp only [advance] at h
    split at h <;> cases h
  | removeBlob next =>
    simp only [advance] at h
    split at h <;> cases h
  | _ => exact Or.inl h

theorem carries_hasNormalParent :
    Carries HasNormalParent fun f => FolderRef.normalize f.parent = f.parent where
  admission _ hp := by cases hp
  receive e h := hasNormalParent_receive h e
  advance t d h parent hp := by
    rcases parent?_advance t d hp with hp | rfl
    · exact h parent hp
    · decide
  row h _ hparent := h _ hparent

end Upload

/-- The types of all files were told from contents. -/
def Depot.IsSniffed (d : Depot) : Prop := ∀ f ∈ d.db.fileRows, Sniff.IsDetected f.mimeType

end FileDepot
