import FileDepot.Proofs.Store.Updates
import FileDepot.Proofs.Upload.Parents
import FileDepot.Proofs.Web.Origins

/-!
# The rules of requests and of the depot

Names and references to folders are looked at twice: with the request, before anything is done, and where they are
used. Of names the request lets only such pass as the depot takes, so a name is never refused after the request was
let pass. Of references the two measure different lengths.
-/

namespace FileDepot

/-! ## Names -/

namespace NameRule

variable {name : String}

theorem mem_all (rule : NameRule) : rule ∈ all := by cases rule <;> decide

/-- What a name in a request has to be like. -/
theorem breaches_eq_nil_iff :
    breaches name = [] ↔ (1 ≤ name.length ∧ name.length ≤ Name.maxLength) ∧ Text.trim name ≠ "" ∧
      (∀ c ∈ name.toList, Text.isControl c = false) ∧ ∀ c ∈ name.toList, Text.isSeparator c = false := by
  have hkept : breaches name = [] ↔ ∀ rule, isKept rule name = true := by
    simp [breaches, mem_all]
  rw [hkept]
  constructor
  · intro h
    have hlength := h .length
    have hblank := h .notBlank
    have hcontrols := h .noControls
    have hseparators := h .noSeparators
    simp only [isKept, Bool.and_eq_true, decide_eq_true_eq, Bool.not_eq_true', String.isEmpty_eq_false_iff,
      List.any_eq_false, Bool.not_eq_true] at hlength hblank hcontrols hseparators
    exact ⟨hlength, hblank, hcontrols, hseparators⟩
  · rintro ⟨hlength, hblank, hcontrols, hseparators⟩ rule
    cases rule with
    | length => simpa [isKept] using hlength
    | notBlank => simpa [isKept] using hblank
    | noControls => simpa [isKept] using hcontrols
    | noSeparators => simpa [isKept] using hseparators

end NameRule

theorem Text.not_isBlank_of_isSeparator {c : Char} (h : isSeparator c = true) : isBlank c = false := by
  simp only [isSeparator, Bool.or_eq_true, beq_iff_eq] at h
  rcases h with rfl | rfl <;> decide

namespace Name

variable {name : String}

/-- A request takes the names that the depot takes, as long as there is no control character and the white space
    around them is not too long either. -/
theorem breaches_eq_nil_iff :
    NameRule.breaches name = [] ↔ check name = .ok (Text.trim name) ∧ name.length ≤ maxLength ∧
      ∀ c ∈ name.toList, Text.isControl c = false := by
  rw [NameRule.breaches_eq_nil_iff, check_eq_ok_iff]
  constructor
  · rintro ⟨⟨-, hlen⟩, hblank, hcontrols, hseparators⟩
    refine ⟨⟨rfl, ⟨hblank, Text.trim_trim name, ?_⟩, Nat.le_trans (Text.length_trim_le name) hlen⟩, hlen, hcontrols⟩
    exact fun c hc => hseparators c (Text.mem_of_mem_trim hc)
  · rintro ⟨⟨-, hplain, -⟩, hlen, hcontrols⟩
    refine ⟨⟨?_, hlen⟩, hplain.ne_empty, hcontrols, ?_⟩
    · by_contra hnone
      have hempty : name = "" := String.length_eq_zero_iff.mp (by omega)
      exact hplain.ne_empty (by rw [hempty]; decide)
    · intro c hc
      by_contra hsep
      -- a separator is no white space, so the depot would have seen it too
      have htrim := Text.mem_trim_of_not_blank hc (Text.not_isBlank_of_isSeparator (by simpa using hsep))
      exact hsep (hplain.noSeparator c htrim)

end Name

namespace Refusal

theorem ofBreaches?_eq_none_iff {fields : List (String × List String)} :
    ofBreaches? fields = none ↔ ∀ field ∈ fields, field.2 = [] := by
  unfold ofBreaches?
  split
  · next h => simpa using h
  · next h => simpa using h

theorem kind_of_ofBreaches? {fields : List (String × List String)} {r : Refusal}
    (h : ofBreaches? fields = some r) : r.kind = .invalidFields := by
  unfold ofBreaches? at h
  split at h
  · cases h
  · obtain rfl := Option.some.inj h
    rfl

/-- Only what the depot finds wrong with a value is answered as a request that cannot be processed. -/
theorem kind_ofError_eq_unprocessable_iff {e : Error} :
    (ofError e).kind = .unprocessable ↔ ∃ detail, e = .validation detail := by
  cases e with
  | upload cause => cases cause <;> simp [ofError, ofUpload, of]
  | blob cause => cases cause <;> simp [ofError, internal, of]
  | _ => simp [ofError, internal, of]

end Refusal

theorem FolderRequest.refusal?_eq_none_iff {r : FolderRequest} :
    r.refusal? = none ↔ NameRule.breaches r.name = [] ∧ r.parent.length ≤ maxParentLength := by
  simp [refusal?, Refusal.ofBreaches?_eq_none_iff]

theorem RenameRequest.refusal?_eq_none_iff {r : RenameRequest} :
    r.refusal? = none ↔ NameRule.breaches r.name = [] := by
  simp [refusal?, Refusal.ofBreaches?_eq_none_iff]

/-- A name that requests may have: the depot takes it trimmed, and what is stored is a name that may be sent and
    taken again. -/
structure Name.IsAccepted (name : String) : Prop where
  checked : Name.check name = .ok (Text.trim name)
  plain : Name.IsPlain (Text.trim name)
  short : (Text.trim name).length ≤ Name.maxLength
  noControl : ∀ c ∈ (Text.trim name).toList, Text.isControl c = false
  checkedAgain : Name.check (Text.trim name) = .ok (Text.trim name)
  folderAgain : ∀ parent, parent.length ≤ FolderRequest.maxParentLength →
    (FolderRequest.mk (Text.trim name) parent).refusal? = none
  renameAgain : (RenameRequest.mk (Text.trim name)).refusal? = none

theorem Name.isAccepted_of_breaches {name : String} (h : NameRule.breaches name = []) : Name.IsAccepted name := by
  obtain ⟨hcheck, hlen, hcontrols⟩ := Name.breaches_eq_nil_iff.mp h
  obtain ⟨-, hplain, hshort⟩ := Name.check_eq_ok_iff.mp hcheck
  have hclean : ∀ c ∈ (Text.trim name).toList, Text.isControl c = false :=
    fun c hc => hcontrols c (Text.mem_of_mem_trim hc)
  have hagain : Name.check (Text.trim name) = .ok (Text.trim name) := Name.check_of_check hcheck
  have hbreaches : NameRule.breaches (Text.trim name) = [] := by
    rw [Name.breaches_eq_nil_iff, Text.trim_trim]
    exact ⟨hagain, hshort, hclean⟩
  exact ⟨hcheck, hplain, hshort, hclean, hagain,
    fun parent hp => FolderRequest.refusal?_eq_none_iff.mpr ⟨hbreaches, hp⟩,
    RenameRequest.refusal?_eq_none_iff.mpr hbreaches⟩

/-! ### What is stored -/

/-- A folder that is created has the name that the rule makes of the given one. -/
theorem Database.name_of_createFolder {db : Database} {owner : Int} {name stored parent id createdAt : String}
    {f : Folder} (hname : Name.check name = .ok stored)
    (h : (db.createFolder owner name parent id createdAt).1 = .ok f) :
    f.name = stored ∧ f ∈ (db.createFolder owner name parent id createdAt).2.folderRows := by
  have hrequire : Name.require name = .ok stored := by rw [Name.require, hname]
  simp only [createFolder, hrequire, insertFolder] at h ⊢
  split at h
  · cases h
  · cases h
  · next rows users hrows husers =>
    split at h
    · cases h
    · next hparent =>
      split at h
      · cases h
      · next hnew =>
        split at h
        · cases h
        · next huser =>
          obtain rfl := Except.ok.inj h
          rw [if_neg hparent, if_neg hnew, if_neg huser]
          exact ⟨rfl, List.mem_append_right _ (List.mem_singleton_self _)⟩

/-- A file that is renamed has the name that the rule makes of the given one. -/
theorem Depot.name_of_rename {d : Depot} {owner : Int} {id name stored : String} {f : File}
    (hname : Name.check name = .ok stored) (h : (d.rename owner id name).1 = .ok f) :
    f.name = stored ∧ f ∈ (d.rename owner id name).2.db.fileRows := by
  have hrequire : Name.require name = .ok stored := by rw [Name.require, hname]
  simp only [rename, hrequire] at h ⊢
  cases hfile : d.file owner id with
  | error cause =>
    rw [hfile] at h
    cases h
  | ok g =>
    simp only [hfile] at h ⊢
    cases hup : d.db.updateFile id owner { FileUpdate.none with name := some stored } with
    | mk result db =>
      rw [hup] at h
      cases result with
      | error cause => cases h
      | ok found =>
        cases found with
        | none => cases h
        | some g' =>
          obtain rfl := Except.ok.inj h
          obtain ⟨⟨g, hg⟩, hrow⟩ := Database.mem_of_updateFile (g := g') rfl (congrArg Prod.fst hup)
          rw [hup] at hrow
          exact ⟨by rw [hg]; rfl, hrow⟩

/-! ### Failures and answers -/

/-- The result is not that a value was found faulty. -/
def FindsNoFault {α : Type} (result : Outcome α) : Prop := ∀ detail, result ≠ .error (.validation detail)

theorem FindsNoFault.map {α β : Type} {result : Outcome α} (h : FindsNoFault result) (f : α → β) :
    FindsNoFault (result.map f) := by
  intro detail heq
  cases result with
  | ok a => cases heq
  | error e =>
    obtain rfl := Except.error.inj heq
    exact h detail rfl

theorem File.findsNoFault_read (f : File) : FindsNoFault f.read := by
  intro detail h
  unfold File.read at h
  split at h <;> cases h

namespace Database

variable {db : Database} {owner : Int} {id : String}

theorem findsNoFault_fileTable (db : Database) : FindsNoFault db.fileTable := by
  intro detail h
  unfold fileTable at h
  split at h <;> cases h

theorem findsNoFault_folderTable (db : Database) : FindsNoFault db.folderTable := by
  intro detail h
  unfold folderTable at h
  split at h <;> cases h

theorem findsNoFault_completeFile (db : Database) (id : String) (owner : Int) :
    FindsNoFault (db.completeFile id owner) := by
  refine FindsNoFault.map (fun detail h => ?_) _
  unfold fileById at h
  split at h
  · next e he =>
    obtain rfl := Except.error.inj h
    exact findsNoFault_fileTable db detail he
  · split at h
    · cases h
    · next f _ => exact (f.findsNoFault_read.map some) detail h

theorem findsNoFault_updateFile (db : Database) (id : String) (owner : Int) {u : FileUpdate}
    (hu : u.isEmpty = false) : FindsNoFault (db.updateFile id owner u).1 := by
  have hallows : FindsNoFault (db.allowsParent owner u) := by
    intro detail h
    unfold allowsParent at h
    split at h
    · cases h
    · split at h
      · cases h
      · exact ((findsNoFault_folderTable db).map _) detail h
  intro detail h
  simp only [updateFile, hu, Bool.false_eq_true, if_false] at h
  split at h
  · next e he =>
    obtain rfl := Except.error.inj h
    exact findsNoFault_fileTable db detail he
  · next e he _ =>
    obtain rfl := Except.error.inj h
    exact hallows detail he
  · split at h
    · cases h
    · next f _ =>
      split at h
      · exact ((File.findsNoFault_read _).map some) detail h
      · cases h

/-- With a name that passes the rule the creation of a folder finds no fault with it. -/
theorem findsNoFault_createFolder {name stored : String} (hname : Name.check name = .ok stored) (db : Database)
    (owner : Int) (parent id createdAt : String) :
    FindsNoFault (db.createFolder owner name parent id createdAt).1 := by
  intro detail h
  simp only [createFolder, Name.require, hname, insertFolder] at h
  split at h
  · next e he =>
    obtain rfl := Except.error.inj h
    exact findsNoFault_folderTable db detail he
  · next e he _ =>
    unfold userTable at he
    obtain rfl := Except.error.inj h
    split at he <;> cases he
  · split at h
    · cases h
    · split at h
      · cases h
      · split at h <;> cases h

end Database

/-- With a name that passes the rule a file is renamed, or not, for other reasons than the name. -/
theorem Depot.findsNoFault_rename {name stored : String} (hname : Name.check name = .ok stored) (d : Depot)
    (owner : Int) (id : String) : FindsNoFault (d.rename owner id name).1 := by
  have hfile : FindsNoFault (d.file owner id) := by
    intro detail h
    unfold file at h
    split at h
    · next e he =>
      obtain rfl := Except.error.inj h
      exact Database.findsNoFault_completeFile d.db id owner detail he
    · cases h
    · cases h
  intro detail h
  simp only [rename, Name.require, hname] at h
  split at h
  · next e he =>
    obtain rfl := Except.error.inj h
    exact hfile detail he
  · split at h
    · next e db he =>
      obtain rfl := Except.error.inj h
      exact Database.findsNoFault_updateFile d.db id owner rfl detail (congrArg Prod.fst he)
    · cases h
    · cases h

namespace Response

/-- The code in the body of an error answer. -/
def errorCode? (r : Response) : Option String :=
  match r.body with
  | .json (.record (("error", .record (("code", .text code) :: _)) :: _)) => some code
  | _ => none

/-- The answer is not that a value cannot be processed. -/
def IsProcessable (r : Response) : Prop := r.errorCode? ≠ some "UNPROCESSABLE_ENTITY"

theorem errorCode?_refuse (refusal : Refusal) : (refuse refusal).errorCode? = some refusal.kind.code := rfl

theorem isProcessable_refuse {refusal : Refusal} (h : refusal.kind ≠ .unprocessable) :
    (refuse refusal).IsProcessable := by
  rw [IsProcessable, errorCode?_refuse]
  cases hk : refusal.kind with
  | unprocessable => exact absurd hk h
  | _ => simp [RefusalKind.code]

theorem isProcessable_data (status : Nat) (value : Json) : (data status value).IsProcessable := by
  simp [IsProcessable, errorCode?, data, json]

theorem isProcessable_ofOutcome {α : Type} {tell : α → Response} (htell : ∀ a, (tell a).IsProcessable)
    {result : Outcome α} (h : FindsNoFault result) : (ofOutcome tell result).IsProcessable := by
  cases result with
  | ok a => exact htell a
  | error e =>
    refine isProcessable_refuse fun hkind => ?_
    obtain ⟨detail, rfl⟩ := Refusal.kind_ofError_eq_unprocessable_iff.mp hkind
    exact h detail rfl

end Response

namespace Exchange

open Response

variable {site : Site} {head : RequestHead} {e : Exchange} {r : Response}

theorem isProcessable_parseBody {α : Type} {read : Json.Reader α} {refusal? : α → Option Refusal} {body : Bytes}
    (hkind : ∀ request refusal, refusal? request = some refusal → refusal.kind = .invalidFields)
    {response : Response} (h : parseBody read refusal? body = .error response) : response.IsProcessable := by
  unfold parseBody at h
  split at h
  · next fault _ =>
    obtain rfl := Except.error.inj h
    cases fault <;> exact isProcessable_refuse (by simp [Refusal.of])
  · next request _ =>
    split at h
    · next refusal hrefusal =>
      obtain rfl := Except.error.inj h
      exact isProcessable_refuse (by simp [hkind request refusal hrefusal])
    · cases h

theorem accepted_of_parseBody {α : Type} {read : Json.Reader α} {refusal? : α → Option Refusal} {body : Bytes}
    {request : α} (h : parseBody read refusal? body = .ok request) : refusal? request = none := by
  unfold parseBody at h
  split at h
  · cases h
  · split at h
    · cases h
    · next hnone =>
      obtain rfl := Except.ok.inj h
      exact hnone

/-- A JSON request is never answered with a fault of its name: what is faulty has been told with the fields. -/
theorem isProcessable_perform (task : JsonTask) (owner : Int) (arrival : Arrival) (body : Bytes) (d : Depot) :
    (perform task owner arrival body d).1.IsProcessable := by
  cases task with
  | createFolder =>
    rw [perform]
    cases h : parseBody FolderRequest.read FolderRequest.refusal? body with
    | error response =>
      exact isProcessable_parseBody (fun _ _ hr => Refusal.kind_of_ofBreaches? hr) h
    | ok request =>
      have hname := Name.isAccepted_of_breaches (FolderRequest.refusal?_eq_none_iff.mp (accepted_of_parseBody h)).1
      simp only
      exact isProcessable_ofOutcome (fun _ => isProcessable_data 201 _)
        (Database.findsNoFault_createFolder hname.checked d.db _ _ _ _)
  | renameFile id =>
    rw [perform]
    cases h : parseBody RenameRequest.read RenameRequest.refusal? body with
    | error response =>
      exact isProcessable_parseBody (fun _ _ hr => Refusal.kind_of_ofBreaches? hr) h
    | ok request =>
      have hname := Name.isAccepted_of_breaches (RenameRequest.refusal?_eq_none_iff.mp (accepted_of_parseBody h))
      simp only
      exact isProcessable_ofOutcome (fun _ => isProcessable_data 200 _)
        (d.findsNoFault_rename hname.checked _ _)

end Exchange

/-- Whether a request carries a name: it creates a folder or renames a file. -/
def RequestHead.CarriesName (head : RequestHead) : Prop :=
  ∃ resource, Resource.ofPath? head.path = some resource ∧
    (resource.action? head.method = some .createFolder ∨ resource.action? head.method = some .rename)

/-- A request that is answered or waits for a JSON body, and that is not told that a value cannot be processed. -/
def Progress.IsProcessable : Progress → Prop
  | .answered response => response.IsProcessable
  | .collecting _ _ _ => True
  | .uploading _ => False

namespace Exchange

open Response

variable {site : Site} {head : RequestHead} {e : Exchange} {r : Response}

theorem isProcessable_badJson (detail : String) : (badJson detail).IsProcessable :=
  isProcessable_refuse (by simp [Refusal.of])

theorem isProcessable_text (status : Nat) (s : String) : (text status s).IsProcessable := by
  simp [IsProcessable, errorCode?, text]

theorem isProcessable_empty (status : Nat) (headers : List (String × String)) :
    ((empty status).withHeaders headers).IsProcessable := by
  simp [IsProcessable, errorCode?, empty, withHeaders]

theorem isProcessable_awaitJson (head : RequestHead) (task : JsonTask) (owner : Int) :
    (awaitJson head task owner).IsProcessable := by
  unfold awaitJson
  split
  · trivial
  · exact isProcessable_badJson _

theorem kind_of_claims {secret : Option Bytes} {now : Nat} {refusal : Refusal}
    (h : head.claims secret now = .error refusal) : refusal.kind ≠ .unprocessable := by
  unfold RequestHead.claims at h
  split at h
  · obtain rfl := Except.error.inj h
    simp [Refusal.of]
  · split at h
    · obtain rfl := Except.error.inj h
      simp [Refusal.of]
    · split at h
      · obtain rfl := Except.error.inj h
        simp [Refusal.of]
      · cases h

theorem isProcessable_dispatch (site : Site) (arrival : Arrival) {resource : Resource} (d : Depot)
    (haction : resource.action? head.method = some .createFolder ∨ resource.action? head.method = some .rename) :
    (dispatch site head arrival resource d).1.IsProcessable := by
  obtain ⟨action, hsome, hname⟩ : ∃ action, resource.action? head.method = some action ∧
      (action = .createFolder ∨ action = .rename) := by
    rcases haction with h | h
    · exact ⟨_, h, Or.inl rfl⟩
    · exact ⟨_, h, Or.inr rfl⟩
  simp only [dispatch, hsome]
  split
  · next refusal hrefused => exact isProcessable_refuse (kind_of_claims hrefused)
  · split
    · next response hid =>
      unfold decodedId at hid
      split at hid
      · cases hid
      · split at hid
        · cases hid
        · obtain rfl := Except.error.inj hid
          exact isProcessable_text 400 _
    · rcases hname with rfl | rfl
      · exact isProcessable_awaitJson head _ _
      · exact isProcessable_awaitJson head _ _

theorem isProcessable_start (hname : head.CarriesName) (site : Site) (arrival : Arrival) (d : Depot) :
    (start site head arrival d).1.progress.IsProcessable := by
  obtain ⟨resource, hpath, haction⟩ := hname
  simp only [start, hpath]
  split
  · next h => cases h
  · show (health head).IsProcessable
    unfold health
    split
    · exact isProcessable_text 200 "OK"
    · exact isProcessable_empty 405 _
  · next found _ hfound =>
    obtain rfl := Option.some.inj hfound
    split
    · exact isProcessable_empty 200 _
    · exact isProcessable_dispatch site arrival d haction

theorem isProcessable_take (h : e.progress.IsProcessable) (x : Delivery) (d : Depot) :
    (e.take x d).1.progress.IsProcessable := by
  cases he : e.progress with
  | answered response => rwa [take_of_answered he]
  | uploading intake =>
    rw [he] at h
    exact h.elim
  | collecting task owner received =>
    cases x with
    | interrupt =>
      simp only [take, interrupt, he]
      exact isProcessable_badJson _
    | chunk bytes atEnd =>
      simp only [take, deliver, he]
      split
      · exact isProcessable_badJson _
      · split
        · exact isProcessable_perform task owner e.arrival _ d
        · trivial

/-- Whatever arrives of the body, and whatever the depot is like, the answer to a request with a name is never that
    the name cannot be processed. -/
theorem Arises.isProcessable (hname : head.CarriesName) (h : Arises site head e) (hr : e.response? = some r) :
    r.IsProcessable := by
  have hprogress : e.progress.IsProcessable := by
    clear hr
    induction h with
    | start arrival d => exact isProcessable_start hname site arrival d
    | take h x d ih => exact isProcessable_take ih x d
  obtain ⟨raw, hraw, rfl⟩ := Option.map_eq_some_iff.mp hr
  have hbody : raw.IsProcessable := by
    unfold rawResponse? at hraw
    split at hraw
    · next response he =>
      obtain rfl := Option.some.inj hraw
      rwa [he] at hprogress
    · next intake he =>
      rw [he] at hprogress
      exact hprogress.elim
    · cases hraw
  split
  · simp [IsProcessable, errorCode?, headOnly, withHeaders]
  · exact hbody

end Exchange

namespace Name

/-- The rules for names in requests let only names pass that the depot takes, and exactly those whose white space
    counted they are not too long and that are free of control characters. What is stored is the trimmed name, which
    is as good again. So the answer to a request with a name never is that the name cannot be processed. -/
theorem validations_agree :
    (∀ r : FolderRequest, r.refusal? = none → IsAccepted r.name ∧
      ∀ (db : Database) (owner : Int) (id createdAt : String) (f : Folder),
        (db.createFolder owner r.name r.parent id createdAt).1 = .ok f →
          f.name = Text.trim r.name ∧ f ∈ (db.createFolder owner r.name r.parent id createdAt).2.folderRows) ∧
    (∀ r : RenameRequest, r.refusal? = none → IsAccepted r.name ∧
      ∀ (d : Depot) (owner : Int) (id : String) (f : File), (d.rename owner id r.name).1 = .ok f →
        f.name = Text.trim r.name ∧ f ∈ (d.rename owner id r.name).2.db.fileRows) ∧
    (∀ (site : Site) (head : RequestHead) (e : Exchange) (response : Response), head.CarriesName →
      Exchange.Arises site head e → e.response? = some response →
        response.errorCode? ≠ some "UNPROCESSABLE_ENTITY") ∧
    (∀ name fault, check name = .error fault →
      (∀ parent, (FolderRequest.mk name parent).refusal? ≠ none) ∧ (RenameRequest.mk name).refusal? ≠ none) ∧
    ∀ name, (RenameRequest.mk name).refusal? = none ↔
      check name = .ok (Text.trim name) ∧ name.length ≤ 255 ∧ ∀ c ∈ name.toList, Text.isControl c = false := by
  refine ⟨fun r hr => ?_, fun r hr => ?_, fun _ _ _ _ hname he hr => he.isProcessable hname hr, ?_, fun name => ?_⟩
  · have haccepted := isAccepted_of_breaches (FolderRequest.refusal?_eq_none_iff.mp hr).1
    exact ⟨haccepted, fun _ _ _ _ _ hok => Database.name_of_createFolder haccepted.checked hok⟩
  · have haccepted := isAccepted_of_breaches (RenameRequest.refusal?_eq_none_iff.mp hr)
    exact ⟨haccepted, fun _ _ _ _ hok => Depot.name_of_rename haccepted.checked hok⟩
  · intro name fault hfault
    have hbreaches : NameRule.breaches name ≠ [] := by
      intro hnone
      rw [(isAccepted_of_breaches hnone).checked] at hfault
      cases hfault
    exact ⟨fun parent h => hbreaches (FolderRequest.refusal?_eq_none_iff.mp h).1,
      fun h => hbreaches (RenameRequest.refusal?_eq_none_iff.mp h)⟩
  · rw [RenameRequest.refusal?_eq_none_iff, breaches_eq_nil_iff]
    rfl

/-- The head of a request to make a folder, without a token. -/
def headOfFolder : RequestHead :=
  ⟨"POST", "/api/folders", none, [("content-type", Bytes.ofAscii "application/json")]⟩

/-- The request, which is refused at once. -/
def requestOfFolder : Exchange :=
  (Exchange.start Cors.openSite headOfFolder ⟨50, "n", "2026"⟩ Depot.fresh).1

theorem validations_agree_of_docs :
    ((FolderRequest.mk "\u00a0docs " "").refusal? = none ∧ IsAccepted "\u00a0docs ") ∧
      ((RenameRequest.mk "b.txt ").refusal? = none ∧ IsAccepted "b.txt ") ∧
      (headOfFolder.CarriesName ∧ ∃ response, requestOfFolder.response? = some response ∧
        response.errorCode? = some "UNAUTHORIZED" ∧ response.errorCode? ≠ some "UNPROCESSABLE_ENTITY") ∧
      check "a/b" = .error .separator ∧ (RenameRequest.mk "a/b").refusal? ≠ none := by
  obtain ⟨hfolder, hrename, hanswer, hrefused, -⟩ := validations_agree
  have hdocs : (FolderRequest.mk "\u00a0docs " "").refusal? = none := by decide
  have hfile : (RenameRequest.mk "b.txt ").refusal? = none := by decide
  have hslash : check "a/b" = .error .separator := by decide
  have hhead : headOfFolder.CarriesName := ⟨.folders, by decide, Or.inl (by decide)⟩
  have hcode : requestOfFolder.response?.map Response.errorCode? = some (some "UNAUTHORIZED") := by
    decide +kernel
  obtain ⟨response, hresponse, hunauthorized⟩ := Option.map_eq_some_iff.mp hcode
  exact ⟨⟨hdocs, (hfolder _ hdocs).1⟩, ⟨hfile, (hrename _ hfile).1⟩,
    ⟨hhead, response, hresponse, hunauthorized, hanswer _ _ _ _ hhead (.start _ _) hresponse⟩,
    hslash, (hrefused _ _ hslash).2⟩

end Name

/-! ## References to parents -/

/-- What a request is told whose reference is too long. -/
theorem FolderRequest.refusal?_of_long {name ref : String} (hname : NameRule.breaches name = [])
    (hlong : maxParentLength < ref.length) :
    (FolderRequest.mk name ref).refusal? =
      some (.ofFields [("parent", ["Parent must be at most 1024 bytes"])]) := by
  simp [refusal?, Refusal.ofBreaches?, hname, hlong]

namespace FolderRef

open Upload

/-- A part of an upload that names its folder may have 1024 bytes, and the reference of a request 1024 characters,
    though both failures speak of bytes. They agree on all references but those that fit the one and not the other,
    such as no text of ASCII. -/
theorem parent_limits_agree_iff (t : Ticket) (d : Depot) (scan : Scan) (filename : Option String)
    {ref name : String} {chunks : List Bytes} (hchunks : chunks.flatten = Bytes.ofText ref)
    (hname : NameRule.breaches name = []) :
    (Accepts t d scan ⟨some "parent", filename, chunks⟩ ↔ (Bytes.ofText ref).length ≤ 1024) ∧
    ((Bytes.ofText ref).length ≤ 1024 →
      feed t d (betweenParts scan) (Multipart.FormPart.events ⟨some "parent", filename, chunks⟩ ++ [.partEnd]) =
        (betweenParts { scan with parent := normalize ref }, d)) ∧
    (1024 < (Bytes.ofText ref).length →
      (feed t d (betweenParts scan)
        (Multipart.FormPart.events ⟨some "parent", filename, chunks⟩ ++ [.partEnd])).1 =
          done (.error (.upload .parentTooLong))) ∧
    ((FolderRequest.mk name ref).refusal? = none ↔ ref.length ≤ 1024) ∧
    (1024 < ref.length → (FolderRequest.mk name ref).refusal? =
      some (.ofFields [("parent", ["Parent must be at most 1024 bytes"])])) ∧
    ((Accepts t d scan ⟨some "parent", filename, chunks⟩ ↔ (FolderRequest.mk name ref).refusal? = none) ↔
      ¬ (ref.length ≤ 1024 ∧ 1024 < (Bytes.ofText ref).length)) := by
  have hrole : (Multipart.FormPart.mk (some "parent") filename chunks).role = .parent := rfl
  have hcontent : (Multipart.FormPart.mk (some "parent") filename chunks).content = Bytes.ofText ref := hchunks
  have htext : Bytes.text? (Multipart.FormPart.mk (some "parent") filename chunks).content = some ref := by
    rw [hcontent, Bytes.text?_ofText]
  have hpart := accepts_iff t d scan hrole htext
  rw [hcontent] at hpart
  have hrequest : (FolderRequest.mk name ref).refusal? = none ↔ ref.length ≤ 1024 :=
    FolderRequest.refusal?_eq_none_iff.trans (and_iff_right hname)
  refine ⟨hpart, fun hlen => ?_, fun hlong => ?_, hrequest, FolderRequest.refusal?_of_long hname, ?_⟩
  · exact feed_parent t d scan hrole (hcontent ▸ hlen) htext
  · exact feed_parent_of_long t d scan hrole (hcontent ▸ hlong)
  · have hchars : ref.length ≤ (Bytes.ofText ref).length := Bytes.length_le_ofText ref
    rw [hpart, hrequest, maxParentLength]
    omega

/-- A reference of three letters, which arrives in two chunks. -/
theorem parent_limits_agree_iff_of_docs :
    [Bytes.ofAscii "a", Bytes.ofAscii "bc"].flatten = Bytes.ofText "abc" ∧ NameRule.breaches "docs" = [] ∧
      Accepts ⟨1, "f", "2026", 100⟩ Depot.fresh ⟨100, "", none⟩
        ⟨some "parent", none, [Bytes.ofAscii "a", Bytes.ofAscii "bc"]⟩ ∧
      (FolderRequest.mk "docs" "abc").refusal? = none := by
  have hchunks : [Bytes.ofAscii "a", Bytes.ofAscii "bc"].flatten = Bytes.ofText "abc" := by decide
  have hname : NameRule.breaches "docs" = [] := by decide
  obtain ⟨hpart, -, -, hrequest, -⟩ :=
    parent_limits_agree_iff ⟨1, "f", "2026", 100⟩ Depot.fresh ⟨100, "", none⟩ none hchunks hname
  exact ⟨hchunks, hname, hpart.mpr (by decide), hrequest.mpr (by decide)⟩

/-- As many letters of two bytes each. -/
def accents (n : Nat) : String := String.ofList (List.replicate n 'é')

theorem length_accents (n : Nat) : (accents n).length = n := by
  rw [accents, String.length_ofList, List.length_replicate]

theorem length_ofText_accents (n : Nat) : (Bytes.ofText (accents n)).length = 2 * n := by
  have hchar : (String.utf8EncodeChar 'é').length = 2 := by decide
  rw [accents, Bytes.ofText_ofList, List.flatMap_replicate, List.length_flatten, List.map_replicate, hchar,
    List.sum_replicate_nat, Nat.mul_comm]

/-- A reference of 600 letters and 1200 bytes passes in a request and fails an upload. -/
theorem accents_pass_one_limit :
    (FolderRequest.mk "docs" (accents 600)).refusal? = none ∧ (Bytes.ofText (accents 600)).length = 1200 ∧
      ¬ Accepts ⟨1, "f", "2026", 100⟩ Depot.fresh ⟨100, "", none⟩
        ⟨some "parent", none, [Bytes.ofText (accents 600)]⟩ ∧
      ¬ ∀ (ref : String) (chunks : List Bytes), chunks.flatten = Bytes.ofText ref →
        (Accepts ⟨1, "f", "2026", 100⟩ Depot.fresh ⟨100, "", none⟩ ⟨some "parent", none, chunks⟩ ↔
          (FolderRequest.mk "docs" ref).refusal? = none) := by
  have hname : NameRule.breaches "docs" = [] := by decide
  have hbytes : (Bytes.ofText (accents 600)).length = 1200 := length_ofText_accents 600
  have hrequest : (FolderRequest.mk "docs" (accents 600)).refusal? = none :=
    FolderRequest.refusal?_eq_none_iff.mpr ⟨hname, by rw [length_accents]; decide⟩
  have hcontent : [Bytes.ofText (accents 600)].flatten = Bytes.ofText (accents 600) := List.flatten_singleton
  have hpart : ¬ Accepts ⟨1, "f", "2026", 100⟩ Depot.fresh ⟨100, "", none⟩
      ⟨some "parent", none, [Bytes.ofText (accents 600)]⟩ := by
    rw [accepts_iff _ _ _ rfl (by rw [Multipart.FormPart.content, hcontent, Bytes.text?_ofText]),
      Multipart.FormPart.content, hcontent, hbytes]
    decide
  exact ⟨hrequest, hbytes, hpart, fun hall => hpart ((hall _ _ hcontent).mpr hrequest)⟩

end FolderRef

end FileDepot
