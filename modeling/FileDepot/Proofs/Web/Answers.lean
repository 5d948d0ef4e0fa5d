import FileDepot.Proofs.Session.Outcomes
import FileDepot.Proofs.Web.Service

/-!
# What answers tell and what is behind them

The answer to a request that is carried out at once. Whoever is refused has changed nothing, and whoever is not is
told of rows of the owner only. Nothing of all other owners is touched in either case.
-/

namespace FileDepot

open BlobPath Database Depot

/-- Whether a response tells of success, and of nothing but rows of an owner as they stand in a depot. -/
inductive Response.TellsOf (owner : Int) (d : Depot) : Response → Prop
  | created : TellsOf owner d (.empty 201)
  | message (text : String) (h : text ∈ ["File deleted", "Folder deleted"]) : TellsOf owner d (.message text)
  | files (rows : List File) (h : ∀ f ∈ rows, f ∈ d.db.fileRows ∧ f.ownerId = owner) :
    TellsOf owner d (.data 200 (.list (rows.map File.json)))
  | listing (l : Listing) (h : l.IsOf owner d.db) : TellsOf owner d (.data 200 l.json)
  | folder (f : Folder) (h : f ∈ d.db.folderRows ∧ f.ownerId = owner) : TellsOf owner d (.data 201 f.json)
  | file (f : File) (h : f ∈ d.db.fileRows ∧ f.ownerId = owner) : TellsOf owner d (.data 200 f.json)
  | content (f : File) (h : f ∈ d.db.fileRows ∧ f.ownerId = owner) (bytes : Bytes)
      (hb : d.blobs.get? (ofIds owner f.id) = some (.blob bytes)) :
    TellsOf owner d ⟨200,
      [("content-type", f.mimeType), ("content-disposition", Attachment.disposition f.name),
        ("content-length", toString f.size), ("cache-control", "no-cache")], .content bytes⟩
  | usage (u : Usage)
      (h : ∃ v ∈ d.db.userRows, v.id = owner ∧ v.quota = u.quota ∧ v.spaceUsed = .exact u.spaceUsed) :
    TellsOf owner d (.data 200 u.json)

theorem Response.TellsOf.isSuccess {owner : Int} {d : Depot} {r : Response} (h : r.TellsOf owner d) :
    r.IsSuccess := by
  have hok : 200 ≤ 200 ∧ 200 < 300 := by decide
  have hcreated : 200 ≤ 201 ∧ 201 < 300 := by decide
  cases h with
  | created => exact hcreated
  | folder f h => exact hcreated
  | _ => exact hok

/-- Nothing has been changed, but that there may be a directory for the contents of an owner now, with nothing in
    it. -/
structure Depot.SameButDirectory (owner : Int) (d d' : Depot) : Prop where
  db : d'.db = d.db
  elsewhere : ∀ q, q ≠ ofOwner owner → d'.blobs.get? q = d.blobs.get? q
  directory : d'.blobs.get? (ofOwner owner) = d.blobs.get? (ofOwner owner) ∨
    d.blobs.get? (ofOwner owner) = none ∧ d'.blobs.get? (ofOwner owner) = some .directory ∧
      ∀ below, below ≠ [] → d'.blobs.get? (ofOwner owner ++ below) = none

theorem Depot.SameButDirectory.refl (owner : Int) (d : Depot) : d.SameButDirectory owner d :=
  ⟨rfl, fun _ _ => rfl, Or.inl rfl⟩

/-- What a response and the depot after it have to do with the depot before. A failure has changed nothing, as
    long as the counters can be read. -/
structure Response.Concludes (owner : Int) (d : Depot) (r : Response) (d' : Depot) : Prop where
  failure : ¬ r.IsSuccess → d'.db.CountersFit → d.SameButDirectory owner d'
  success : r.IsSuccess → r.TellsOf owner d'
  others : ∀ other, other ≠ owner → d.SamePart other d'

namespace Response.Concludes

variable {owner : Int} {d d' : Depot} {r : Response}

/-- A refusal changes nothing. -/
theorem of_refusal (owner : Int) (d : Depot) (h : ¬ r.IsSuccess) : r.Concludes owner d d :=
  ⟨fun _ _ => .refl owner d, fun hs => absurd hs h, fun other _ => .refl other d⟩

theorem of_tellsOf (h : r.TellsOf owner d') (ho : ∀ other, other ≠ owner → d.SamePart other d') :
    r.Concludes owner d d' :=
  ⟨fun hs => absurd h.isSuccess hs, fun _ => h, ho⟩

/-- What has been done is told, or it has failed and changed nothing. -/
theorem of_outcome {α : Type} {tell : α → Response} {result : Outcome α}
    (herror : ∀ e, result = .error e → d'.db.CountersFit → d' = d)
    (hok : ∀ a, result = .ok a → (tell a).TellsOf owner d')
    (ho : ∀ other, other ≠ owner → d.SamePart other d') : (ofOutcome tell result).Concludes owner d d' := by
  cases result with
  | error e =>
    have hfail : ¬ (refuse (.ofError e)).IsSuccess := not_isSuccess_refuse _
    refine ⟨fun _ hfit => ?_, fun hs => absurd hs hfail, ho⟩
    rw [herror e rfl hfit]
    exact .refl owner d
  | ok a => exact .of_tellsOf (hok a rfl) ho

/-- Something is looked up and told. -/
theorem of_lookup {α : Type} {tell : α → Response} {result : Outcome α}
    (hok : ∀ a, result = .ok a → (tell a).TellsOf owner d) : (ofOutcome tell result).Concludes owner d d :=
  .of_outcome (fun _ _ _ => rfl) hok fun other _ => .refl other d

end Response.Concludes

namespace Exchange

variable {d : Depot} {owner : Int} {id : String}

theorem concludes_download (hp : d.Proper) (owner : Int) (id : String) :
    (download d owner id).Concludes owner d d := by
  unfold download
  cases ho : d.openDownload owner id with
  | error e => exact .of_refusal owner d (Response.not_isSuccess_refuse _)
  | ok found =>
    obtain ⟨hmem, hown, content, hentry, hg⟩ := openDownload_ok hp.orderly hp.contentful ho
    simp only [Response.ofOutcome]
    split
    · rw [hentry]
      exact .of_tellsOf (.content found.file ⟨hmem, hown⟩ content hg) fun other _ => .refl other d
    · exact .of_refusal owner d (Response.not_isSuccess_refuse _)

/-- A request that needs no body ends with what is the owner's. -/
theorem concludes_answer (hp : d.Proper) (action : DirectAction) (id : String) (owner : Int) :
    (answer action id owner d).1.Concludes owner d (answer action id owner d).2 := by
  have hw := hp.lawful.whole
  have hothers : ∀ other, other ≠ owner → d.SamePart other (answer action id owner d).2 := by
    intro other hne
    rw [answer_snd]
    exact Operation.samePart_run (action.owner?_operation owner id) hp.lawful hne
  cases action with
  | listFiles => exact .of_lookup fun rows hrows => .files rows (filesOf_ok hw hrows)
  | download => exact concludes_download hp owner id
  | deleteFile =>
    simp only [answer] at hothers ⊢
    refine .of_outcome (fun e he hfit => ?_) (fun f _ => .message "File deleted" (by simp)) hothers
    exact delete_of_failure hp.orderly hp.contentful hp.lawful he hfit
  | listFolder => exact .of_lookup fun l hl => .listing l (listChildren_ok hw hl)
  | deleteFolder =>
    simp only [answer] at hothers ⊢
    refine .of_outcome (fun e he _ => ?_) (fun _ _ => .message "Folder deleted" (by simp)) hothers
    rw [deleteFolder_of_error hw he]
  | usage => exact .of_lookup fun u hu => .usage u (usage_ok hu)

/-- A body that cannot be used is refused. -/
theorem not_isSuccess_parseBody {α : Type} {read : Json.Reader α} {refusal? : α → Option Refusal} {body : Bytes}
    {response : Response} (h : parseBody read refusal? body = .error response) : ¬ response.IsSuccess := by
  unfold parseBody at h
  split at h
  · next fault _ =>
    cases h
    cases fault <;> exact Response.not_isSuccess_refuse _
  · split at h
    · cases h
      exact Response.not_isSuccess_refuse _
    · cases h

/-- And so does a JSON request. -/
theorem concludes_perform (hp : d.Proper) (task : JsonTask) (owner : Int) (arrival : Arrival) (body : Bytes) :
    (perform task owner arrival body d).1.Concludes owner d (perform task owner arrival body d).2 := by
  have hw := hp.lawful.whole
  have hothers : ∀ other, other ≠ owner → d.SamePart other (perform task owner arrival body d).2 := by
    intro other hne
    rcases perform_snd task owner arrival body d with hsame | ⟨op, howner, hop⟩
    · rw [hsame]
      exact .refl other d
    · rw [hop]
      exact op.samePart_run howner hp.lawful hne
  cases task with
  | createFolder =>
    cases hbody : parseBody FolderRequest.read FolderRequest.refusal? body with
    | error response =>
      simp only [perform, hbody]
      exact .of_refusal owner d (not_isSuccess_parseBody hbody)
    | ok request =>
      simp only [perform, hbody] at hothers ⊢
      refine .of_outcome (fun e he _ => ?_) (fun f hf => .folder f (createFolder_ok hw hf)) hothers
      rw [createFolder_of_error hw he]
  | renameFile id =>
    cases hbody : parseBody RenameRequest.read RenameRequest.refusal? body with
    | error response =>
      simp only [perform, hbody]
      exact .of_refusal owner d (not_isSuccess_parseBody hbody)
    | ok request =>
      simp only [perform, hbody] at hothers ⊢
      refine .of_outcome (fun e he _ => ?_) (fun f hf => .file f (rename_ok hp.orderly hf)) hothers
      exact rename_of_error hp.orderly he

end Exchange

end FileDepot
