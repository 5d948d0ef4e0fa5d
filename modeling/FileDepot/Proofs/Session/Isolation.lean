import FileDepot.Proofs.Session.Parts

/-!
# Owners apart from each other

Two depots with the same part of an owner answer the owner in the same way, whatever else they hold and whatever
ids the owner asks for, and nothing that the owner does reaches the part of anybody else.
-/

namespace FileDepot

open BlobPath Database Depot

namespace Turn

variable {owner : Int} {db db' : Database} {turn : Turn}

/-- Whether a turn is one of the given owner, and the id that is generated in it not one of another owner.
    Deliveries go to uploads that were started before. -/
def IsFor (owner : Int) (db : Database) : Turn → Prop
  | operate op => op.IsFor owner db
  | start t _ _ => t.owner = owner ∧ db.SparesFiles owner t.fileId
  | deliver _ _ => True

theorem IsFor.of_others (h : turn.IsFor owner db)
    (ho : ∀ other, other ≠ owner → Database.SamePart other db db') : turn.IsFor owner db' := by
  cases turn with
  | operate op => exact Operation.IsFor.of_others h ho
  | start t boundary limit => exact ⟨h.1, h.2.of_samePart ho⟩
  | deliver n x => trivial

end Turn

namespace Session

variable {owner : Int} {s s' : Session} {turn : Turn} {turns : List Turn}

/-- A session that obeys the schema and in which all uploads are those of one owner. -/
structure IsOf (owner : Int) (s : Session) : Prop where
  lawful : s.depot.db.Lawful
  uploads : ∀ sending ∈ s.uploads, sending.ticket.owner = owner ∧ s.depot.db.SparesFiles owner sending.ticket.fileId

/-- Two sessions that look the same to an owner. -/
structure Alike (owner : Int) (s s' : Session) : Prop where
  depot : s.depot.SamePart owner s'.depot
  uploads : s'.uploads = s.uploads
  log : s'.log = s.log

namespace IsOf

/-- Only the owner acts. -/
theorem actor (h : s.IsOf owner) (ht : turn.IsFor owner s.depot.db) {o : Int} (ha : s.actor? turn = some o) :
    o = owner := by
  cases turn with
  | operate op => exact Option.some.inj (ha.symm.trans ht.1)
  | start t boundary limit => exact (Option.some.inj ha).symm.trans ht.1
  | deliver n x =>
    obtain ⟨sending, hs, rfl⟩ := Option.map_eq_some_iff.mp ha
    exact (h.uploads sending (List.mem_of_getElem? hs)).1

theorem steps (h : s.IsOf owner) (ht : turn.IsFor owner s.depot.db) :
    Steps (Statement.MadeBy (some owner) turn.newId?) s.depot.db (s.step turn).depot.db := by
  have hsteps := s.steps_step turn
  cases ha : s.actor? turn with
  | some o =>
    rw [ha, h.actor ht ha] at hsteps
    exact hsteps
  | none =>
    cases turn with
    | operate op => cases ha.symm.trans ht.1
    | start t boundary limit => cases ha
    | deliver n x =>
      have hn : s.uploads[n]? = none := Option.map_eq_none_iff.mp ha
      simp only [step, hn]
      exact .refl s.depot.db

/-- Whatever the owner does, the parts of all others stay as they were. -/
theorem others_step (h : s.IsOf owner) (ht : turn.IsFor owner s.depot.db) {other : Int} (hne : other ≠ owner) :
    s.depot.SamePart other (s.step turn).depot := by
  cases turn with
  | operate op => exact op.samePart_run ht.1 h.lawful hne
  | start t boundary limit =>
    obtain ⟨rfl, -⟩ := ht
    exact Upload.samePart_settle h.lawful hne .admission
  | deliver n x =>
    simp only [step]
    cases hn : s.uploads[n]? with
    | none => exact .refl other s.depot
    | some sending =>
      obtain ⟨rfl, -⟩ := h.uploads sending (List.mem_of_getElem? hn)
      have hpart := Upload.samePart_feed h.lawful hne sending.intake.upload (x.events sending.intake)
      rw [← sending.feed_of_take x s.depot] at hpart
      exact hpart

theorem step (h : s.IsOf owner) (ht : turn.IsFor owner s.depot.db) : (s.step turn).IsOf owner := by
  have ho : ∀ other, other ≠ owner → Database.SamePart other s.depot.db (s.step turn).depot.db :=
    fun other hne => (h.others_step ht hne).db
  have hkept : ∀ sending ∈ s.uploads, sending.ticket.owner = owner ∧
      (s.step turn).depot.db.SparesFiles owner sending.ticket.fileId := fun sending hs =>
    ⟨(h.uploads sending hs).1, (h.uploads sending hs).2.of_samePart ho⟩
  refine ⟨(h.steps ht).lawful_of_owner h.lawful, ?_⟩
  cases turn with
  | operate op => exact hkept
  | start t boundary limit =>
    intro sending hs
    rcases List.mem_append.mp hs with hs | hs
    · exact hkept sending hs
    · rw [List.mem_singleton.mp hs]
      exact ⟨ht.1, ht.2.of_samePart ho⟩
  | deliver n x =>
    intro sending hs
    simp only [Session.step] at hs
    cases hn : s.uploads[n]? with
    | none =>
      rw [hn] at hs
      exact hkept sending hs
    | some earlier =>
      rw [hn] at hs
      rcases List.mem_or_eq_of_mem_set hs with hs | rfl
      · exact hkept sending hs
      · rw [earlier.ticket_take]
        exact hkept earlier (List.mem_of_getElem? hn)

/-- Through many turns of the owner the parts of all others stay as they were. -/
theorem others_run (h : s.IsOf owner) (hturns : ∀ turn ∈ turns, turn.IsFor owner s.depot.db) {other : Int}
    (hne : other ≠ owner) : s.depot.SamePart other (s.run turns).depot := by
  induction turns generalizing s with
  | nil => exact .refl other s.depot
  | cons turn rest ih =>
    have ht := hturns turn List.mem_cons_self
    refine (h.others_step ht hne).trans (ih (h.step ht) fun turn' hmem => ?_)
    exact (hturns turn' (List.mem_cons_of_mem turn hmem)).of_others fun other hne => (h.others_step ht hne).db

end IsOf

namespace Alike

/-- One turn of the owner looks the same in both sessions. -/
theorem step (ha : Alike owner s s') (h : s.IsOf owner) (h' : s'.IsOf owner) (ht : turn.IsFor owner s.depot.db)
    (ht' : turn.IsFor owner s'.depot.db) : Alike owner (s.step turn) (s'.step turn) := by
  cases turn with
  | operate op =>
    obtain ⟨hanswer, hpart⟩ := Operation.alike_run ha.depot h.lawful h'.lawful ht ht'
    refine ⟨hpart, ha.uploads, ?_⟩
    simp only [Session.step, hanswer, ha.log]
  | start t boundary limit =>
    obtain ⟨rfl, hspares⟩ := ht
    obtain ⟨hupload, hpart⟩ := Upload.alike_settle ha.depot ⟨h.lawful, hspares⟩ ⟨h'.lawful, ht'.2⟩ .admission
    refine ⟨hpart, ?_, ?_⟩
    · simp only [Session.step, Sending.start, Intake.start, hupload, ha.uploads]
    · simp only [Session.step, Sending.start, Intake.start, hupload, ha.log]
  | deliver n x =>
    simp only [Session.step, ha.uploads]
    cases hn : s.uploads[n]? with
    | none =>
      refine ⟨ha.depot, rfl, ?_⟩
      simp only [ha.log]
    | some sending =>
      have hmem := List.mem_of_getElem? hn
      obtain ⟨rfl, hspares⟩ := h.uploads sending hmem
      have hspares' := (h'.uploads sending (ha.uploads.symm ▸ hmem)).2
      obtain ⟨hupload, hpart⟩ := Upload.alike_feed ha.depot ⟨h.lawful, hspares⟩ ⟨h'.lawful, hspares'⟩
        sending.intake.upload (x.events sending.intake)
      have hfeed := sending.feed_of_take x s.depot
      have hfeed' := sending.feed_of_take x s'.depot
      have htake : (sending.take x s'.depot).1 = (sending.take x s.depot).1 := by
        simp only [Sending.take, x.handTo_congr hupload]
      rw [← hfeed, ← hfeed'] at hpart
      refine ⟨hpart, ?_, ?_⟩
      · simp only [htake]
      · simp only [htake, ha.log]

theorem run (ha : Alike owner s s') (h : s.IsOf owner) (h' : s'.IsOf owner)
    (hturns : ∀ turn ∈ turns, turn.IsFor owner s.depot.db ∧ turn.IsFor owner s'.depot.db) :
    Alike owner (s.run turns) (s'.run turns) := by
  induction turns generalizing s s' with
  | nil => exact ha
  | cons turn rest ih =>
    obtain ⟨ht, ht'⟩ := hturns turn List.mem_cons_self
    refine ih (ha.step h h' ht ht') (h.step ht) (h'.step ht') fun turn' hmem => ?_
    obtain ⟨hr, hr'⟩ := hturns turn' (List.mem_cons_of_mem turn hmem)
    exact ⟨hr.of_others fun other hne => (h.others_step ht hne).db,
      hr'.of_others fun other hne => (h'.others_step ht' hne).db⟩

end Alike

/-- A session that begins with a depot. -/
def opened (d : Depot) : Session := ⟨d, [], []⟩

/-- Owners are apart from each other. In two depots that obey the schema and have the same part of an owner,
    whatever the owner asks for and uploads, in any order and with any ids, is answered in the same way in both
    and leaves the same part of the owner in both; and it leaves the parts of all others as they were. An id that
    is generated has to be none of another owner. -/
theorem owners_are_isolated {d e : Depot} (hd : d.db.Lawful) (he : e.db.Lawful) (hsame : d.SamePart owner e)
    (hturns : ∀ turn ∈ turns, turn.IsFor owner d.db ∧ turn.IsFor owner e.db) :
    ((opened e).run turns).log = ((opened d).run turns).log ∧
      ((opened d).run turns).depot.SamePart owner ((opened e).run turns).depot ∧
      ∀ other, other ≠ owner →
        d.SamePart other ((opened d).run turns).depot ∧ e.SamePart other ((opened e).run turns).depot := by
  have h : (opened d).IsOf owner := ⟨hd, fun sending hs => by cases hs⟩
  have h' : (opened e).IsOf owner := ⟨he, fun sending hs => by cases hs⟩
  have hstart : Alike owner (opened d) (opened e) := ⟨hsame, rfl, rfl⟩
  have halike := hstart.run h h' hturns
  refine ⟨halike.log, halike.depot, fun other hne => ?_⟩
  exact ⟨h.others_run (fun turn hmem => (hturns turn hmem).1) hne,
    h'.others_run (fun turn hmem => (hturns turn hmem).2) hne⟩

/-- A depot in which user 1 owns nothing, and user 2 a file with the given content in a folder with the given
    id. -/
def besideNeighbour (folderId : String) (content : Bytes) : Depot :=
  ⟨{ Database.fresh with
      users := some ⟨[⟨1, "alice", 0, .exact 0, "2026"⟩, ⟨2, "bob", 0, .exact content.length, "2026"⟩], 2⟩
      folders := some [⟨folderId, "private", "", 2, "2026"⟩]
      files := some [⟨"g", "note", "", "text/plain", content.length, .complete, folderId, 2, "2026"⟩] },
    ⟨[(["2"], .directory), (["2", "g"], .blob content)]⟩⟩

theorem lawful_besideNeighbour (folderId : String) (content : Bytes) :
    (besideNeighbour folderId content).db.Lawful := by
  have hids : (besideNeighbour folderId content).db.userIds = [1, 2] := rfl
  have hbob : (2 : Int) ∈ (besideNeighbour folderId content).db.userIds := by simp [hids]
  refine ⟨⟨rfl, rfl, rfl⟩, ?_, List.nodup_singleton folderId, List.nodup_singleton "g", ?_, ?_⟩
  · rw [hids]
    decide
  · intro f hf
    rw [List.mem_singleton.mp hf]
    exact hbob
  · intro f hf
    rw [List.mem_singleton.mp hf]
    exact hbob

theorem samePart_besideNeighbour (folderId folderId' : String) (content content' : Bytes) :
    (besideNeighbour folderId content).SamePart 1 (besideNeighbour folderId' content') := by
  have hfolders : ∀ (folderId : String) (content : Bytes) (f : Folder), f.ownerId = 1 →
      f ∉ (besideNeighbour folderId content).db.folderRows := by
    intro folderId content f hf hmem
    rw [List.mem_singleton.mp hmem] at hf
    cases hf
  have hfiles : ∀ (folderId : String) (content : Bytes) (f : File), f.ownerId = 1 →
      f ∉ (besideNeighbour folderId content).db.fileRows := by
    intro folderId content f hf hmem
    rw [List.mem_singleton.mp hmem] at hf
    cases hf
  refine ⟨⟨rfl, ?_, ?_⟩, ?_⟩
  · intro f hf
    exact iff_of_false (hfolders folderId' content' f hf) (hfolders folderId content f hf)
  · intro f hf
    exact iff_of_false (hfiles folderId' content' f hf) (hfiles folderId content f hf)
  · intro q hq
    cases q with
    | nil => cases hq
    | cons s rest =>
      obtain rfl : s = "1" := Option.some.inj hq
      have hdirectory : ("1" :: rest == ["2"]) = false := rfl
      have hcontent : ("1" :: rest == ["2", "g"]) = false := rfl
      simp only [BlobTree.get?, besideNeighbour, List.lookup_cons, hdirectory, hcontent]

/-- User 1 asks for the folder and the file of user 2, and then makes a folder and uploads a file. -/
def turnsBesideNeighbour : List Turn :=
  [.operate (.listChildren 1 "b"), .operate (.createFolder 1 "docs" "b" "d" "2026"),
    .operate (.openDownload 1 "g"), .operate (.rename 1 "g" "mine"), .operate (.delete 1 "g"),
    .operate (.createFolder 1 "docs" "" "d" "2026"), .start ⟨1, "f", "2026", 100⟩ (Bytes.ofAscii "b") 1000,
    .deliver 0 (.chunk (Bytes.ofAscii
      "--b\r\nContent-Disposition: form-data; name=\"file\"; filename=\"a.txt\"\r\n\r\nhi\r\n--b--") true)]

theorem isFor_turnsBesideNeighbour {folderId : String} (hid : folderId ≠ "d") (content : Bytes) :
    ∀ turn ∈ turnsBesideNeighbour, turn.IsFor 1 (besideNeighbour folderId content).db := by
  have hfolders : ∀ id, some "d" = some id → (besideNeighbour folderId content).db.SparesFolders 1 id := by
    rintro id ⟨⟩ f hf hd
    rw [List.mem_singleton.mp hf] at hd
    exact absurd hd hid
  have hfiles : (besideNeighbour folderId content).db.SparesFiles 1 "f" := by
    intro f hf hd
    rw [List.mem_singleton.mp hf] at hd
    have hne : ("g" : String) ≠ "f" := by decide
    exact absurd hd hne
  have hnone : ∀ id, (none : Option String) = some id →
      (besideNeighbour folderId content).db.SparesFolders 1 id := by
    intro id h
    cases h
  simp only [turnsBesideNeighbour, List.forall_mem_cons]
  exact ⟨⟨rfl, hnone⟩, ⟨rfl, hfolders⟩, ⟨rfl, hnone⟩, ⟨rfl, hnone⟩, ⟨rfl, hnone⟩, ⟨rfl, hfolders⟩,
    ⟨rfl, hfiles⟩, trivial, List.forall_mem_nil _⟩

theorem owners_are_isolated_of_neighbour :
    ((opened (besideNeighbour "c" [])).run turnsBesideNeighbour).log =
      ((opened (besideNeighbour "b" [7])).run turnsBesideNeighbour).log ∧
    (besideNeighbour "b" [7]).SamePart 2 ((opened (besideNeighbour "b" [7])).run turnsBesideNeighbour).depot := by
  have h := owners_are_isolated (lawful_besideNeighbour "b" [7]) (lawful_besideNeighbour "c" [])
    (samePart_besideNeighbour "b" "c" [7] []) fun turn hmem =>
      ⟨isFor_turnsBesideNeighbour (by decide) [7] turn hmem, isFor_turnsBesideNeighbour (by decide) [] turn hmem⟩
  exact ⟨h.1, (h.2.2 2 (by decide)).1⟩

end Session

end FileDepot
