import FileDepot.Proofs.Blob.Removal
import FileDepot.Proofs.Store.Adjustments
import FileDepot.Proofs.Web.Serving

/-!
# Taking files away

A deletion takes a file away as a whole, or it leaves everything as it was. Between the two there is nothing, but
that the counter of the owner may be past reading. And a deletion is the opposite of an upload: once the file that
was uploaded last is deleted, nothing tells that it was ever there, except perhaps an empty directory.
-/

namespace FileDepot

open BlobPath Database Depot Upload

/-! ## Counters of services -/

theorem Session.Reached.accounted {s : Session} (h : s.Reached) : s.depot.db.Accounted := by
  induction h with
  | fresh => exact accounted_fresh
  | step h ha ih => exact (Session.steps_step _ _).keeps ih fun _ st _ hp => hp.apply st

theorem Service.Reached.accounted {s : Service} (h : s.Reached) : s.depot.db.Accounted := by
  obtain ⟨σ, hσ, hshows⟩ := h.shows
  rw [← hshows.depot]
  exact hσ.accounted

/-! ## All or nothing -/

/-- In its place nothing is found any more, and everywhere else is what was there. -/
structure BlobTree.Cleared (t : BlobTree) (rel : String) (t' : BlobTree) : Prop where
  gone : t'.contains rel = .ok false
  elsewhere : ∀ path, resolve rel ≠ .ok path → t'.get? path = t.get? path

/-- A removal clears the place, or it fails although something is there. -/
theorem BlobTree.cleared_or_stuck (t : BlobTree) (rel : String) :
    (∃ t', t.Cleared rel t' ∧
        (t.remove rel = .ok t' ∨ t' = t ∧ ∃ found, t.remove rel = .error (.notFound found))) ∨
      ∃ e, t.remove rel = .error e ∧ ∀ found, e ≠ .notFound found := by
  cases hr : t.remove rel with
  | ok t' =>
    obtain ⟨path, content, hpath, -, rfl, hgone⟩ := remove_eq_ok hr
    refine Or.inl ⟨_, ⟨hgone, fun q hq => ?_⟩, Or.inl rfl⟩
    rw [get?_erase, if_neg]
    rintro rfl
    exact hq hpath
  | error e =>
    by_cases hfound : ∃ found, e = .notFound found
    · obtain ⟨found, rfl⟩ := hfound
      exact Or.inl ⟨t, ⟨contains_of_remove hr, fun _ _ => rfl⟩, Or.inr ⟨rfl, found, rfl⟩⟩
    · exact Or.inr ⟨e, rfl, fun found heq => hfound ⟨found, heq⟩⟩

namespace Depot

variable {d : Depot} {owner : Int} {id : String} {f : File}

/-- What the tables of a depot allow: all of them are there, sizes are not negative, and a counter that can be read
    is a 64-bit number. -/
structure WithinBounds (d : Depot) : Prop where
  whole : d.db.IsWhole
  sizes : ∀ f ∈ d.db.fileRows, 0 ≤ f.size
  counters : ∀ owner n, d.db.counter? owner = some (.exact n) → n ≤ int64Max

/-- The records without those of one file. -/
def dbWithout (d : Depot) (owner : Int) (id : String) : Database :=
  d.db.withFiles (d.db.fileRows.filter fun g => !isFile id owner g)

/-- How a finished file is taken away: its row is gone, nothing is left in the place of its content, and its bytes
    are given back. Only if the counter cannot be read, or the owner is missing, it is not known whether they
    are. -/
inductive TakesAway (d : Depot) (owner : Int) (id : String) : Outcome File → Depot → Prop
  | counted (f : File) (blobs : BlobTree) (n : Int) (hf : d.file owner id = .ok f)
    (hb : d.blobs.Cleared (ofFile owner id) blobs) (hc : d.db.counter? owner = some (.exact n)) :
    TakesAway d owner id (.ok f) ⟨(d.dbWithout owner id).withCounter owner (.exact (max 0 (n - f.size))), blobs⟩
  | unreadable (f : File) (blobs : BlobTree) (m : Int) (hf : d.file owner id = .ok f)
    (hb : d.blobs.Cleared (ofFile owner id) blobs) (hc : d.db.counter? owner = some (.overflowed m)) :
    TakesAway d owner id (((Counter.overflowed m).add (-f.size)).read.map fun _ => f)
      ⟨(d.dbWithout owner id).withCounter owner ((Counter.overflowed m).add (-f.size)), blobs⟩
  | ownerless (f : File) (blobs : BlobTree) (hf : d.file owner id = .ok f)
    (hb : d.blobs.Cleared (ofFile owner id) blobs) (hc : d.db.counter? owner = none) :
    TakesAway d owner id (.error (.notFound "user")) ⟨d.dbWithout owner id, blobs⟩

/-- Why a file is not deleted: there is no such finished file, or its content is there and cannot be removed. -/
inductive Refuses (d : Depot) (owner : Int) (id : String) : Error → Prop
  | absent {e : Error} (h : d.file owner id = .error e) : Refuses d owner id e
  | stuck {cause : BlobError} (f : File) (hf : d.file owner id = .ok f)
    (hb : d.blobs.remove (ofFile owner id) = .error cause) (hne : ∀ found, cause ≠ .notFound found) :
    Refuses d owner id (.blob cause)

/-- A deletion changes nothing, or it takes the file away. -/
theorem delete_cases (h : d.WithinBounds) (owner : Int) (id : String) :
    (∃ e, d.Refuses owner id e ∧ d.delete owner id = (.error e, d)) ∨
      d.TakesAway owner id (d.delete owner id).1 (d.delete owner id).2 := by
  cases hf : d.file owner id with
  | error e => exact Or.inl ⟨e, .absent hf, delete_of_error hf⟩
  | ok f =>
    obtain ⟨hmem, hid, -, -⟩ := file_some h.whole hf
    rcases d.blobs.cleared_or_stuck (ofFile owner id) with ⟨blobs, hcleared, hremoved⟩ | ⟨e, hstuck, hne⟩
    · right
      have hwhole : (d.dbWithout owner id).IsWhole := h.whole.withFiles _
      have hcounter : (d.dbWithout owner id).counter? owner = d.db.counter? owner := rfl
      rw [delete_of_removable h.whole hf hremoved, Deletion.opposite_of_nonneg (h.sizes f hmem)]
      show d.TakesAway owner id (((d.dbWithout owner id).adjustSpaceUsed owner (-f.size)).1.map fun _ => f)
        ⟨((d.dbWithout owner id).adjustSpaceUsed owner (-f.size)).2, blobs⟩
      cases hc : d.db.counter? owner with
      | none =>
        rw [adjustSpaceUsed_of_none hwhole (hcounter.trans hc)]
        exact .ownerless f blobs hf hcleared hc
      | some c =>
        rw [adjustSpaceUsed_eq (hcounter.trans hc)]
        cases c with
        | exact n =>
          rw [Counter.add_neg (h.counters owner n hc) (h.sizes f hmem)]
          exact .counted f blobs n hf hcleared hc
        | overflowed m => exact .unreadable f blobs m hf hcleared hc
    · exact Or.inl ⟨_, .stuck f hf hstuck hne, delete_of_stuck h.whole hf hstuck hne⟩

end Depot

/-! ## The opposite of an upload -/

variable {t : Ticket} {alone seen : Depot} {bytes : Bytes} {f : File}

/-- Bytes that were counted are given back. -/
theorem Database.Accounted.adjust_back {db : Database} (ha : db.Accounted) {owner n size : Int} (hsize : 0 ≤ size)
    (hn : (db.adjustSpaceUsed owner size).1 = .ok n) :
    ∃ m, (db.adjustSpaceUsed owner size).2.adjustSpaceUsed owner (-size) = (.ok m, db) := by
  cases hc : db.counter? owner with
  | none =>
    rw [adjustSpaceUsed_of_none ha.lawful.whole hc] at hn
    cases hn
  | some c =>
    rw [adjustSpaceUsed_eq hc] at hn ⊢
    cases hsum : c.add size with
    | overflowed k =>
      rw [hsum] at hn
      cases hn
    | exact k =>
      obtain ⟨m, rfl, hm, rfl⟩ := Counter.eq_exact_of_add (ha.counters owner c hc) hsize hsum
      have hback : (Counter.exact (m + size)).add (-size) = .exact m := by
        rw [Counter.add_neg (Counter.add_eq_exact hsum).2 hsize]
        congr 1
        omega
      refine ⟨m, ?_⟩
      rw [adjustSpaceUsed_eq (counter?_withCounter hc _), hback, withCounter_withCounter,
        withCounter_self ha.lawful hc]
      rfl

namespace Delivered

theorem size_nonneg (hd : Delivered t alone seen bytes f) : 0 ≤ f.size := by
  rw [hd.size]
  exact Int.natCast_nonneg _

theorem owner_of_id (hd : Delivered t alone seen bytes f) :
    ∀ g ∈ seen.db.fileRows, g.id = t.fileId → g.ownerId = t.owner := by
  intro g hg hid
  rw [List.inj_on_of_nodup_map hd.unique hg hd.row (hid.trans hd.id.symm)]
  exact hd.owner

/-- Without the row of the file, and with its bytes given back, the records are what they were. -/
theorem adjust_dbWithout (hd : Delivered t alone seen bytes f) (hw : seen.db.IsWhole) (ha : alone.db.Accounted)
    {n : Int} (hn : (alone.db.adjustSpaceUsed t.owner f.size).1 = .ok n) :
    ∃ m, (seen.dbWithout t.owner t.fileId).adjustSpaceUsed t.owner (-f.size) = (.ok m, alone.db) := by
  have hwithout : seen.dbWithout t.owner t.fileId = (alone.db.adjustSpaceUsed t.owner f.size).2 := by
    rw [← hd.rest, dbWithout, filter_isFile_of_owned hd.owner_of_id, ← withFiles_self hw]
    rfl
  rw [hwithout]
  exact ha.adjust_back hd.size_nonneg hn

/-- The deletion of the file takes back all that makes the difference. -/
theorem delete_eq (hd : Delivered t alone seen bytes f) (ho : seen.Orderly) (hid : IsSegment t.fileId)
    (ha : alone.db.Accounted) {n : Int} (hn : (alone.db.adjustSpaceUsed t.owner f.size).1 = .ok n) :
    seen.delete t.owner f.id = (.ok f, ⟨alone.db, seen.blobs.erase t.place⟩) := by
  have hfile : seen.file t.owner t.fileId = .ok f := by
    rw [← hd.owner, ← hd.id]
    exact file_of_mem ho hd.row hd.complete
  have hremoved : seen.blobs.remove (ofFile t.owner t.fileId) = .ok (seen.blobs.erase t.place) :=
    ho.tidy.remove_blob hid hd.content
  obtain ⟨m, hm⟩ := hd.adjust_dbWithout ho.whole ha hn
  rw [dbWithout] at hm
  rw [hd.id, delete_of_removable ho.whole hfile (Or.inl hremoved), Deletion.opposite_of_nonneg hd.size_nonneg]
  simp only [hm]
  rfl

/-- Without the file nothing more is to be seen. -/
theorem sameStores_erase (hd : Delivered t alone seen bytes f) (hv : alone.Vacant t) :
    SameStores ⟨alone.db, seen.blobs.erase t.place⟩ alone := by
  refine ⟨rfl, fun q content => ?_⟩
  show (seen.blobs.erase t.place).get? q = _ ↔ _
  rw [BlobTree.get?_erase]
  by_cases hq : q = t.place
  · rw [if_pos hq, hq, hv.noBlob]
  · rw [if_neg hq]
    exact hd.elsewhere q content hq

end Delivered

/-- Whatever an upload was given: if it succeeds, the deletion of its file succeeds and undoes it. -/
theorem Depot.delete_of_run {d : Depot} (hp : d.Proper) (ha : d.db.Accounted) (hid : IsSegment t.fileId)
    (hv : d.Vacant t) (events : List Multipart.Event)
    (hr : (Upload.run t d events).1.result? = some (.ok f)) :
    ∃ d', (Upload.run t d events).2.delete t.owner f.id = (.ok f, d') ∧ d.SameButDirectory t.owner d' := by
  have hapart : Apart False t d d (Hearing.start.hearAll events) (Upload.run t d events).1
      (Upload.run t d events).2 :=
    apart_feed hp.orderly hid (stepsLeft_settle t d .admission) (apart_start hp.orderly hid hv) events
  have hstanding := hapart.standing
  rw [result?_eq_some.mp hr] at hstanding
  obtain ⟨hdelivered, n, hn⟩ := hstanding
  have hran := hapart.kept.touches
  obtain ⟨m, hm⟩ := hdelivered.adjust_dbWithout hran.orderly.whole ha hn
  have hdeleted := (Custody.touches_removal hran.orderly hran.owned (-f.size)).1
  rw [dbWithout] at hm
  simp only [hm] at hdeleted
  exact ⟨_, hdelivered.delete_eq hran.orderly hid ha hn,
    (hdelivered.sameStores_erase hv).sameButDirectory (hran.trans hdeleted) hp.orderly hv⟩

namespace Service

/-- A deletion never stops half-way, and it undoes an upload. In every service that can come about, and for every
    owner and every body: if the upload of it is answered with a record, the deletion of that record is answered with
    it too, and then all tables and contents are what they were before the upload; only the directory of the owner
    may be new. And in every depot whose sizes are not negative, for every owner and id, a deletion is refused and
    nothing is changed, or the file is taken away. -/
theorem deletions_are_whole :
    (∀ s : Service, s.Reached → ∀ t : Ticket, s.IsNew t.fileId → ∀ (events : List Multipart.Event) (f : File),
      (Upload.run t s.depot events).1.result? = some (.ok f) →
        ∃ d', (Upload.run t s.depot events).2.delete t.owner f.id = (.ok f, d') ∧
          s.depot.SameButDirectory t.owner d') ∧
    ∀ d : Depot, d.WithinBounds → ∀ (owner : Int) (id : String),
      (∃ e, d.Refuses owner id e ∧ d.delete owner id = (.error e, d)) ∨
        d.TakesAway owner id (d.delete owner id).1 (d.delete owner id).2 :=
  ⟨fun _ h _ hnew events _ hr => delete_of_run h.proper h.accounted hnew.1 (h.vacant hnew) events hr,
    fun _ h owner id => delete_cases h owner id⟩

/-- What an upload of five bytes is given. -/
def eventsOfHello : List Multipart.Event :=
  [.part (some "file") (some "a.txt"), .data (Bytes.ofAscii "hello"), .partEnd, .bodyEnd]

/-- The file of five bytes. -/
def fileOfHello : File := ⟨"f", "a.txt", "txt", "text/plain; charset=utf-8", 5, .complete, "", 1, "2026"⟩

/-- The file is there, but its content is not, and fewer bytes are counted than it has. -/
def depotOfHello : Depot :=
  ⟨{ Database.fresh with
      users := some ⟨[⟨1, "alice", 0, .exact 3, "2026"⟩], 1⟩
      files := some [fileOfHello] }, .empty⟩

theorem withinBounds_hello : depotOfHello.WithinBounds where
  whole := ⟨rfl, rfl, rfl⟩
  sizes f hf := by
    rw [List.mem_singleton.mp hf]
    decide
  counters owner n hc := by
    by_cases howner : owner = 1
    · subst howner
      have hthree : depotOfHello.db.counter? 1 = some (.exact 3) := rfl
      cases hthree.symm.trans hc
      decide
    · have hnone : depotOfHello.db.counter? owner = none := by
        simp [depotOfHello, counter?, findUser, Ne.symm howner]
      rw [hnone] at hc
      cases hc

theorem deletions_are_whole_of_hello :
    (withAlice.Reached ∧
      (Upload.run ⟨1, "f", "2026", 100⟩ withAlice.depot eventsOfHello).1.result? = some (.ok fileOfHello) ∧
      ∃ d', (Upload.run ⟨1, "f", "2026", 100⟩ withAlice.depot eventsOfHello).2.delete 1 "f" =
        (.ok fileOfHello, d') ∧ withAlice.depot.SameButDirectory 1 d') ∧
    (depotOfHello.WithinBounds ∧ (depotOfHello.delete 1 "f").1 = .ok fileOfHello ∧
      depotOfHello.TakesAway 1 "f" (depotOfHello.delete 1 "f").1 (depotOfHello.delete 1 "f").2) := by
  have hreached : withAlice.Reached := Reached.fresh.run ⟨trivial, trivial⟩
  have hnew : withAlice.IsNew "f" :=
    ⟨⟨by decide, by decide, by decide, by decide⟩, fun a ha => (List.not_mem_nil ha).elim⟩
  have hresult : (Upload.run ⟨1, "f", "2026", 100⟩ withAlice.depot eventsOfHello).1.result? =
      some (.ok fileOfHello) := by decide +kernel
  have hdeleted : (depotOfHello.delete 1 "f").1 = .ok fileOfHello := by decide +kernel
  refine ⟨⟨hreached, hresult, ?_⟩, withinBounds_hello, hdeleted, ?_⟩
  · exact deletions_are_whole.1 withAlice hreached ⟨1, "f", "2026", 100⟩ hnew eventsOfHello fileOfHello hresult
  · rcases deletions_are_whole.2 depotOfHello withinBounds_hello 1 "f" with ⟨e, -, he⟩ | haway
    · rw [he] at hdeleted
      cases hdeleted
    · exact haway

end Service

end FileDepot
