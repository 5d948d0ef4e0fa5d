import FileDepot.Proofs.Traffic.Books
import FileDepot.Proofs.Upload.Progress

/-!
# Uploads and the counter

What an upload does, over any number of accesses, to the counter of an owner and to the bytes that are stored
for the owner. An upload that waits for its body owes nothing: either it has changed neither, or it has counted
what it stored and is done.
-/

namespace FileDepot

open Database Depot

namespace Database

variable {db db' : Database} {owner : Int}

/-- How the counter of an owner follows the stored bytes from one moment to another. -/
inductive Follows (owner : Int) (db db' : Database) : Prop
  | same (hc : db'.counter? owner = db.counter? owner)
      (hb : storedBytes db'.fileRows owner = storedBytes db.fileRows owner)
  | called (hc : db'.counter? owner =
      (db.counter? owner).map (·.add (storedBytes db'.fileRows owner - storedBytes db.fileRows owner)))
  | created (hc : db'.counter? owner = some (.exact 0)) (hb : storedBytes db'.fileRows owner = 0)

/-- A call that pays for a change of the stored bytes. -/
theorem Follows.of_call (delta : Int) (hc : db'.counter? owner = (db.counter? owner).map (·.add delta))
    (hb : storedBytes db'.fileRows owner = storedBytes db.fileRows owner + delta) : Follows owner db db' := by
  have hdelta : delta = storedBytes db'.fileRows owner - storedBytes db.fileRows owner := by omega
  rw [hdelta] at hc
  exact .called hc

theorem SameRecords.storedBytes_eq (h : SameRecords db db') (owner : Int) :
    storedBytes db'.fileRows owner = storedBytes db.fileRows owner := by
  obtain ⟨g, hg, hrows⟩ := h.rows
  rw [hrows]
  exact storedBytes_map db.fileRows owner fun f _ => (hg f).counted owner

theorem Follows.of_sameRecords (h : SameRecords db db') (owner : Int) : Follows owner db db' :=
  .same (counter?_congr h.users owner) (h.storedBytes_eq owner)

end Database

namespace Upload

variable {gone : Prop} {d d₀ : Depot} {t : Ticket} {h : Hearing} {u : Upload} {owner : Int}

/-- Until an upload is over, the only row under its id is the stub. -/
theorem pending_of_tracks (ho : d.Orderly) (ht : Tracks gone d t h u) (hover : u.isOver = false) :
    ∀ f ∈ d.db.fileRows, f.id = t.fileId → f.state = .pending := by
  have hvacant : d.Vacant t → ∀ f ∈ d.db.fileRows, f.id = t.fileId → f.state = .pending := by
    intro hv f hf hid
    exact absurd hid (hv.noRow f hf)
  have hpending : d.Pending t → ∀ f ∈ d.db.fileRows, f.id = t.fileId → f.state = .pending := by
    rintro ⟨g, hg, hgid, -, hgs⟩ f hf hid
    rw [List.inj_on_of_nodup_map ho.unique hf hg (hid.trans hgid.symm)]
    exact hgs
  have hbetween : ∀ {bytes scan}, d.Between t bytes scan →
      ∀ f ∈ d.db.fileRows, f.id = t.fileId → f.state = .pending := by
    intro bytes scan hb
    unfold Between at hb
    split at hb
    · exact hvacant hb.1
    · exact hpending hb.pending
  cases u with
  | admission => exact hvacant ht.1
  | betweenParts scan => exact hbetween ht.2
  | inParent scan text => exact hbetween ht.2
  | inOther scan => exact hbetween ht.2
  | inHead scan name head => exact hvacant ht.2.2.1
  | inBody scan staged => exact hpending ht.2.pending
  | insertStub scan name head ended => exact hvacant ht.2.2.1
  | makeDirectory scan staged head ended => exact hpending ht.2.2.1
  | createBlob scan staged head ended => exact hpending ht.2.2.1
  | write scan staged bytes ended =>
    obtain ⟨-, before, hstored, -⟩ := ht
    exact hpending hstored.pending
  | finish parent staged => exact hpending ht.2.pending
  | removeBlob next => exact hpending ht
  | removeStub next => exact hpending ht.1
  | account f => cases hover
  | explainMiss parent => cases hover
  | done result => cases hover

/-- What an upload that started in the depot `d₀` has done for the counter of an owner: nothing yet but to owe
    what it stored, or all that it had to do. -/
inductive Booked (t : Ticket) (owner : Int) (d₀ : Depot) (u : Upload) (d : Depot) : Prop
  | owing (hc : d.db.counter? owner = d₀.db.counter? owner)
      (hb : storedBytes d.db.fileRows owner =
        storedBytes d₀.db.fileRows owner + ((Request.upload t u).due owner).getD 0)
  | paid (result : Outcome File) (hu : u = done result) (hf : Follows owner d₀.db d.db)

namespace Booked

theorem refl (hu : ∀ f, u ≠ account f) : Booked t owner d u d := by
  refine .owing rfl ?_
  rw [Request.due_upload hu]
  exact (Int.add_zero _).symm

/-- An access either leaves the upload owing, or pays what is due. -/
theorem advance (hb : Booked t owner d₀ u d) (hk : Kept gone t d₀ h u d) (hs : 0 < u.stepsLeft) :
    Booked t owner d₀ (advance t d u).1 (advance t d u).2 := by
  cases hb with
  | paid result hu hf =>
    rw [hu] at hs
    cases hs
  | owing hc hb =>
    cases hd : (Request.upload t u).due owner with
    | none =>
      rw [hd, Option.getD_none, Int.add_zero] at hb
      have ho := hk.touches.orderly
      have hdefers := Request.defers_upload ho.whole ho.unique hd (pending_of_tracks ho hk.tracks)
      exact .owing (hdefers.counter.trans hc) (hdefers.bytes.trans (by rw [hb]))
    | some delta =>
      rw [hd, Option.getD_some] at hb
      cases u with
      | account f =>
        simp only [Request.due, Option.ite_none_right_eq_some, Option.some.injEq] at hd
        obtain ⟨rfl, rfl⟩ := hd
        have hdb := (Request.upload t (account f)).db_step d
        simp only [Request.step, Request.dbAfter] at hdb
        have hcount : (Upload.advance t d (account f)).2.db.counter? t.owner =
            (d₀.db.counter? t.owner).map (·.add f.size) := by
          rw [hdb, counter?_adjustSpaceUsed_self, hc]
        have hrows : (Upload.advance t d (account f)).2.db.fileRows = d.db.fileRows := by
          rw [hdb]
          exact (onlyUsers_adjustSpaceUsed d.db t.owner f.size).fileRows
        have hdone : ∃ result, (Upload.advance t d (account f)).1 = done result := by
          simp only [Upload.advance]
          split
          · exact ⟨_, rfl⟩
          · exact ⟨_, rfl⟩
        obtain ⟨result, hresult⟩ := hdone
        rw [← hrows] at hb
        exact .paid result hresult (.of_call f.size hcount hb)
      | _ => cases hd

theorem receive (hb : Booked t owner d₀ u d) (e : Multipart.Event) :
    Booked t owner d₀ (u.receive e) d := by
  cases hb with
  | owing hc hb =>
    refine .owing hc ?_
    have hdue := (Request.upload t u).due_receive e owner
    rw [Request.receive] at hdue
    rw [hdue]
    exact hb
  | paid result hu hf =>
    rw [hu]
    exact .paid result rfl hf

/-- An upload that waits for its body owes nothing. -/
theorem follows (hb : Booked t owner d₀ u d) (hw : u.stepsLeft = 0) : Follows owner d₀.db d.db := by
  cases hb with
  | owing hc hb =>
    have hne : ∀ f, u ≠ account f := by
      rintro f rfl
      cases hw
    rw [Request.due_upload hne, Option.getD_none, Int.add_zero] at hb
    exact .same hc hb
  | paid result hu hf => exact hf

end Booked

/-- While an upload starts, the counter of every owner follows the stored bytes. -/
theorem follows_start (hid : BlobPath.IsSegment t.fileId) (ho : d.Orderly) (hv : d.Vacant t) (owner : Int) :
    Follows owner d.db (settle t d admission).2.db := by
  have hown : ∀ f ∈ d.db.fileRows, f.id = t.fileId → f.ownerId = t.owner := by
    intro f hf hfid
    exact absurd hfid (hv.noRow f hf)
  have hrun := settle_keeps (t := t)
    (P := fun u e => Kept False t d .start u e ∧ Booked t owner d u e)
    (fun u e hs hp => ⟨kept_advance hid hp.1, hp.2.advance hp.1 hs⟩) d admission
    ⟨⟨.refl ho hown, hv, rfl⟩, .refl (by simp)⟩
  exact hrun.2.follows (stepsLeft_settle t d admission)

/-- And while it takes events of its body. -/
theorem follows_feed (hid : BlobPath.IsSegment t.fileId) (ho : d.Orderly)
    (hown : ∀ f ∈ d.db.fileRows, f.id = t.fileId → f.ownerId = t.owner) (hw : u.stepsLeft = 0)
    (ht : Tracks gone d t h u) (events : List Multipart.Event) (owner : Int) :
    Follows owner d.db (feed t d u events).2.db := by
  have hne : ∀ f, u ≠ account f := by
    rintro f rfl
    cases hw
  have hrun := feed_keeps (t := t)
    (P := fun h u e => Kept gone t d h u e ∧ Booked t owner d u e)
    (fun h u e hs hp => ⟨kept_advance hid hp.1, hp.2.advance hp.1 hs⟩)
    (fun h u e x hw hp => ⟨⟨hp.1.touches, tracks_receive hp.1.tracks hw x⟩, hp.2.receive x⟩)
    events d h u hw ⟨⟨.refl ho hown, ht⟩, .refl hne⟩
  exact hrun.1.2.follows hrun.2

end Upload

end FileDepot
