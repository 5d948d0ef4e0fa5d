import FileDepot.Proofs.Multipart.Reader
import FileDepot.Proofs.Session.Contents
import FileDepot.Proofs.Session.Unseen

/-!
# Uploads do not show before they are finished

An upload is watched while anything else happens between the deliveries of its body. What else happens is
answered as if the upload had never been started, and in the end the upload has added its file or has
left nothing.
-/

namespace FileDepot

open BlobPath Database Depot Upload

/-- What can happen while an upload is watched: the next delivery of its body, or a turn of the session. -/
inductive Beat where
  | body (x : Delivery)
  | other (turn : Turn)
  deriving DecidableEq, Repr

namespace Beat

/-- The id that is generated for an upload that starts. -/
def id? : Beat → Option String
  | other (.start t _ _) => some t.fileId
  | _ => none

/-- The ids that are generated for uploads that start. -/
def ids (beats : List Beat) : List String := beats.filterMap id?

end Beat

namespace Delivery

/-- Whether a delivery is the last one of a body. -/
def Ends : Delivery → Prop
  | chunk _ atEnd => atEnd = true
  | interrupt => True

end Delivery

/-- An upload that is watched, the session in which it runs, and the turns that were made while it ran. The
    upload is not one of those that the session knows. -/
structure View where
  own : Sending
  session : Session
  reached : List Turn

namespace Session

/-- Watches an upload until it is done. -/
def watchFrom (own : Sending) (s : Session) : List Beat → View
  | [] => ⟨own, s, []⟩
  | .body x :: rest =>
    if own.result?.isSome then ⟨own, s, []⟩
    else watchFrom (own.take x s.depot).1 ⟨(own.take x s.depot).2, s.uploads, s.log⟩ rest
  | .other turn :: rest =>
    if own.result?.isSome then ⟨own, s, []⟩
    else
      let view := watchFrom own (s.step turn) rest
      { view with reached := turn :: view.reached }

theorem watchFrom_of_done {own : Sending} (h : own.result?.isSome = true) (s : Session) (beats : List Beat) :
    s.watchFrom own beats = ⟨own, s, []⟩ := by
  cases beats with
  | nil => rfl
  | cons beat rest => cases beat <;> rw [watchFrom, if_pos h]

/-- Starts an upload and watches it until it is done. -/
def watch (s : Session) (t : Ticket) (boundary : Bytes) (limit : Nat) (beats : List Beat) : View :=
  let begun := Sending.start t boundary limit s.depot
  watchFrom begun.1 ⟨begun.2, s.uploads, s.log⟩ beats

end Session

/-- A session with an upload in it that it does not know of, and the session in which the upload was never
    started. -/
structure Secluded (own : Sending) (seen alone : Session) : Prop where
  uploads : alone.uploads = seen.uploads
  log : alone.log = seen.log
  custody : Custody seen.depot ([own] ++ seen.uploads) seen.log
  lone : Custody alone.depot ([] ++ alone.uploads) alone.log
  standing : Standing alone.depot own.ticket own.hearing own.intake.upload seen.depot

namespace Secluded

variable {own : Sending} {seen alone : Session} {turn : Turn}

/-- As long as the upload is not done, there is at most a stub of its file. -/
theorem hidden {gone : Prop} {d : Depot} {t : Ticket} {h : Hearing} {u : Upload} (ho : d.Orderly)
    (ht : Tracks gone d t h u) (hw : u.stepsLeft = 0) (hu : u.result? = none) :
    d.db.Hidden t.fileId := by
  have hvacant : d.Vacant t → d.db.Hidden t.fileId := fun hv f hf hid => absurd hid (hv.noRow f hf)
  have hpending : d.Pending t → d.db.Hidden t.fileId := by
    rintro ⟨g, hg, hgid, -, hs⟩ f hf hid
    rwa [List.inj_on_of_nodup_map ho.unique hf hg (hid.trans hgid.symm)]
  have hbetween : ∀ {bytes scan}, d.Between t bytes scan → d.db.Hidden t.fileId := by
    intro bytes scan hb
    unfold Between at hb
    split at hb
    · exact hvacant hb.1
    · exact hpending hb.pending
  cases u with
  | betweenParts scan => exact hbetween ht.2
  | inParent scan text => exact hbetween ht.2
  | inOther scan => exact hbetween ht.2
  | inHead scan name head => exact hvacant ht.2.2.1
  | inBody scan staged => exact hpending ht.2.pending
  | done result => cases hu
  | _ => simp [stepsLeft] at hw

theorem operate (h : Secluded own seen alone) (hu : own.result? = none) (op : Operation) :
    (op.run alone.depot).1 = (op.run seen.depot).1 ∧
      Hides own.ticket (op.run seen.depot).2 (op.run alone.depot).2 := by
  have hmem : own ∈ [own] ++ seen.uploads := List.mem_cons_self
  have hx := hidden h.custody.orderly (h.custody.tracks own hmem) (h.custody.waiting own hmem) hu
  exact (hides_of_standing h.standing hu).run h.custody.orderly h.lone.orderly h.custody.contentful
    h.lone.contentful hx op

theorem start (h : Secluded own seen alone) (hu : own.result? = none) {t : Ticket} {boundary : Bytes}
    {limit : Nat} (ha : seen.AdmitsBeside [own] (.start t boundary limit)) :
    (Sending.start t boundary limit alone.depot).1 = (Sending.start t boundary limit seen.depot).1 ∧
      Hides own.ticket (Sending.start t boundary limit seen.depot).2
        (Sending.start t boundary limit alone.depot).2 := by
  obtain ⟨hid, hnew⟩ := ha
  have hne : t.fileId ≠ own.ticket.fileId := (hnew own List.mem_cons_self).symm
  have hseen := h.custody.vacant hnew
  have halone : alone.depot.Vacant t := by
    refine h.lone.vacant fun a hmem => hnew a ?_
    rw [h.uploads] at hmem
    exact List.mem_cons_of_mem _ hmem
  have hbeside : Beside False False own.ticket t seen.depot alone.depot .start .admission seen.depot
      alone.depot :=
    ⟨⟨.refl h.custody.orderly fun f hf heq => absurd heq (hseen.noRow f hf), hseen, rfl⟩,
      ⟨.refl h.lone.orderly fun f hf heq => absurd heq (halone.noRow f hf), halone, rfl⟩,
      hides_of_standing h.standing hu⟩
  obtain ⟨heq, hb⟩ := hbeside.settle hne hid
  refine ⟨?_, hb.hides⟩
  simp only [Sending.start, Intake.start, heq]

theorem take (h : Secluded own seen alone) (hu : own.result? = none) {n : Nat} {a : Sending}
    (hn : seen.uploads[n]? = some a) (x : Delivery) :
    (a.take x alone.depot).1 = (a.take x seen.depot).1 ∧
      Hides own.ticket (a.take x seen.depot).2 (a.take x alone.depot).2 := by
  have hmem : a ∈ seen.uploads := List.mem_of_getElem? hn
  have hseen : a ∈ [own] ++ seen.uploads := List.mem_cons_of_mem _ hmem
  have halone : a ∈ [] ++ alone.uploads := by
    rw [h.uploads]
    exact hmem
  have hne : a.ticket.fileId ≠ own.ticket.fileId := by
    have hids := h.custody.ids
    rw [List.singleton_append, List.map_cons, List.nodup_cons] at hids
    exact fun heq => hids.1 (heq ▸ List.mem_map_of_mem hmem)
  have hbeside : Beside (Removed seen.log a.ticket) (Removed alone.log a.ticket) own.ticket a.ticket
      seen.depot alone.depot a.hearing a.intake.upload seen.depot alone.depot :=
    ⟨⟨.refl h.custody.orderly (h.custody.owned hseen), h.custody.tracks a hseen⟩,
      ⟨.refl h.lone.orderly (h.lone.owned halone), h.lone.tracks a halone⟩,
      hides_of_standing h.standing hu⟩
  obtain ⟨heq, hb⟩ := hbeside.feed hne (h.custody.segments a hseen) (h.custody.waiting a hseen)
    (x.events a.intake)
  have hfeed : ∀ d, (a.take x d).2 = (feed a.ticket d a.intake.upload (x.events a.intake)).2 :=
    fun d => congrArg Prod.snd (a.feed_of_take x d)
  refine ⟨?_, ?_⟩
  · simp only [Sending.take, x.handTo_congr heq]
  · rw [hfeed, hfeed]
    exact hb.hides

/-- A turn of the session is answered as if the upload had never been started. -/
theorem other (h : Secluded own seen alone) (hu : own.result? = none)
    (ha : seen.AdmitsBeside [own] turn) : Secluded own (seen.step turn) (alone.step turn) := by
  have hcustody := Session.custody_step [own] h.custody ha
  have hlone : Custody (alone.step turn).depot ([] ++ (alone.step turn).uploads) (alone.step turn).log := by
    refine Session.custody_step [] h.lone ?_
    unfold Session.AdmitsBeside at ha ⊢
    split
    · refine ⟨ha.1, fun a hmem => ha.2 a ?_⟩
      rw [h.uploads] at hmem
      exact List.mem_cons_of_mem _ hmem
    · trivial
  have hsame : (alone.step turn).uploads = (seen.step turn).uploads ∧
      (alone.step turn).log = (seen.step turn).log ∧
        Hides own.ticket (seen.step turn).depot (alone.step turn).depot := by
    cases turn with
    | operate op =>
      obtain ⟨heq, hh⟩ := h.operate hu op
      refine ⟨h.uploads, ?_, hh⟩
      simp only [Session.step, h.log, heq]
    | start t boundary limit =>
      obtain ⟨heq, hh⟩ := h.start hu ha
      refine ⟨?_, ?_, hh⟩
      · simp only [Session.step, h.uploads, heq]
      · simp only [Session.step, h.log, heq]
    | deliver n x =>
      simp only [Session.step, h.uploads]
      cases hn : seen.uploads[n]? with
      | none =>
        refine ⟨rfl, ?_, hides_of_standing h.standing hu⟩
        simp only [h.log]
      | some a =>
        obtain ⟨heq, hh⟩ := h.take hu hn x
        refine ⟨?_, ?_, hh⟩
        · simp only [heq]
        · simp only [h.log, heq]
  exact ⟨hsame.1, hsame.2.1, hcustody, hlone, standing_of_hides hsame.2.2 hu⟩

/-- The next delivery for the upload does not exist where it was never started. -/
theorem body (h : Secluded own seen alone) (x : Delivery) :
    Secluded (own.take x seen.depot).1 ⟨(own.take x seen.depot).2, seen.uploads, seen.log⟩ alone := by
  have hmem : own ∈ [own] ++ seen.uploads := List.mem_cons_self
  have hget : ([own] ++ seen.uploads)[0]? = some own := rfl
  have hkept : Kept (Removed seen.log own.ticket) own.ticket seen.depot own.hearing own.intake.upload
      seen.depot :=
    ⟨.refl h.custody.orderly (h.custody.owned hmem), h.custody.tracks own hmem⟩
  have hapart := apart_feed h.lone.orderly (h.custody.segments own hmem) (h.custody.waiting own hmem)
    ⟨hkept, h.standing⟩ (x.events own.intake)
  refine ⟨h.uploads, h.log, h.custody.take hget x fun _ he => he, h.lone, ?_⟩
  rw [← own.feed_of_take x seen.depot] at hapart
  rw [own.ticket_take, own.hearing_take]
  exact hapart.standing

end Secluded

namespace Sending

variable {own : Sending} {x : Delivery} {d : Depot}

/-- The reader stands where the events have led, unless these have led to the end of the body. -/
def Agreed (own : Sending) : Prop := own.hearing.place = .ended ∨ own.intake.reader.Agrees own.hearing

theorem agreed_start (t : Ticket) (boundary : Bytes) (limit : Nat) (d : Depot) :
    (Sending.start t boundary limit d).1.Agreed :=
  Or.inr rfl

/-- What leads to the end of a body leads no further. -/
theorem hearAll_of_ended {h : Hearing} (hp : h.place = .ended) (events : List Multipart.Event) :
    h.hearAll events = h := by
  induction events with
  | nil => rfl
  | cons e rest ih =>
    rw [Hearing.hearAll, List.foldl_cons, Hearing.hear_of_ended hp]
    exact ih

theorem agreed_take (h : own.Agreed) (x : Delivery) (d : Depot) : (own.take x d).1.Agreed := by
  unfold Agreed
  rw [hearing_take]
  rcases h with hp | ha
  · left
    rw [hearAll_of_ended hp, hp]
  · cases x with
    | chunk bytes atEnd =>
      by_cases hover : own.intake.allowance < bytes.length
      · left
        rw [Delivery.events, if_pos hover]
        exact Multipart.Reader.hear_broken _ _
      · right
        have hreader : (own.take (.chunk bytes atEnd) d).1.intake.reader =
            (own.intake.reader.push bytes atEnd).1 := by
          simp only [take, Delivery.handTo, Intake.deliver, if_neg hover, Intake.handOver]
        rw [hreader, Delivery.events, if_neg hover]
        exact Multipart.Reader.agrees_push ha bytes atEnd
    | interrupt =>
      left
      exact Multipart.Reader.hear_broken _ _

/-- The last delivery leads to the end of the body. -/
theorem place_take_of_ends (h : own.Agreed) (hx : x.Ends) (d : Depot) :
    (own.take x d).1.hearing.place = .ended := by
  rw [hearing_take]
  rcases h with hp | ha
  · rw [hearAll_of_ended hp, hp]
  · cases x with
    | chunk bytes atEnd =>
      cases hx
      by_cases hover : own.intake.allowance < bytes.length
      · rw [Delivery.events, if_pos hover]
        exact Multipart.Reader.hear_broken _ _
      · rw [Delivery.events, if_neg hover]
        exact Multipart.Reader.place_push_atEnd ha bytes
    | interrupt => exact Multipart.Reader.hear_broken _ _

end Sending

namespace Upload

/-- At the end of its body an upload is done. -/
theorem result?_of_ended {gone : Prop} {d : Depot} {t : Ticket} {h : Hearing} {u : Upload}
    (ht : Tracks gone d t h u) (hw : u.stepsLeft = 0) (hp : h.place = .ended) :
    u.result?.isSome = true := by
  cases u with
  | done result => rfl
  | betweenParts scan => exact absurd (ht.1.symm.trans hp) (by decide)
  | inParent scan text => exact absurd (ht.1.symm.trans hp) (by decide)
  | inOther scan => exact absurd (ht.1.symm.trans hp) (by decide)
  | inHead scan name head => exact absurd (ht.1.symm.trans hp) (by decide)
  | inBody scan staged => exact absurd (ht.1.symm.trans hp) (by decide)
  | _ => simp [stepsLeft] at hw

end Upload

namespace Secluded

variable {own : Sending} {seen alone : Session}

theorem isSome_of_ended (h : Secluded own seen alone) (hp : own.hearing.place = .ended) :
    own.result?.isSome = true :=
  result?_of_ended (h.custody.tracks own List.mem_cons_self) (h.custody.waiting own List.mem_cons_self) hp

/-- The ids that have been generated after a turn, and those that will be. -/
theorem ids_step (s : Session) (turn : Turn) (rest : List Beat) :
    (s.step turn).uploads.map (·.ticket.fileId) ++ Beat.ids rest =
      s.uploads.map (·.ticket.fileId) ++ Beat.ids (.other turn :: rest) := by
  cases turn with
  | operate op => rfl
  | start t boundary limit =>
    simp only [Session.step, List.map_append, List.append_assoc]
    rfl
  | deliver n x =>
    simp only [Session.step]
    cases hn : s.uploads[n]? with
    | none => rfl
    | some a =>
      rw [Custody.map_id_set hn (a.ticket_take x s.depot)]
      rfl

/-- Whatever an upload is watched with, it stays apart from it, and it is done once its body has ended. -/
theorem watchFrom (h : Secluded own seen alone) (hagreed : own.Agreed) (beats : List Beat)
    (hids : ∀ id ∈ Beat.ids beats, IsSegment id)
    (hfresh : (own.ticket.fileId :: (seen.uploads.map (·.ticket.fileId) ++ Beat.ids beats)).Nodup) :
    Secluded (seen.watchFrom own beats).own (seen.watchFrom own beats).session
        (alone.run (seen.watchFrom own beats).reached) ∧
      ((∃ x, .body x ∈ beats ∧ x.Ends) → (seen.watchFrom own beats).own.result?.isSome = true) := by
  induction beats generalizing own seen alone with
  | nil => exact ⟨h, by simp⟩
  | cons beat rest ih =>
    by_cases hdone : own.result?.isSome = true
    · rw [Session.watchFrom_of_done hdone]
      exact ⟨h, fun _ => hdone⟩
    · have hu : own.result? = none := by simpa using hdone
      cases beat with
      | body x =>
        rw [Session.watchFrom, if_neg hdone]
        have hb := h.body x
        have ha := Sending.agreed_take hagreed x seen.depot
        obtain ⟨hsecl, hend⟩ := ih hb ha hids (by rw [own.ticket_take]; exact hfresh)
        refine ⟨hsecl, ?_⟩
        rintro ⟨y, hy, hyends⟩
        rcases List.mem_cons.mp hy with heq | hy
        · cases heq
          have hsome := hb.isSome_of_ended (Sending.place_take_of_ends hagreed hyends seen.depot)
          rw [Session.watchFrom_of_done hsome]
          exact hsome
        · exact hend ⟨y, hy, hyends⟩
      | other turn =>
        rw [Session.watchFrom, if_neg hdone]
        have ha : seen.AdmitsBeside [own] turn := by
          unfold Session.AdmitsBeside
          split
          · next t boundary limit =>
            refine ⟨hids t.fileId List.mem_cons_self, ?_⟩
            have hbeat : Beat.ids (.other (.start t boundary limit) :: rest) = t.fileId :: Beat.ids rest := rfl
            rw [hbeat, ← List.cons_append] at hfresh
            intro a hmem heq
            refine (List.nodup_append.mp hfresh).2.2 a.ticket.fileId ?_ t.fileId List.mem_cons_self heq
            exact List.mem_map_of_mem (f := (·.ticket.fileId)) hmem
          · trivial
        have hrest : ∀ id ∈ Beat.ids rest, IsSegment id := by
          intro id hid
          refine hids id ?_
          unfold Beat.ids at hid ⊢
          rw [List.filterMap_cons]
          split
          · exact hid
          · exact List.mem_cons_of_mem _ hid
        have hfresh' := hfresh
        rw [← ids_step] at hfresh'
        obtain ⟨hsecl, hend⟩ := ih (h.other hu ha) hagreed hrest hfresh'
        refine ⟨hsecl, ?_⟩
        rintro ⟨y, hy, hyends⟩
        rcases List.mem_cons.mp hy with heq | hy
        · cases heq
        · exact hend ⟨y, hy, hyends⟩

/-- An upload that has just been started. -/
theorem of_start {s : Session} (h : s.Reached) {t : Ticket} (hid : IsSegment t.fileId)
    (hnew : ∀ a ∈ s.uploads, a.ticket.fileId ≠ t.fileId) (boundary : Bytes) (limit : Nat) :
    Secluded (Sending.start t boundary limit s.depot).1
      ⟨(Sending.start t boundary limit s.depot).2, s.uploads, s.log⟩ s := by
  have hc := h.custody
  exact ⟨rfl, rfl, hc.start hid hnew boundary limit (fun _ he => he) (.refl _), hc,
    (apart_start hc.orderly hid (hc.vacant hnew)).standing⟩

end Secluded

namespace Session

theorem ticket_watchFrom (own : Sending) (s : Session) (beats : List Beat) :
    (s.watchFrom own beats).own.ticket = own.ticket := by
  induction beats generalizing own s with
  | nil => rfl
  | cons beat rest ih =>
    by_cases hdone : own.result?.isSome = true
    · rw [watchFrom_of_done hdone]
    · cases beat with
      | body x =>
        rw [watchFrom, if_neg hdone, ih, own.ticket_take]
      | other turn =>
        rw [watchFrom, if_neg hdone]
        exact ih own (s.step turn)

/-- An upload is all or nothing, and it does not show before it is finished. Watched from any session that can
    come about, with any deliveries of its body and any turns of the session in between, it makes no difference
    to the replies to these turns or to other uploads. While it is not done, the depot is the one in which it
    was never started, but for its stub and content. If it fails, the two are the same, unless the failure is
    that of counting the bytes of the finished file. If it succeeds, the depot has its file in addition, with
    the bytes of the file part of its body, and these are counted. And it is done once its body has ended. -/
theorem upload_is_secluded {s : Session} (h : s.Reached) {t : Ticket} (boundary : Bytes) (limit : Nat)
    (beats : List Beat) (hids : ∀ id ∈ t.fileId :: Beat.ids beats, IsSegment id)
    (hfresh : (t.fileId :: (s.uploads.map (·.ticket.fileId) ++ Beat.ids beats)).Nodup) :
    let view := s.watch t boundary limit beats
    let alone := s.run view.reached
    view.session.log = alone.log ∧ view.session.uploads = alone.uploads ∧
      (view.own.result? = none → Hides t view.session.depot alone.depot) ∧
      (∀ cause, view.own.result? = some (.error cause) →
        SameStores view.session.depot alone.depot ∨
          ∃ f, Delivered t alone.depot view.session.depot (Hearing.filePart view.own.heard) f ∧
            (alone.depot.db.adjustSpaceUsed t.owner f.size).1 = .error cause) ∧
      (∀ f, view.own.result? = some (.ok f) →
        Delivered t alone.depot view.session.depot (Hearing.filePart view.own.heard) f ∧
          ∃ n, (alone.depot.db.adjustSpaceUsed t.owner f.size).1 = .ok n) ∧
      ((∃ x, .body x ∈ beats ∧ x.Ends) → view.own.result?.isSome = true) := by
  intro view alone
  have hnew : ∀ a ∈ s.uploads, a.ticket.fileId ≠ t.fileId := by
    intro a ha heq
    rw [List.nodup_cons, List.mem_append] at hfresh
    exact hfresh.1 (Or.inl (heq ▸ List.mem_map_of_mem (f := (·.ticket.fileId)) ha))
  have hstart := Secluded.of_start h (hids t.fileId List.mem_cons_self) hnew boundary limit
  obtain ⟨hsecl, hend⟩ := hstart.watchFrom (Sending.agreed_start t boundary limit s.depot) beats
    (fun id hid => hids id (List.mem_cons_of_mem _ hid)) hfresh
  have ht : view.own.ticket = t := ticket_watchFrom _ _ beats
  have hstanding : Standing alone.depot view.own.ticket view.own.hearing view.own.intake.upload
      view.session.depot := hsecl.standing
  rw [ht] at hstanding
  refine ⟨hsecl.log.symm, hsecl.uploads.symm, fun hu => ?_, fun cause hr => ?_, fun f hr => ?_, hend⟩
  · exact hides_of_standing hstanding hu
  · rw [result?_eq_some.mp hr] at hstanding
    exact hstanding
  · rw [result?_eq_some.mp hr] at hstanding
    exact hstanding

/-- The session in which a user was made. -/
def sessionOfAlice : Session := fresh.run [.operate (.createUser "alice" 0 "2026")]

/-- The upload of the two bytes `hi`, with a folder that is made between them. -/
def beatsOfHi : List Beat :=
  [.body (.chunk (Bytes.ofAscii
      "--b\r\nContent-Disposition: form-data; name=\"file\"; filename=\"a.txt\"\r\n\r\nh") false),
    .other (.operate (.createFolder 1 "docs" "" "d" "2026")),
    .body (.chunk (Bytes.ofAscii "i\r\n--b--") true)]

theorem upload_is_secluded_of_hi :
    sessionOfAlice.Reached ∧
      (sessionOfAlice.watch ⟨1, "f", "2026", 100⟩ (Bytes.ofAscii "b") 1000 beatsOfHi).own.result? =
        some (.ok fileOfHi) ∧
      Delivered ⟨1, "f", "2026", 100⟩
        (sessionOfAlice.run [.operate (.createFolder 1 "docs" "" "d" "2026")]).depot
        (sessionOfAlice.watch ⟨1, "f", "2026", 100⟩ (Bytes.ofAscii "b") 1000 beatsOfHi).session.depot
        (Bytes.ofAscii "hi") fileOfHi := by
  have hreached : sessionOfAlice.Reached := Reached.fresh.run ⟨trivial, trivial⟩
  have hids : ∀ id ∈ "f" :: Beat.ids beatsOfHi, IsSegment id := by
    intro id hid
    rw [List.mem_singleton.mp hid]
    exact ⟨by decide, by decide, by decide, by decide⟩
  have hresult : (sessionOfAlice.watch ⟨1, "f", "2026", 100⟩ (Bytes.ofAscii "b") 1000
      beatsOfHi).own.result? = some (.ok fileOfHi) := by decide +kernel
  have hturns : (sessionOfAlice.watch ⟨1, "f", "2026", 100⟩ (Bytes.ofAscii "b") 1000
      beatsOfHi).reached = [.operate (.createFolder 1 "docs" "" "d" "2026")] := by decide +kernel
  have hbytes : Hearing.filePart (sessionOfAlice.watch ⟨1, "f", "2026", 100⟩ (Bytes.ofAscii "b") 1000
      beatsOfHi).own.heard = Bytes.ofAscii "hi" := by decide +kernel
  obtain ⟨-, -, -, -, hsuccess, -⟩ := upload_is_secluded hreached (t := ⟨1, "f", "2026", 100⟩)
    (Bytes.ofAscii "b") 1000 beatsOfHi hids (by decide +kernel)
  obtain ⟨hdelivered, -⟩ := hsuccess fileOfHi hresult
  rw [hturns, hbytes] at hdelivered
  exact ⟨hreached, hresult, hdelivered⟩

end Session

end FileDepot
