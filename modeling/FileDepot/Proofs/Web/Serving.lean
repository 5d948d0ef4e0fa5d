import FileDepot.Proofs.Web.Answers
import FileDepot.Proofs.Web.Identity

/-!
# A request from its head to its answer

A request is answered with the claims of its token or not at all. Whatever arrives of its body, the depot is as it
was until the request is carried out, but for an upload under way; and once there is an answer, it tells what has
become of the depot.
-/

namespace FileDepot

open BlobPath Database Depot Upload

/-! ## Uploads -/

/-- If an upload has touched no more than is its own, and nothing is to be seen of it, then nothing of it is there
    but perhaps the directory of its owner. -/
theorem SameStores.sameButDirectory {t : Ticket} {d d' : Depot} (h : SameStores d' d) (ht : Touches t d d')
    (hd : d.Orderly) (hv : d.Vacant t) : d.SameButDirectory t.owner d' := by
  have helsewhere : ∀ q, q ≠ ofOwner t.owner → d'.blobs.get? q = d.blobs.get? q := by
    intro q hq
    by_cases hplace : q = t.place
    · subst hplace
      rw [hv.noBlob]
      cases hg : d'.blobs.get? t.place with
      | none => rfl
      | some entry =>
        cases entry with
        | directory => exact absurd hg (ht.orderly.tidy.ofIds_ne_directory t.owner t.fileId)
        | blob content =>
          have hbefore := (h.contents _ _).mp hg
          rw [hv.noBlob] at hbefore
          cases hbefore
    · exact ht.blobs.elsewhere q hplace hq
  refine ⟨h.db, helsewhere, ?_⟩
  rcases ht.blobs.directory with hsame | hmade
  · exact Or.inl hsame
  · rcases hd.tidy.ofOwner_cases t.owner with hnone | hdir
    · refine Or.inr ⟨hnone, hmade, fun below hbelow => ?_⟩
      rw [helsewhere _ (by simpa [ofOwner] using hbelow)]
      exact hd.tidy.get?_below hnone hbelow
    · exact Or.inl (hmade.trans hdir.symm)

namespace Sending

variable {t : Ticket} {d d' : Depot} {own : Sending} {x : Delivery}

/-- What is known of an upload that nobody else has come between. -/
structure Underway (t : Ticket) (d : Depot) (own : Sending) (d' : Depot) : Prop where
  ticket : own.ticket = t
  apart : Apart False t d d own.hearing own.intake.upload d'
  waiting : own.intake.upload.stepsLeft = 0
  agreed : own.Agreed
  lawful : d'.db.Lawful
  others : ∀ other, other ≠ t.owner → d.SamePart other d'

namespace Underway

theorem start (hp : d.Proper) (hid : IsSegment t.fileId) (hv : d.Vacant t) (boundary : Bytes) (limit : Nat) :
    (Sending.start t boundary limit d).1.Underway t d (Sending.start t boundary limit d).2 where
  ticket := rfl
  apart := apart_start hp.orderly hid hv
  waiting := stepsLeft_settle t d .admission
  agreed := agreed_start t boundary limit d
  lawful := (steps_settle t d .admission).lawful_of_owner hp.lawful
  others _ hne := samePart_settle hp.lawful hne .admission

theorem take (h : own.Underway t d d') (hp : d.Proper) (hid : IsSegment t.fileId) (x : Delivery) :
    (own.take x d').1.Underway t d (own.take x d').2 := by
  obtain ⟨rfl, hapart, hw, hagreed, hl, hothers⟩ := h
  have hfeed := own.feed_of_take x d'
  have happart := apart_feed hp.orderly hid hw hapart (x.events own.intake)
  have hwaiting := stepsLeft_feed own.ticket d' hw (x.events own.intake)
  have hsteps := steps_feed own.ticket d' own.intake.upload (x.events own.intake)
  rw [← hfeed, ← own.hearing_take x d'] at happart
  rw [← hfeed] at hwaiting hsteps
  refine ⟨own.ticket_take x d', happart, hwaiting, agreed_take hagreed x d', hsteps.lawful_of_owner hl, ?_⟩
  intro other hne
  have hpart := samePart_feed hl hne own.intake.upload (x.events own.intake)
  rw [← hfeed] at hpart
  exact (hothers other hne).trans hpart

/-- At the end of its body an upload is done. -/
theorem isSome_take (h : own.Underway t d d') (hp : d.Proper) (hid : IsSegment t.fileId)
    (hx : own.result?.isSome = true ∨ x.Ends) : (own.take x d').1.result?.isSome = true := by
  rcases hx with hdone | hx
  · obtain ⟨result, hresult⟩ := Option.isSome_iff_exists.mp hdone
    have hfeed := own.feed_of_take x d'
    rw [result?_eq_some.mp hresult, feed_of_done] at hfeed
    rw [Sending.result?, Intake.result?, (Prod.mk.inj hfeed).1]
    rfl
  · have hnext := h.take hp hid x
    exact result?_of_ended hnext.apart.kept.tracks hnext.waiting (place_take_of_ends h.agreed hx d')

/-- An upload that is done is answered with what has become of it. A failure leaves nothing, unless it is that the
    bytes of the finished file could not be counted. -/
theorem concludes (h : own.Underway t d d') (hp : d.Proper) (hv : d.Vacant t) {result : Outcome File}
    (hr : own.result? = some result) :
    (Response.ofOutcome (fun _ => Response.empty 201) result).Concludes t.owner d d' := by
  obtain ⟨rfl, hapart, -, -, hl, hothers⟩ := h
  have hstanding := hapart.standing
  rw [result?_eq_some.mp hr] at hstanding
  cases result with
  | ok f => exact .of_tellsOf .created hothers
  | error cause =>
    have hfail : ¬ (Response.refuse (.ofError cause)).IsSuccess := Response.not_isSuccess_refuse _
    refine ⟨fun _ hfit => ?_, fun hs => absurd hs hfail, hothers⟩
    rcases hstanding with hsame | ⟨f, hdelivered, hadjust⟩
    · exact hsame.sameButDirectory hapart.kept.touches hp.orderly hv
    · have howner : own.ticket.owner ∈ d.db.userIds := by
        rw [← userIds_adjustSpaceUsed d.db own.ticket.owner f.size, ← hdelivered.rest, ← hdelivered.owner]
        exact hl.fileOwners f hdelivered.row
      have hafter : (d.db.adjustSpaceUsed own.ticket.owner f.size).2.CountersFit := by
        rw [← hdelivered.rest]
        exact hfit
      obtain ⟨n, hn⟩ := adjustSpaceUsed_ok howner f.size hafter
      rw [hadjust] at hn
      cases hn

end Underway

end Sending

/-! ## Requests -/

namespace Exchange

variable {site : Site} {head : RequestHead} {arrival : Arrival} {d d' : Depot} {e : Exchange} {x : Delivery}

/-- Takes what arrives of the body, piece after piece. -/
def takeAll (e : Exchange) (body : List Delivery) (d : Depot) : Exchange × Depot :=
  body.foldl (fun state x => state.1.take x state.2) (e, d)

/-- Answers a request whose body arrives in the given pieces while nothing else happens. -/
def run (site : Site) (head : RequestHead) (arrival : Arrival) (body : List Delivery) (d : Depot) :
    Exchange × Depot :=
  let begun := start site head arrival d
  begun.1.takeAll body begun.2

/-- An answer with what is added to it for browsers. -/
def dressed (e : Exchange) (raw : Response) : Response :=
  (if e.head.method = "HEAD" then raw.headOnly else raw).withHeaders e.originHeaders

theorem response?_eq (e : Exchange) : e.response? = e.rawResponse?.map e.dressed := rfl

theorem isSuccess_dressed {e : Exchange} {raw : Response} : (e.dressed raw).IsSuccess ↔ raw.IsSuccess := by
  unfold dressed
  split <;> rfl

theorem isSome_of_answered {e : Exchange} {response : Response} (he : e.progress = .answered response) :
    e.rawResponse?.isSome = true := by
  simp only [rawResponse?, he, Option.isSome_some]

/-- How far a request has come that nobody else has come between, and what it has made of the depot. -/
inductive Answering (site : Site) (head : RequestHead) (arrival : Arrival) (d : Depot) : Progress → Depot → Prop
  | idle (response : Response) (h : response.IsSuccess → ¬ head.IsGuarded) :
    Answering site head arrival d (.answered response) d
  | uploading (claims : Claims) (hc : head.claims (some site.secret) arrival.now = .ok claims) (own : Sending)
      (d' : Depot) (h : own.Underway (ticket site arrival claims.subject) d d') :
    Answering site head arrival d (.uploading own.intake) d'
  | collecting (claims : Claims) (hc : head.claims (some site.secret) arrival.now = .ok claims) (task : JsonTask)
      (received : Bytes) : Answering site head arrival d (.collecting task claims.subject received) d
  | concluded (claims : Claims) (hc : head.claims (some site.secret) arrival.now = .ok claims)
      (response : Response) (d' : Depot) (h : response.Concludes claims.subject d d') :
    Answering site head arrival d (.answered response) d'

section Answering

variable (hp : d.Proper) (hid : IsSegment arrival.newId)

include hp hid

theorem answering_start (hv : ∀ owner, d.Vacant (ticket site arrival owner)) :
    Answering site head arrival d (start site head arrival d).1.progress (start site head arrival d).2 := by
  have hopening := opening_start site head arrival d
  generalize (start site head arrival d).1.progress = progress at hopening ⊢
  generalize (start site head arrival d).2 = d' at hopening ⊢
  cases hopening with
  | idle response h => exact .idle response h
  | upload claims hc boundary =>
    exact .uploading claims hc _ _ (Sending.Underway.start hp hid (hv claims.subject) boundary site.uploadBodyLimit)
  | json claims hc task => exact .collecting claims hc task []
  | direct claims hc action id => exact .concluded claims hc _ _ (concludes_answer hp action id claims.subject)

/-- Whatever arrives of the body, a request goes on as it should. -/
theorem answering_take (h : Answering site head arrival d e.progress d') (x : Delivery) :
    Answering site head arrival d (e.take x d').1.progress (e.take x d').2 := by
  generalize hprogress : e.progress = progress at h
  cases h with
  | idle response hidle =>
    rw [take_of_answered hprogress, hprogress]
    exact .idle response hidle
  | uploading claims hc own d' hown =>
    rw [take_of_uploading hprogress]
    exact .uploading claims hc (own.take x d').1 _ (hown.take hp hid x)
  | collecting claims hc task received =>
    rcases take_of_collecting hprogress x d with ⟨more, -, htake⟩ | ⟨refusal, htake⟩ | ⟨body, htake⟩
    · rw [htake]
      exact .collecting claims hc task more
    · rw [htake]
      exact .idle _ fun hs => absurd hs (Response.not_isSuccess_refuse refusal)
    · rw [htake]
      exact .concluded claims hc _ _ (concludes_perform hp task claims.subject e.arrival body)
  | concluded claims hc response d' hconcludes =>
    rw [take_of_answered hprogress, hprogress]
    exact .concluded claims hc response d' hconcludes

/-- Once all of the body has arrived a request is answered, and it stays so. -/
theorem isSome_take (h : Answering site head arrival d e.progress d') (x : Delivery)
    (hx : e.rawResponse?.isSome = true ∨ x.Ends) : (e.take x d').1.rawResponse?.isSome = true := by
  generalize hprogress : e.progress = progress at h
  cases h with
  | idle response hidle =>
    rw [take_of_answered hprogress]
    exact isSome_of_answered hprogress
  | uploading claims hc own d' hown =>
    have hdone : own.intake.result?.isSome = true ∨ x.Ends := by
      simpa only [rawResponse?, hprogress, Option.isSome_map] using hx
    rw [take_of_uploading hprogress]
    simp only [rawResponse?, Option.isSome_map]
    exact hown.isSome_take hp hid hdone
  | collecting claims hc task received =>
    have hends : x.Ends := by
      simpa only [rawResponse?, hprogress, Option.isSome_none, Bool.false_eq_true, false_or] using hx
    rcases take_of_collecting hprogress x d with ⟨more, hmore, -⟩ | ⟨refusal, htake⟩ | ⟨body, htake⟩
    · exact absurd hends hmore
    · rw [htake]
      exact isSome_of_answered rfl
    · rw [htake]
      exact isSome_of_answered rfl
  | concluded claims hc response d' hconcludes =>
    rw [take_of_answered hprogress]
    exact isSome_of_answered hprogress

/-- So it goes through a whole body. -/
theorem answering_takeAll (h : Answering site head arrival d e.progress d') (body : List Delivery) :
    Answering site head arrival d (e.takeAll body d').1.progress (e.takeAll body d').2 ∧
      (e.rawResponse?.isSome = true ∨ (∃ x ∈ body, x.Ends) →
        (e.takeAll body d').1.rawResponse?.isSome = true) := by
  induction body generalizing e d' with
  | nil => exact ⟨h, fun hx => hx.resolve_right (by simp)⟩
  | cons x rest ih =>
    obtain ⟨hanswering, hsome⟩ := ih (answering_take hp hid h x)
    refine ⟨hanswering, fun hx => hsome ?_⟩
    rcases hx with hdone | ⟨y, hy, hends⟩
    · exact Or.inl (isSome_take hp hid h x (Or.inl hdone))
    · rcases List.mem_cons.mp hy with rfl | hy
      · exact Or.inl (isSome_take hp hid h y (Or.inr hends))
      · exact Or.inr ⟨y, hy, hends⟩

end Answering

/-- What is known of an answer: it comes from a request that needs no token, or the token was valid. -/
theorem Answering.raw (h : Answering site head arrival d e.progress d') (hp : d.Proper)
    (hv : ∀ owner, d.Vacant (ticket site arrival owner)) {raw : Response} (hr : e.rawResponse? = some raw) :
    (d' = d ∧ (raw.IsSuccess → ¬ head.IsGuarded)) ∨
      ∃ claims, head.claims (some site.secret) arrival.now = .ok claims ∧ raw.Concludes claims.subject d d' := by
  generalize hprogress : e.progress = progress at h
  cases h with
  | idle response hidle =>
    simp only [rawResponse?, hprogress, Option.some.injEq] at hr
    subst hr
    exact Or.inl ⟨rfl, hidle⟩
  | uploading claims hc own d' hown =>
    simp only [rawResponse?, hprogress, Option.map_eq_some_iff] at hr
    obtain ⟨result, hresult, rfl⟩ := hr
    exact Or.inr ⟨claims, hc, hown.concludes hp (hv claims.subject) hresult⟩
  | collecting claims hc task received =>
    simp only [rawResponse?, hprogress] at hr
    cases hr
  | concluded claims hc response d' hconcludes =>
    simp only [rawResponse?, hprogress, Option.some.injEq] at hr
    subst hr
    exact Or.inr ⟨claims, hc, hconcludes⟩

/-- Without the claims of a valid token nothing happens. -/
theorem Answering.depot {progress : Progress} (h : Answering site head arrival d progress d')
    (hc : ∀ claims, head.claims (some site.secret) arrival.now ≠ .ok claims) : d' = d := by
  cases h with
  | idle response hidle => rfl
  | uploading claims hclaims => exact absurd hclaims (hc claims)
  | collecting claims hclaims => rfl
  | concluded claims hclaims => exact absurd hclaims (hc claims)

end Exchange

namespace Service

variable {s : Service} {site : Site} {arrival : Arrival}

/-- The last request of a service takes what arrives of its body while nothing else happens. -/
theorem run_body {served : Served} {earlier : List Served} (hs : s.requests = earlier ++ [served])
    (body : List Delivery) :
    (s.run (body.map (.body earlier.length))).depot = (served.exchange.takeAll body s.depot).2 ∧
      ∃ heard, (s.run (body.map (.body earlier.length))).requests =
        earlier ++ [⟨(served.exchange.takeAll body s.depot).1, heard⟩] := by
  induction body generalizing s served with
  | nil => exact ⟨rfl, served.heard, hs⟩
  | cons x rest ih =>
    have hlast : s.requests[earlier.length]? = some served := by simp [hs]
    have hnext : (s.step (.body earlier.length x)).requests = earlier ++ [(served.take x s.depot).1] ∧
        (s.step (.body earlier.length x)).depot = (served.take x s.depot).2 := by
      simp only [step, hlast]
      exact ⟨by simp [hs], rfl⟩
    have hrest := ih hnext.1
    rw [hnext.2] at hrest
    exact hrest

/-- A request whose body arrives while nothing else happens is one of the things that can happen to a service. -/
theorem run_request (s : Service) (site : Site) (head : RequestHead) (arrival : Arrival) (body : List Delivery) :
    (s.run (.request site head arrival :: body.map (.body s.requests.length))).depot =
        (Exchange.run site head arrival body s.depot).2 ∧
      ∃ heard, (s.run (.request site head arrival :: body.map (.body s.requests.length))).requests =
        s.requests ++ [⟨(Exchange.run site head arrival body s.depot).1, heard⟩] :=
  run_body (s := s.step (.request site head arrival)) rfl body

/-- There is nothing of a file under an id that is new to a service. -/
theorem Reached.vacant (h : s.Reached) {t : Ticket} (hnew : s.IsNew t.fileId) : s.depot.Vacant t := by
  obtain ⟨σ, hσ, hshows⟩ := h.shows
  rw [← hshows.depot]
  exact hσ.custody.vacant fun a ha => hnew.2 a (hshows.uploads.mem_iff.mp ha)

/-- A failure means that nothing has happened, and nothing happens without a valid token. In every service that can
    come about, and for every request, whatever arrives of its body: once all has arrived there is an answer. If it
    tells of no success, the records and contents are as they were, but that there may be an empty directory for
    the owner whose token it was; the counters have to fit afterwards. If it tells of success, and the request names
    a resource and does more than ask what is allowed, the token that counts is valid, the parts of all others than
    its owner are as they were, and the answer tells of nothing but rows of the owner. Without a valid token nothing
    changes at all. -/
theorem requests_act_for_their_token (h : s.Reached) (site : Site) (head : RequestHead) {arrival : Arrival}
    (ha : s.Admits (.request site head arrival)) (body : List Delivery) :
    let after := Exchange.run site head arrival body s.depot
    ((∃ x ∈ body, x.Ends) → after.1.response?.isSome = true) ∧
      (∀ r, after.1.response? = some r → ¬ r.IsSuccess → after.2.db.CountersFit →
        after.2 = s.depot ∨ ∃ token claims, head.Picks token ∧
          Token.check site.secret arrival.now token = some claims ∧
            s.depot.SameButDirectory claims.subject after.2) ∧
      (∀ r, after.1.response? = some r → r.IsSuccess → head.IsGuarded →
        ∃ token claims, head.Picks token ∧ Token.check site.secret arrival.now token = some claims ∧
          (∀ other, other ≠ claims.subject → s.depot.SamePart other after.2) ∧
            ∃ raw, r = after.1.dressed raw ∧ raw.TellsOf claims.subject after.2) ∧
      ((∀ token claims, head.Picks token → Token.check site.secret arrival.now token ≠ some claims) →
        after.2 = s.depot) := by
  intro after
  have hp := h.proper
  have hid : IsSegment arrival.newId := ha.1
  have hv : ∀ owner, s.depot.Vacant (Exchange.ticket site arrival owner) := fun _ => h.vacant ha
  obtain ⟨hanswering, hsome⟩ :=
    Exchange.answering_takeAll hp hid (Exchange.answering_start hp hid hv) body
  have hraw : ∀ {r}, after.1.response? = some r →
      ∃ raw, after.1.rawResponse? = some raw ∧ after.1.dressed raw = r := by
    intro r hr
    exact Option.map_eq_some_iff.mp (after.1.response?_eq ▸ hr)
  refine ⟨fun hends => ?_, fun r hr hfail hfit => ?_, fun r hr hok hguarded => ?_, fun hnone => ?_⟩
  · rw [Exchange.response?_eq, Option.isSome_map]
    exact hsome (Or.inr hends)
  · obtain ⟨raw, hget, rfl⟩ := hraw hr
    rw [Exchange.isSuccess_dressed] at hfail
    rcases hanswering.raw hp hv hget with ⟨hsame, -⟩ | ⟨claims, hc, hconcludes⟩
    · exact Or.inl hsame
    · obtain ⟨token, hpicks, hcheck⟩ := RequestHead.claims_eq_ok_iff.mp hc
      exact Or.inr ⟨token, claims, hpicks, hcheck, hconcludes.failure hfail hfit⟩
  · obtain ⟨raw, hget, rfl⟩ := hraw hr
    rw [Exchange.isSuccess_dressed] at hok
    rcases hanswering.raw hp hv hget with ⟨-, hidle⟩ | ⟨claims, hc, hconcludes⟩
    · exact absurd hguarded (hidle hok)
    · obtain ⟨token, hpicks, hcheck⟩ := RequestHead.claims_eq_ok_iff.mp hc
      exact ⟨token, claims, hpicks, hcheck, hconcludes.others, raw, rfl, hconcludes.success hok⟩
  · refine hanswering.depot fun claims hc => ?_
    obtain ⟨token, hpicks, hcheck⟩ := RequestHead.claims_eq_ok_iff.mp hc
    exact hnone token claims hpicks hcheck

/-- A user has been made. -/
def withAlice : Service := fresh.run [.turn (.operate (.createUser "alice" 0 "2026"))]

/-- A site with a short secret. -/
def siteOfAlice : Site := ⟨[115], 100, .anyone⟩

/-- The token of the user. -/
def tokenOfAlice : String := Token.issue siteOfAlice.secret 1 100

/-- The head of a request to make a folder, with or without a token in the query. -/
def headOfDocs (token : Option String) : RequestHead :=
  ⟨"POST", "/api/folders", token.map ("token=" ++ ·), [("content-type", Bytes.ofAscii "application/json")]⟩

/-- What is given to the request. -/
def arrivalOfDocs : Arrival := ⟨50, "d", "2026"⟩

/-- The body of a request to make a folder. -/
def bodyOfDocs : List Delivery := [.chunk (Bytes.ofAscii "\x7b\"name\":\"docs\"\x7d") true]

/-- The request to make a folder and what becomes of the depot. -/
def servedDocs (token : Option String) : Exchange × Depot :=
  Exchange.run siteOfAlice (headOfDocs token) arrivalOfDocs bodyOfDocs withAlice.depot

theorem requests_act_for_their_token_of_docs :
    withAlice.Reached ∧
      ((servedDocs none).1.response?.map Response.status = some 401 ∧
        (servedDocs none).2.db = withAlice.depot.db) ∧
      (servedDocs (some tokenOfAlice)).1.response?.map Response.status = some 201 ∧
      (servedDocs (some tokenOfAlice)).2.db.folderRows = [⟨"d", "docs", "", 1, "2026"⟩] ∧
      ∃ token claims, (headOfDocs (some tokenOfAlice)).Picks token ∧
        Token.check siteOfAlice.secret arrivalOfDocs.now token = some claims ∧
          ∀ other, other ≠ claims.subject → withAlice.depot.SamePart other (servedDocs (some tokenOfAlice)).2 := by
  have hreached : withAlice.Reached := Reached.fresh.run ⟨trivial, trivial⟩
  have hnew : withAlice.IsNew "d" :=
    ⟨⟨by decide, by decide, by decide, by decide⟩, fun a ha => (List.not_mem_nil ha).elim⟩
  have hadmits : ∀ token, withAlice.Admits (.request siteOfAlice (headOfDocs token) arrivalOfDocs) := fun _ => hnew
  have hrefused : ((servedDocs none).1.response?.map Response.status, (servedDocs none).2.db.userRows) =
      (some 401, [⟨1, "alice", 0, .exact 0, "2026"⟩]) := by decide +kernel
  have hgranted : ((servedDocs (some tokenOfAlice)).1.response?.map Response.status,
      (servedDocs (some tokenOfAlice)).2.db.folderRows) = (some 201, [⟨"d", "docs", "", 1, "2026"⟩]) := by
    decide +kernel
  obtain ⟨hunauthorized, husers⟩ := Prod.mk.inj hrefused
  obtain ⟨hcreated, hrows⟩ := Prod.mk.inj hgranted
  refine ⟨hreached, ⟨hunauthorized, ?_⟩, hcreated, hrows, ?_⟩
  · obtain ⟨r, hr, hstatus⟩ := Option.map_eq_some_iff.mp hunauthorized
    have hfail : ¬ r.IsSuccess := by
      rw [Response.IsSuccess, hstatus]
      decide
    have hfit : (servedDocs none).2.db.CountersFit := by
      intro u hu
      rw [husers] at hu
      exact ⟨0, by rw [List.mem_singleton.mp hu]⟩
    obtain ⟨-, hfailure, -⟩ :=
      requests_act_for_their_token hreached siteOfAlice (headOfDocs none) (hadmits none) bodyOfDocs
    rcases hfailure r hr hfail hfit with hsame | ⟨token, claims, -, -, hsame⟩
    · rw [servedDocs, hsame]
    · exact hsame.db
  · obtain ⟨r, hr, hstatus⟩ := Option.map_eq_some_iff.mp hcreated
    have hok : r.IsSuccess := by
      rw [Response.IsSuccess, hstatus]
      decide
    have hpath : Resource.ofPath? "/api/folders" = some .folders := by decide
    have hmethod : "POST" ≠ "OPTIONS" := by decide
    obtain ⟨-, -, hsuccess, -⟩ := requests_act_for_their_token hreached siteOfAlice
      (headOfDocs (some tokenOfAlice)) (hadmits (some tokenOfAlice)) bodyOfDocs
    obtain ⟨token, claims, hpicks, hcheck, hothers, -⟩ :=
      hsuccess r hr hok ⟨⟨.folders, hpath, by decide⟩, hmethod⟩
    exact ⟨token, claims, hpicks, hcheck, hothers⟩

end Service

end FileDepot
