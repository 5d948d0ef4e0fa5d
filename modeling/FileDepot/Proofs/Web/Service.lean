import FileDepot.Proofs.Session.Seclusion
import FileDepot.Proofs.Session.Statements
import FileDepot.Web.Exchange

/-!
# The service

A depot behind its web interface. Turns of a session and requests of clients come in any order, and the body of
a request arrives in pieces between which anything else may happen. A request does nothing to the depot that a
turn of a session could not do, so that whatever is known of the depot of a session is known of this one.
-/

namespace FileDepot

open BlobPath Database Depot

/-! ## What requests ask for -/

namespace Response

/-- Whether a response tells of success. -/
def IsSuccess (r : Response) : Prop := 200 ≤ r.status ∧ r.status < 300

instance (r : Response) : Decidable r.IsSuccess := inferInstanceAs (Decidable (_ ∧ _))

/-- A refusal is none, whatever its kind. -/
theorem not_isSuccess_refuse (refusal : Refusal) : ¬ (refuse refusal).IsSuccess := by
  have hstatus : ∀ kind : RefusalKind, ¬ (200 ≤ kind.status ∧ kind.status < 300) := by
    intro kind
    cases kind <;> decide
  exact hstatus refusal.kind

end Response

/-- The operation that a request without a body carries out for an owner. -/
def DirectAction.operation (owner : Int) (id : String) : DirectAction → Operation
  | listFiles => .listFiles owner
  | download => .openDownload owner id
  | deleteFile => .delete owner id
  | listFolder => .listChildren owner id
  | deleteFolder => .deleteFolder owner id
  | usage => .usage owner

theorem DirectAction.owner?_operation (action : DirectAction) (owner : Int) (id : String) :
    (action.operation owner id).owner? = some owner := by
  cases action <;> rfl

/-- Whether a request has to come with a token: it names a resource of the interface and does more than ask
    what is allowed there. -/
def RequestHead.IsGuarded (head : RequestHead) : Prop :=
  (∃ resource, Resource.ofPath? head.path = some resource ∧ resource ≠ .health) ∧ head.method ≠ "OPTIONS"

namespace Exchange

variable {site : Site} {head : RequestHead} {arrival : Arrival} {d : Depot}

theorem answer_snd (action : DirectAction) (id : String) (owner : Int) (d : Depot) :
    (answer action id owner d).2 = ((action.operation owner id).run d).2 := by
  cases action <;> rfl

/-- A JSON request whose body can be used is an operation of its owner. -/
theorem perform_snd (task : JsonTask) (owner : Int) (arrival : Arrival) (body : Bytes) (d : Depot) :
    (perform task owner arrival body d).2 = d ∨
      ∃ op : Operation, op.owner? = some owner ∧ (perform task owner arrival body d).2 = (op.run d).2 := by
  cases task with
  | createFolder =>
    simp only [perform]
    split
    · exact Or.inl rfl
    · next request _ =>
      exact Or.inr ⟨.createFolder owner request.name request.parent arrival.newId arrival.createdAt, rfl, rfl⟩
  | renameFile id =>
    simp only [perform]
    split
    · exact Or.inl rfl
    · next request _ => exact Or.inr ⟨.rename owner id request.name, rfl, rfl⟩

/-- What is fixed for the upload of a request. -/
def ticket (site : Site) (arrival : Arrival) (owner : Int) : Ticket :=
  ⟨owner, arrival.newId, arrival.createdAt, site.maxFileSize⟩

/-- What can become of a request when its head has been read. Nothing is started without the claims of a valid
    token, and without them only requests that need none succeed. -/
inductive Opening (site : Site) (head : RequestHead) (arrival : Arrival) (d : Depot) : Progress → Depot → Prop
  | idle (response : Response) (h : response.IsSuccess → ¬ head.IsGuarded) :
    Opening site head arrival d (.answered response) d
  | upload (claims : Claims) (hc : head.claims (some site.secret) arrival.now = .ok claims) (boundary : Bytes) :
    Opening site head arrival d
      (.uploading (Intake.start (ticket site arrival claims.subject) boundary site.uploadBodyLimit d).1)
      (Intake.start (ticket site arrival claims.subject) boundary site.uploadBodyLimit d).2
  | json (claims : Claims) (hc : head.claims (some site.secret) arrival.now = .ok claims) (task : JsonTask) :
    Opening site head arrival d (.collecting task claims.subject []) d
  | direct (claims : Claims) (hc : head.claims (some site.secret) arrival.now = .ok claims)
      (action : DirectAction) (id : String) :
    Opening site head arrival d (.answered (answer action id claims.subject d).1)
      (answer action id claims.subject d).2

theorem Opening.refused {response : Response} (h : ¬ response.IsSuccess) :
    Opening site head arrival d (.answered response) d :=
  .idle response fun hs => absurd hs h

theorem opening_awaitJson {claims : Claims} (hc : head.claims (some site.secret) arrival.now = .ok claims)
    (task : JsonTask) : Opening site head arrival d (awaitJson head task claims.subject) d := by
  unfold awaitJson
  split
  · exact .json claims hc task
  · exact .refused (Response.not_isSuccess_refuse _)

theorem opening_begin {claims : Claims} (hc : head.claims (some site.secret) arrival.now = .ok claims)
    (action : Action) (id : String) :
    Opening site head arrival d (begin site head arrival action id claims.subject d).1
      (begin site head arrival action id claims.subject d).2 := by
  cases action with
  | upload =>
    simp only [begin]
    split
    · exact .refused (by decide)
    · next boundary _ => exact .upload claims hc boundary
  | createFolder => exact opening_awaitJson hc .createFolder
  | rename => exact opening_awaitJson hc (.renameFile id)
  | direct action => exact .direct claims hc action id

theorem opening_dispatch (site : Site) (head : RequestHead) (arrival : Arrival) (resource : Resource) (d : Depot) :
    Opening site head arrival d (dispatch site head arrival resource d).1
      (dispatch site head arrival resource d).2 := by
  unfold dispatch
  split
  · exact .refused (by simp [Response.IsSuccess, Response.withHeaders, Response.empty])
  · next action _ =>
    split
    · exact .refused (Response.not_isSuccess_refuse _)
    · next claims hc =>
      split
      · next response hid =>
        refine .refused ?_
        unfold decodedId at hid
        split at hid
        · cases hid
        · split at hid
          · cases hid
          · cases hid
            decide
      · next id _ => exact opening_begin hc action id

theorem opening_start (site : Site) (head : RequestHead) (arrival : Arrival) (d : Depot) :
    Opening site head arrival d (start site head arrival d).1.progress (start site head arrival d).2 := by
  unfold start
  cases hpath : Resource.ofPath? head.path with
  | none =>
    have hstatus : ¬ (Response.empty 404).IsSuccess := by decide
    exact .refused hstatus
  | some resource =>
    by_cases hh : resource = .health
    · subst hh
      refine .idle (health head) fun _ hg => ?_
      obtain ⟨⟨resource, hr, hne⟩, -⟩ := hg
      rw [hpath] at hr
      exact hne (Option.some.inj hr).symm
    · by_cases hm : head.method = "OPTIONS"
      · simp only [if_pos hm]
        exact .idle _ fun _ hg => hg.2 hm
      · simp only [if_neg hm]
        exact opening_dispatch site head arrival resource d

/-- Takes what arrives of the body. -/
def take (e : Exchange) (x : Delivery) (d : Depot) : Exchange × Depot :=
  match x with
  | .chunk bytes atEnd => e.deliver bytes atEnd d
  | .interrupt => e.interrupt d

/-- A request that is answered takes nothing more. -/
theorem take_of_answered {e : Exchange} {response : Response} (he : e.progress = .answered response)
    (x : Delivery) (d : Depot) : e.take x d = (e, d) := by
  cases x with
  | chunk bytes atEnd => simp only [take, deliver, he]
  | interrupt => simp only [take, interrupt, he]

theorem take_of_uploading {e : Exchange} {intake : Intake} (he : e.progress = .uploading intake) (x : Delivery)
    (d : Depot) :
    e.take x d = ({ e with progress := .uploading (x.handTo intake d).1 }, (x.handTo intake d).2) := by
  cases x with
  | chunk bytes atEnd => simp only [take, deliver, he, Delivery.handTo]
  | interrupt => simp only [take, interrupt, he, Delivery.handTo]

/-- A JSON request waits for the rest of its body, is refused, or is carried out. -/
theorem take_of_collecting {e : Exchange} {task : JsonTask} {owner : Int} {received : Bytes}
    (he : e.progress = .collecting task owner received) (x : Delivery) (d : Depot) :
    (∃ more, ¬ x.Ends ∧ e.take x d = ({ e with progress := .collecting task owner more }, d)) ∨
      (∃ refusal, e.take x d = ({ e with progress := .answered (.refuse refusal) }, d)) ∨
      ∃ body, e.take x d = ({ e with progress := .answered (perform task owner e.arrival body d).1 },
        (perform task owner e.arrival body d).2) := by
  cases x with
  | chunk bytes atEnd =>
    simp only [take, deliver, he]
    split
    · exact Or.inr (Or.inl ⟨_, rfl⟩)
    · split
      · exact Or.inr (Or.inr ⟨received ++ bytes, rfl⟩)
      · next hend => exact Or.inl ⟨received ++ bytes, hend, rfl⟩
  | interrupt =>
    simp only [take, interrupt, he]
    exact Or.inr (Or.inl ⟨_, rfl⟩)

end Exchange

/-! ## Requests and turns together -/

/-- What is known of every depot that can come about. -/
structure Depot.Proper (d : Depot) : Prop where
  orderly : d.Orderly
  contentful : d.Contentful
  lawful : d.db.Lawful

/-- A request that is being answered and the events of its body so far, if it is an upload. The events are not
    used by the request. -/
structure Served where
  exchange : Exchange
  heard : List Multipart.Event

namespace Served

/-- The upload of a request. -/
def sending? (s : Served) : Option Sending :=
  match s.exchange.progress with
  | .uploading intake => some ⟨intake, s.heard⟩
  | _ => none

/-- The events that a delivery means to the upload of the request. -/
def events (s : Served) (x : Delivery) : List Multipart.Event :=
  match s.exchange.progress with
  | .uploading intake => x.events intake
  | _ => []

/-- Starts the answer to a request. -/
def start (site : Site) (head : RequestHead) (arrival : Arrival) (d : Depot) : Served × Depot :=
  let r := Exchange.start site head arrival d
  (⟨r.1, []⟩, r.2)

/-- Takes what arrives of the body. -/
def take (s : Served) (x : Delivery) (d : Depot) : Served × Depot :=
  let r := s.exchange.take x d
  (⟨r.1, s.heard ++ s.events x⟩, r.2)

/-- A request starts an upload, makes at most one operation, or does nothing. -/
theorem start_cases (site : Site) (head : RequestHead) (arrival : Arrival) (d : Depot) :
    ((start site head arrival d).1.sending? = none ∧
        ((start site head arrival d).2 = d ∨ ∃ op : Operation, (start site head arrival d).2 = (op.run d).2)) ∨
      ∃ owner boundary,
        (start site head arrival d).1.sending? =
          some (Sending.start (Exchange.ticket site arrival owner) boundary site.uploadBodyLimit d).1 ∧
        (start site head arrival d).2 =
          (Sending.start (Exchange.ticket site arrival owner) boundary site.uploadBodyLimit d).2 := by
  have hopening := Exchange.opening_start site head arrival d
  simp only [start, sending?]
  generalize (Exchange.start site head arrival d).1.progress = progress at hopening
  generalize (Exchange.start site head arrival d).2 = d' at hopening
  cases hopening with
  | idle response h => exact Or.inl ⟨rfl, Or.inl rfl⟩
  | upload claims hc boundary => exact Or.inr ⟨claims.subject, boundary, rfl, rfl⟩
  | json claims hc task => exact Or.inl ⟨rfl, Or.inl rfl⟩
  | direct claims hc action id =>
    exact Or.inl ⟨rfl, Or.inr ⟨action.operation claims.subject id, Exchange.answer_snd action id claims.subject d⟩⟩

/-- What arrives for an upload is taken by the upload. -/
theorem take_of_sending {s : Served} {a : Sending} (h : s.sending? = some a) (x : Delivery) (d : Depot) :
    (s.take x d).1.sending? = some (a.take x d).1 ∧ (s.take x d).2 = (a.take x d).2 := by
  unfold sending? at h
  split at h
  · next intake he =>
    cases h
    simp only [take, Exchange.take_of_uploading he, sending?, events, he, Sending.take, and_self]
  · cases h

/-- What arrives for any other request makes at most one operation. -/
theorem take_of_none {s : Served} (h : s.sending? = none) (x : Delivery) (d : Depot) :
    (s.take x d).1.sending? = none ∧
      ((s.take x d).2 = d ∨ ∃ op : Operation, (s.take x d).2 = (op.run d).2) := by
  unfold sending? at h
  split at h
  · cases h
  · next hne =>
    cases he : s.exchange.progress with
    | uploading intake => exact absurd he (hne intake)
    | answered response =>
      simp only [take, Exchange.take_of_answered he, sending?, he]
      exact ⟨trivial, Or.inl trivial⟩
    | collecting task owner received =>
      rcases Exchange.take_of_collecting he x d with ⟨more, -, ht⟩ | ⟨refusal, ht⟩ | ⟨body, ht⟩
      · simp only [take, ht, sending?]
        exact ⟨trivial, Or.inl trivial⟩
      · simp only [take, ht, sending?]
        exact ⟨trivial, Or.inl trivial⟩
      · simp only [take, ht, sending?]
        refine ⟨trivial, ?_⟩
        rcases Exchange.perform_snd task owner s.exchange.arrival body d with hsame | ⟨op, -, hop⟩
        · exact Or.inl hsame
        · exact Or.inr ⟨op, hop⟩

end Served

/-- A session and the requests that have come in beside it, which use the same depot. -/
structure Service where
  session : Session
  requests : List Served

/-- What can happen to a service: a turn of the session, a request that comes in, or what arrives of the body of
    a request. Requests are counted from 0 in the order in which they came in. -/
inductive Event where
  | turn (turn : Turn)
  | request (site : Site) (head : RequestHead) (arrival : Arrival)
  | body (n : Nat) (x : Delivery)
  deriving DecidableEq, Repr

namespace Service

/-- Nothing has happened. -/
def fresh : Service := ⟨Session.fresh, []⟩

/-- The records and contents. -/
def depot (s : Service) : Depot := s.session.depot

/-- The service with another depot. -/
def withDepot (s : Service) (d : Depot) : Service := { s with session := { s.session with depot := d } }

/-- All uploads, those of the session and those of requests. -/
def sendings (s : Service) : List Sending := s.session.uploads ++ s.requests.filterMap Served.sending?

/-- One event. -/
def step (s : Service) : Event → Service
  | .turn turn => { s with session := s.session.step turn }
  | .request site head arrival =>
    let r := Served.start site head arrival s.depot
    { s.withDepot r.2 with requests := s.requests ++ [r.1] }
  | .body n x =>
    match s.requests[n]? with
    | none => s
    | some served =>
      let r := served.take x s.depot
      { s.withDepot r.2 with requests := s.requests.set n r.1 }

/-- Several events. -/
def run (s : Service) (events : List Event) : Service := events.foldl step s

/-- Whether an id that is generated for a file is one segment of a path and was generated for no upload. -/
def IsNew (s : Service) (id : String) : Prop :=
  IsSegment id ∧ ∀ sending ∈ s.sendings, sending.ticket.fileId ≠ id

/-- Whether an event can happen. -/
def Admits (s : Service) : Event → Prop
  | .turn (.start t _ _) => s.IsNew t.fileId
  | .request _ _ arrival => s.IsNew arrival.newId
  | _ => True

/-- The services that can come about. -/
inductive Reached : Service → Prop
  | fresh : Reached fresh
  | step {s : Service} {event : Event} (h : Reached s) (ha : s.Admits event) : Reached (s.step event)

/-- Whether several events can happen one after the other. -/
def AdmitsAll : Service → List Event → Prop
  | _, [] => True
  | s, event :: rest => s.Admits event ∧ (s.step event).AdmitsAll rest

theorem Reached.run {s : Service} {events : List Event} (h : s.Reached) (ha : s.AdmitsAll events) :
    (s.run events).Reached := by
  induction events generalizing s with
  | nil => exact h
  | cons event rest ih => exact ih (h.step ha.1) ha.2

/-! ## The session behind a service -/

/-- A session with the same depot and, in some order, the same uploads. -/
structure Shows (s : Service) (σ : Session) : Prop where
  depot : σ.depot = s.depot
  uploads : σ.uploads.Perm s.sendings

/-- What follows when one entry of a list is replaced, told without the place of the entry. -/
theorem perm_set {α : Type} {l rest : List α} {a b : α} {n : Nat} (hn : l[n]? = some a)
    (hp : l.Perm (a :: rest)) : (l.set n b).Perm (b :: rest) := by
  obtain ⟨hlt, rfl⟩ := List.getElem?_eq_some_iff.mp hn
  have hrest : (l.eraseIdx n).Perm rest := ((List.getElem_cons_eraseIdx_perm hlt).trans hp).cons_inv
  exact (List.set_perm_cons_eraseIdx hlt b).trans (hrest.cons b)

variable {s : Service} {σ : Session} {event : Event}

namespace Shows

/-- An id that is new to the service is new to the session. -/
theorem admits_start (h : s.Shows σ) {t : Ticket} (hnew : s.IsNew t.fileId) (boundary : Bytes) (limit : Nat) :
    σ.Admits (.start t boundary limit) :=
  ⟨hnew.1, fun a ha => hnew.2 a (h.uploads.mem_iff.mp ha)⟩

/-- An operation leaves the uploads as they are. -/
theorem operate (h : s.Shows σ) {s' : Service} (op : Operation) (hd : s'.depot = (op.run s.depot).2)
    (hu : s'.sendings.Perm s.sendings) : s'.Shows (σ.step (.operate op)) := by
  refine ⟨?_, h.uploads.trans hu.symm⟩
  simp only [Session.step, h.depot, hd]

/-- An upload is started in the service and in the session alike. -/
theorem start (h : s.Shows σ) {s' : Service} {t : Ticket} {boundary : Bytes} {limit : Nat}
    (hd : s'.depot = (Sending.start t boundary limit s.depot).2)
    (hu : s'.sendings.Perm ((Sending.start t boundary limit s.depot).1 :: s.sendings)) :
    s'.Shows (σ.step (.start t boundary limit)) := by
  refine ⟨?_, ?_⟩
  · simp only [Session.step, h.depot, hd]
  · simp only [Session.step, h.depot]
    exact (List.perm_append_singleton _ _).trans ((h.uploads.cons _).trans hu.symm)

/-- A delivery goes to the same upload, wherever it is counted. -/
theorem deliver (h : s.Shows σ) {s' : Service} {a : Sending} {rest : List Sending} {x : Delivery}
    (ha : s.sendings.Perm (a :: rest)) (hd : s'.depot = (a.take x s.depot).2)
    (hu : s'.sendings.Perm ((a.take x s.depot).1 :: rest)) : ∃ n, s'.Shows (σ.step (.deliver n x)) := by
  have hmem : a ∈ σ.uploads := (h.uploads.trans ha).mem_iff.mpr List.mem_cons_self
  obtain ⟨n, hn⟩ := List.mem_iff_getElem?.mp hmem
  refine ⟨n, ?_, ?_⟩
  · simp only [Session.step, hn, h.depot, hd]
  · simp only [Session.step, hn, h.depot]
    exact (perm_set hn (h.uploads.trans ha)).trans hu.symm

end Shows

/-- What a service keeps when a request that is no upload comes in. -/
theorem sendings_of_request {served : Served} (hs : served.sending? = none) (d : Depot) :
    ({ s.withDepot d with requests := s.requests ++ [served] } : Service).sendings = s.sendings := by
  simp [sendings, withDepot, List.filterMap_append, hs]

/-- The uploads of a service of which one request has been gone on with, told by the uploads of this request. -/
theorem sendings_of_body {n : Nat} {served served' : Served} (hn : s.requests[n]? = some served) (d : Depot) :
    ∃ rest, s.sendings.Perm (served.sending?.toList ++ rest) ∧
      ({ s.withDepot d with requests := s.requests.set n served' } : Service).sendings.Perm
        (served'.sending?.toList ++ rest) := by
  obtain ⟨hlt, rfl⟩ := List.getElem?_eq_some_iff.mp hn
  have hmove : ∀ (x : Served) {l : List Served}, l.Perm (x :: s.requests.eraseIdx n) →
      (s.session.uploads ++ l.filterMap Served.sending?).Perm
        (x.sending?.toList ++ (s.session.uploads ++ (s.requests.eraseIdx n).filterMap Served.sending?)) := by
    intro x l hl
    refine ((hl.filterMap Served.sending?).append_left _).trans ?_
    cases hx : x.sending? with
    | none => rw [List.filterMap_cons_none hx]; exact .refl _
    | some a => rw [List.filterMap_cons_some hx]; exact List.perm_middle
  exact ⟨_, hmove _ (List.getElem_cons_eraseIdx_perm hlt).symm,
    hmove served' (List.set_perm_cons_eraseIdx hlt served')⟩

/-- Behind whatever happens to a service there is a session to which as much happens. -/
theorem shows_step (h : s.Shows σ) (hσ : σ.Reached) (ha : s.Admits event) :
    ∃ σ' : Session, σ'.Reached ∧ (s.step event).Shows σ' := by
  cases event with
  | turn turn =>
    cases turn with
    | operate op =>
      have hadmits : σ.Admits (.operate op) := trivial
      exact ⟨_, hσ.step hadmits, h.operate op rfl (.refl _)⟩
    | start t boundary limit =>
      refine ⟨_, hσ.step (h.admits_start ha boundary limit), h.start rfl ?_⟩
      simp only [sendings, step, Session.step, List.append_assoc]
      exact List.perm_middle
    | deliver n x =>
      simp only [step, Session.step]
      cases hn : s.session.uploads[n]? with
      | none => exact ⟨σ, hσ, h.depot, h.uploads⟩
      | some a =>
        obtain ⟨hlt, hget⟩ := List.getElem?_eq_some_iff.mp hn
        have hp : s.session.uploads.Perm (a :: s.session.uploads.eraseIdx n) := by
          rw [← hget]
          exact (List.getElem_cons_eraseIdx_perm hlt).symm
        let after : Service :=
          ⟨⟨(a.take x s.depot).2, s.session.uploads.set n (a.take x s.depot).1, s.session.log⟩, s.requests⟩
        obtain ⟨m, hm⟩ : ∃ m, after.Shows (σ.step (.deliver m x)) :=
          h.deliver (hp.append_right _) rfl ((perm_set hn hp).append_right _)
        have hadmits : σ.Admits (.deliver m x) := trivial
        exact ⟨_, hσ.step hadmits, hm.depot, hm.uploads⟩
  | request site head arrival =>
    rcases Served.start_cases site head arrival s.depot with
      ⟨hnone, hsame | ⟨op, hop⟩⟩ | ⟨owner, boundary, hsending, hdepot⟩
    · refine ⟨σ, hσ, h.depot.trans hsame.symm, ?_⟩
      rw [step, sendings_of_request hnone]
      exact h.uploads
    · have hadmits : σ.Admits (.operate op) := trivial
      refine ⟨_, hσ.step hadmits, h.operate op hop ?_⟩
      rw [step, sendings_of_request hnone]
    · refine ⟨_, hσ.step (h.admits_start (t := Exchange.ticket site arrival owner) ha boundary site.uploadBodyLimit),
        h.start hdepot ?_⟩
      simp only [sendings, step, withDepot, List.filterMap_append, List.filterMap_cons_some hsending,
        List.filterMap_nil, ← List.append_assoc]
      exact List.perm_append_singleton _ _
  | body n x =>
    simp only [step]
    cases hn : s.requests[n]? with
    | none => exact ⟨σ, hσ, h⟩
    | some served =>
      simp only
      let after : Service := { s.withDepot (served.take x s.depot).2 with
        requests := s.requests.set n (served.take x s.depot).1 }
      obtain ⟨rest, hbefore, hafter⟩ : ∃ rest, s.sendings.Perm (served.sending?.toList ++ rest) ∧
          after.sendings.Perm ((served.take x s.depot).1.sending?.toList ++ rest) :=
        sendings_of_body hn (served.take x s.depot).2
      cases hs : served.sending? with
      | some a =>
        obtain ⟨hsending, hdepot⟩ := Served.take_of_sending hs x s.depot
        rw [hs] at hbefore
        rw [hsending] at hafter
        obtain ⟨m, hm⟩ : ∃ m, after.Shows (σ.step (.deliver m x)) := h.deliver hbefore hdepot hafter
        have hadmits : σ.Admits (.deliver m x) := trivial
        exact ⟨_, hσ.step hadmits, hm⟩
      | none =>
        obtain ⟨hsending, hdepot⟩ := Served.take_of_none hs x s.depot
        rw [hs] at hbefore
        rw [hsending] at hafter
        rcases hdepot with hsame | ⟨op, hop⟩
        · exact ⟨σ, hσ, h.depot.trans hsame.symm, (h.uploads.trans hbefore).trans hafter.symm⟩
        · have hadmits : σ.Admits (.operate op) := trivial
          exact ⟨_, hσ.step hadmits, h.operate op hop (hafter.trans hbefore.symm)⟩

/-- Whatever comes about in a service comes about in a session. -/
theorem Reached.shows (h : s.Reached) : ∃ σ : Session, σ.Reached ∧ s.Shows σ := by
  induction h with
  | fresh => exact ⟨Session.fresh, .fresh, rfl, .refl _⟩
  | step h ha ih =>
    obtain ⟨σ, hσ, hshows⟩ := ih
    exact shows_step hshows hσ ha

theorem Reached.proper (h : s.Reached) : s.depot.Proper := by
  obtain ⟨σ, hσ, hshows⟩ := h.shows
  rw [← hshows.depot]
  exact ⟨hσ.custody.orderly, hσ.custody.contentful, hσ.lawful_numbered.1⟩

end Service

end FileDepot
