import FileDepot.Proofs.Web.Identity
import FileDepot.Proofs.Web.Service

/-!
# Which pages may read answers

Browsers let a page read an answer if a header of the answer says so. Nothing but the rule for origins sets that
header, and so the rule alone decides who reads answers. A rule that was made of a list is closed to everyone who
is not on the list, but only a list of which something can be used makes such a rule.
-/

namespace FileDepot

open Database Depot

namespace Response

/-- The origins that headers name as those whose pages may read an answer. -/
def originsIn (headers : List (String × String)) : List String :=
  headers.filterMap fun header => if header.1 = "access-control-allow-origin" then some header.2 else none

/-- The origins whose pages may read an answer. -/
def allowedOrigins (r : Response) : List String := originsIn r.headers

/-- Whether an answer says nothing about origins. -/
def IsSilent (r : Response) : Prop := r.allowedOrigins = []

theorem isSilent_empty (status : Nat) : (empty status).IsSilent := rfl

theorem isSilent_text (status : Nat) (s : String) : (text status s).IsSilent := by
  simp [IsSilent, allowedOrigins, originsIn, text]

theorem isSilent_json (status : Nat) (value : Json) : (json status value).IsSilent := by
  simp [IsSilent, allowedOrigins, originsIn, json]

theorem isSilent_refuse (refusal : Refusal) : (refuse refusal).IsSilent := isSilent_json _ _

theorem isSilent_ofOutcome {α : Type} {tell : α → Response} (h : ∀ a, (tell a).IsSilent) (result : Outcome α) :
    (ofOutcome tell result).IsSilent := by
  cases result with
  | error e => exact isSilent_refuse _
  | ok a => exact h a

theorem isSilent_allow (status : Nat) (allow : String) :
    ((empty status).withHeaders [("allow", allow)]).IsSilent := by
  simp [IsSilent, allowedOrigins, originsIn, withHeaders, empty]

end Response

/-- If a request is answered, the answer says nothing about origins. -/
def Progress.IsSilent : Progress → Prop
  | .answered response => response.IsSilent
  | _ => True

namespace Exchange

open Response

variable {site : Site} {head : RequestHead} {arrival : Arrival} {e : Exchange} {r : Response}

/-! ## Answers before anything is added for browsers -/

theorem isSilent_download (d : Depot) (owner : Int) (id : String) : (download d owner id).IsSilent := by
  refine isSilent_ofOutcome (fun found => ?_) _
  split
  · simp [IsSilent, allowedOrigins, originsIn, fileHeaders]
  · exact isSilent_refuse _

theorem isSilent_answer (action : DirectAction) (id : String) (owner : Int) (d : Depot) :
    (answer action id owner d).1.IsSilent := by
  cases action with
  | download => exact isSilent_download d owner id
  | _ =>
    simp only [answer]
    exact isSilent_ofOutcome (fun _ => isSilent_json 200 _) _

theorem isSilent_parseBody {α : Type} {read : Json.Reader α} {refusal? : α → Option Refusal} {body : Bytes}
    {response : Response} (h : parseBody read refusal? body = .error response) : response.IsSilent := by
  unfold parseBody at h
  split at h
  · next fault _ =>
    obtain rfl := Except.error.inj h
    cases fault <;> exact isSilent_refuse _
  · split at h
    · obtain rfl := Except.error.inj h
      exact isSilent_refuse _
    · cases h

theorem isSilent_perform (task : JsonTask) (owner : Int) (arrival : Arrival) (body : Bytes) (d : Depot) :
    (perform task owner arrival body d).1.IsSilent := by
  cases task with
  | createFolder =>
    rw [perform]
    cases h : parseBody FolderRequest.read FolderRequest.refusal? body with
    | error response => exact isSilent_parseBody h
    | ok request =>
      simp only
      exact isSilent_ofOutcome (fun _ => isSilent_json 201 _) _
  | renameFile id =>
    rw [perform]
    cases h : parseBody RenameRequest.read RenameRequest.refusal? body with
    | error response => exact isSilent_parseBody h
    | ok request =>
      simp only
      exact isSilent_ofOutcome (fun _ => isSilent_json 200 _) _

theorem isSilent_awaitJson (head : RequestHead) (task : JsonTask) (owner : Int) :
    (awaitJson head task owner).IsSilent := by
  unfold awaitJson
  split
  · trivial
  · exact isSilent_refuse _

theorem isSilent_begin (site : Site) (head : RequestHead) (arrival : Arrival) (action : Action) (id : String)
    (owner : Int) (d : Depot) : (begin site head arrival action id owner d).1.IsSilent := by
  cases action with
  | upload =>
    simp only [begin]
    split
    · exact isSilent_text 400 _
    · trivial
  | createFolder => exact isSilent_awaitJson head _ owner
  | rename => exact isSilent_awaitJson head _ owner
  | direct action => exact isSilent_answer action id owner d

theorem isSilent_dispatch (site : Site) (head : RequestHead) (arrival : Arrival) (resource : Resource) (d : Depot) :
    (dispatch site head arrival resource d).1.IsSilent := by
  unfold dispatch
  split
  · exact isSilent_allow 405 _
  · split
    · exact isSilent_refuse _
    · split
      · next response hid =>
        unfold decodedId at hid
        split at hid
        · cases hid
        · split at hid
          · cases hid
          · obtain rfl := Except.error.inj hid
            exact isSilent_text 400 _
      · exact isSilent_begin _ _ _ _ _ _ _

theorem isSilent_start (site : Site) (head : RequestHead) (arrival : Arrival) (d : Depot) :
    (start site head arrival d).1.progress.IsSilent := by
  unfold start
  simp only
  split
  · exact isSilent_empty 404
  · show (health head).IsSilent
    unfold health
    split
    · exact isSilent_text 200 "OK"
    · exact isSilent_allow 405 _
  · split
    · exact isSilent_allow 200 _
    · exact isSilent_dispatch _ _ _ _ _

theorem isSilent_take (h : e.progress.IsSilent) (x : Delivery) (d : Depot) :
    (e.take x d).1.progress.IsSilent := by
  cases he : e.progress with
  | answered response => rwa [take_of_answered he]
  | uploading intake =>
    rw [take_of_uploading he]
    trivial
  | collecting task owner received =>
    rcases take_of_collecting he x d with ⟨more, -, ht⟩ | ⟨refusal, ht⟩ | ⟨body, ht⟩
    · rw [ht]
      trivial
    · rw [ht]
      exact isSilent_refuse refusal
    · rw [ht]
      exact isSilent_perform task owner e.arrival body d

theorem isSilent_raw (h : e.progress.IsSilent) (hr : e.rawResponse? = some r) : r.IsSilent := by
  unfold rawResponse? at hr
  split at hr
  · next response he =>
    obtain rfl := Option.some.inj hr
    rwa [he] at h
  · next intake _ =>
    obtain ⟨result, -, rfl⟩ := Option.map_eq_some_iff.mp hr
    exact isSilent_ofOutcome (fun _ => isSilent_empty 201) result
  · cases hr

/-! ## The answers of a site -/

/-- The requests with a given head that a site may have taken up, whatever has arrived of their bodies and
    whatever became of the depot meanwhile. -/
inductive Arises (site : Site) (head : RequestHead) : Exchange → Prop
  | start (arrival : Arrival) (d : Depot) : Arises site head (start site head arrival d).1
  | take {e : Exchange} (h : Arises site head e) (x : Delivery) (d : Depot) : Arises site head (e.take x d).1

theorem take_parts (e : Exchange) (x : Delivery) (d : Depot) :
    (e.take x d).1.site = e.site ∧ (e.take x d).1.head = e.head := by
  cases he : e.progress with
  | answered response =>
    rw [take_of_answered he]
    exact ⟨rfl, rfl⟩
  | uploading intake =>
    rw [take_of_uploading he]
    exact ⟨rfl, rfl⟩
  | collecting task owner received =>
    rcases take_of_collecting he x d with ⟨more, -, ht⟩ | ⟨refusal, ht⟩ | ⟨body, ht⟩
    · rw [ht]
      exact ⟨rfl, rfl⟩
    · rw [ht]
      exact ⟨rfl, rfl⟩
    · rw [ht]
      exact ⟨rfl, rfl⟩

theorem Arises.parts (h : Arises site head e) : e.site = site ∧ e.head = head ∧ e.progress.IsSilent := by
  induction h with
  | start arrival d => exact ⟨rfl, rfl, isSilent_start site head arrival d⟩
  | take h x d ih =>
    obtain ⟨hsite, hhead, hsilent⟩ := ih
    obtain ⟨hsite', hhead'⟩ := take_parts _ x d
    exact ⟨hsite'.trans hsite, hhead'.trans hhead, isSilent_take hsilent x d⟩

theorem originsIn_commonHeaders (rule : Cors) (head : RequestHead) :
    originsIn (rule.commonHeaders head) = (rule.allowedOrigin? head).toList := by
  unfold Cors.commonHeaders
  cases rule.allowedOrigin? head with
  | none => cases rule <;> simp [originsIn]
  | some origin => cases rule <;> simp [originsIn]

/-- What is added to an answer for browsers names the origin that the rule allows, and no other. -/
theorem originsIn_originHeaders (e : Exchange) :
    originsIn e.originHeaders =
      match Resource.ofPath? e.head.path with
      | none => []
      | some .health => []
      | some _ => (e.site.cors.allowedOrigin? e.head).toList := by
  have hpreflight : originsIn (e.site.cors.preflightHeaders e.head) =
      (e.site.cors.allowedOrigin? e.head).toList := by
    rw [← originsIn_commonHeaders]
    unfold Cors.preflightHeaders
    rw [originsIn, List.filterMap_append]
    simp [originsIn]
  have hanswer : originsIn (e.site.cors.answerHeaders e.head) =
      (e.site.cors.allowedOrigin? e.head).toList := by
    rw [← originsIn_commonHeaders, Cors.answerHeaders, originsIn, List.filterMap_append]
    simp [originsIn]
  have hany : originsIn (if e.head.method = "OPTIONS" then e.site.cors.preflightHeaders e.head
      else e.site.cors.answerHeaders e.head) = (e.site.cors.allowedOrigin? e.head).toList := by
    split
    · exact hpreflight
    · exact hanswer
  unfold originHeaders
  cases Resource.ofPath? e.head.path with
  | none => rfl
  | some resource =>
    cases resource with
    | health => rfl
    | _ => exact hany

/-- Who may read an answer is who the rule of the site allows, for the paths of the interface. -/
theorem Arises.allowedOrigins_eq (h : Arises site head e) (hr : e.response? = some r) :
    r.allowedOrigins =
      match Resource.ofPath? head.path with
      | none => []
      | some .health => []
      | some _ => (site.cors.allowedOrigin? head).toList := by
  obtain ⟨rfl, rfl, hsilent⟩ := h.parts
  obtain ⟨raw, hraw, rfl⟩ := Option.map_eq_some_iff.mp hr
  have hnone : originsIn raw.headers = [] := isSilent_raw hsilent hraw
  have hheaders : (if e.head.method = "HEAD" then raw.headOnly else raw).headers = raw.headers := by
    split <;> rfl
  rw [← originsIn_originHeaders, allowedOrigins, withHeaders, hheaders, originsIn, List.filterMap_append]
  exact congrArg (· ++ originsIn e.originHeaders) hnone

end Exchange

/-! ## Lists of origins -/

namespace Cors

open Exchange

variable {origins : List String}

/-- Whether a list of origins lets nobody else read answers: there is a rule for it, and whoever may read an answer
    of a site with this rule is listed and has made the request. -/
def FailsClosed (origins : List String) : Prop :=
  ∃ rule, ofOrigins? origins = some rule ∧
    ∀ site head e r, site.cors = rule → Arises site head e → e.response? = some r →
      ∀ origin ∈ r.allowedOrigins, origin ∈ origins ∧ head.header? "origin" = some (Bytes.ofText origin)

theorem allowedOrigin?_listed {head : RequestHead} {origin : String}
    (h : (listed origins).allowedOrigin? head = some origin) :
    origin ∈ origins ∧ head.header? "origin" = some (Bytes.ofText origin) := by
  simp only [allowedOrigin?] at h
  split at h
  · next sent hsent =>
    split at h
    · next hlisted =>
      obtain rfl := Option.some.inj h
      obtain ⟨value, hvalue, htext⟩ := Option.bind_eq_some_iff.mp hsent
      rw [Bytes.text?_eq_some_iff.mp htext] at hvalue
      exact ⟨List.contains_iff_mem.mp hlisted, hvalue⟩
    · cases h
  · cases h

/-- A list without anything that can be used stands for any origin. -/
theorem ofOrigins?_of_unusable (h : ∀ origin ∈ origins, HeaderValue.isLegal origin = false) :
    ofOrigins? origins = some anyone := by
  have hnone : origins.filter HeaderValue.isLegal = [] :=
    List.filter_eq_nil_iff.mpr fun origin ho => by simp [h origin ho]
  simp [ofOrigins?, hnone]

/-- There is no rule for a list with a wildcard. -/
theorem ofOrigins?_of_wildcard (h : "*" ∈ origins) : ofOrigins? origins = none := by
  have hlegal : HeaderValue.isLegal "*" = true := by decide +kernel
  have hmem : "*" ∈ origins.filter HeaderValue.isLegal := List.mem_filter.mpr ⟨h, hlegal⟩
  simp only [ofOrigins?, List.isEmpty_eq_false_iff.mpr (List.ne_nil_of_mem hmem), Bool.false_eq_true, if_false,
    List.contains_iff_mem.mpr hmem, if_true]

/-- Any other list stands for what can be used of it. -/
theorem ofOrigins?_of_usable (h : ∃ origin ∈ origins, HeaderValue.isLegal origin = true) (hw : "*" ∉ origins) :
    ofOrigins? origins = some (listed (origins.filter HeaderValue.isLegal)) := by
  obtain ⟨origin, ho, hlegal⟩ := h
  have hne : origins.filter HeaderValue.isLegal ≠ [] := List.ne_nil_of_mem (List.mem_filter.mpr ⟨ho, hlegal⟩)
  have hnot : ¬ "*" ∈ origins.filter HeaderValue.isLegal := fun hmem => hw (List.mem_filter.mp hmem).1
  simp only [ofOrigins?, List.isEmpty_eq_false_iff.mpr hne, Bool.false_eq_true, if_false,
    List.contains_iff_mem, if_neg hnot]

/-- The usage is asked for without a token, from a page of some origin. -/
def headFrom (origin? : Option String) : RequestHead :=
  ⟨"GET", "/api/usage", none, (origin?.map fun origin => ("origin", Bytes.ofAscii origin)).toList⟩

/-- A site that allows any origin. -/
def openSite : Site := ⟨[115], 100, anyone⟩

/-- The request to a site, which is refused at once. -/
def refused (site : Site) (origin? : Option String) : Exchange :=
  (Exchange.start site (headFrom origin?) ⟨50, "n", "2026"⟩ Depot.fresh).1

theorem not_failsClosed_of_anyone (h : ofOrigins? origins = some anyone) : ¬ FailsClosed origins := by
  rintro ⟨rule, hrule, hclosed⟩
  obtain rfl := Option.some.inj (h.symm.trans hrule)
  have hanswer : (refused openSite none).response?.map Response.allowedOrigins = some ["*"] := by decide +kernel
  obtain ⟨r, hr, horigins⟩ := Option.map_eq_some_iff.mp hanswer
  have hsent := (hclosed openSite (headFrom none) _ r rfl (.start _ _) hr "*"
    (horigins ▸ List.mem_singleton_self "*")).2
  cases hsent

/-- A list that is not empty is closed to all others exactly if something of it can be used and no wildcard is on
    it. Without anything that can be used it lets any origin read answers, as only the empty list should, and with a
    wildcard there is no rule at all. -/
theorem failsClosed_iff (origins : List String) :
    (origins ≠ [] → (FailsClosed origins ↔
        (∃ origin ∈ origins, HeaderValue.isLegal origin = true) ∧ "*" ∉ origins)) ∧
      ((∀ origin ∈ origins, HeaderValue.isLegal origin = false) → ofOrigins? origins = some anyone) ∧
      ("*" ∈ origins → ofOrigins? origins = none) := by
  refine ⟨fun _ => ⟨fun hclosed => ?_, fun ⟨husable, hw⟩ => ?_⟩, ofOrigins?_of_unusable, ofOrigins?_of_wildcard⟩
  · constructor
    · by_contra hnone
      refine not_failsClosed_of_anyone (ofOrigins?_of_unusable fun origin ho => ?_) hclosed
      rw [← Bool.not_eq_true]
      exact fun hlegal => hnone ⟨origin, ho, hlegal⟩
    · intro hw
      obtain ⟨rule, hrule, -⟩ := hclosed
      rw [ofOrigins?_of_wildcard hw] at hrule
      cases hrule
  · refine ⟨_, ofOrigins?_of_usable husable hw, fun site head e r hsite he hr origin horigin => ?_⟩
    rw [he.allowedOrigins_eq hr, hsite] at horigin
    have hallowed : (listed (origins.filter HeaderValue.isLegal)).allowedOrigin? head = some origin := by
      revert horigin
      cases Resource.ofPath? head.path with
      | none => exact fun hmem => (List.not_mem_nil hmem).elim
      | some resource =>
        cases resource with
        | health => exact fun hmem => (List.not_mem_nil hmem).elim
        | _ => exact fun hmem => Option.mem_toList.mp hmem
    obtain ⟨hmem, hsent⟩ := allowedOrigin?_listed hallowed
    exact ⟨(List.mem_filter.mp hmem).1, hsent⟩

/-- Of two origins one can be used, and pages of that one and of no other read answers. -/
theorem failsClosed_of_localhost :
    FailsClosed ["http://localhost:3000", "not a header\n"] ∧
      ofOrigins? ["http://localhost:3000", "not a header\n"] = some (listed ["http://localhost:3000"]) ∧
      (refused { openSite with cors := listed ["http://localhost:3000"] }
        (some "http://localhost:3000")).response?.map Response.allowedOrigins = some ["http://localhost:3000"] ∧
      (refused { openSite with cors := listed ["http://localhost:3000"] }
        (some "http://evil.example")).response?.map Response.allowedOrigins = some [] := by
  have hlegal : HeaderValue.isLegal "http://localhost:3000" = true := by decide +kernel
  have hclosed := ((failsClosed_iff ["http://localhost:3000", "not a header\n"]).1 (by decide)).mpr
    ⟨⟨"http://localhost:3000", List.mem_cons_self, hlegal⟩, by decide⟩
  exact ⟨hclosed, by decide +kernel, by decide +kernel, by decide +kernel⟩

/-- A list of which nothing can be used is no closed one: a page that is not listed reads an answer. -/
theorem unusable_list_is_open :
    ["not a header\n"] ≠ [] ∧ ofOrigins? ["not a header\n"] = some openSite.cors ∧
      (refused openSite (some "http://evil.example")).response?.map Response.allowedOrigins = some ["*"] ∧
      ¬ FailsClosed ["not a header\n"] := by
  have hopen : ofOrigins? ["not a header\n"] = some anyone := by decide +kernel
  exact ⟨by decide, hopen, by decide +kernel, not_failsClosed_of_anyone hopen⟩

end Cors

end FileDepot
