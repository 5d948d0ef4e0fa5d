import FileDepot.Proofs.Text.Names
import FileDepot.Web.Identity

/-!
# The token of a request

Which token counts, said without the way in which it is looked for: what follows `Bearer ` in a header that can be
read, and otherwise the first field of that name in the query whose value is a text.
-/

namespace FileDepot

namespace Bytes

theorem text?_eq_some_iff {bytes : Bytes} {text : String} : bytes.text? = some text ↔ bytes = ofText text := by
  constructor
  · intro h
    unfold text? String.fromUTF8? at h
    split at h
    · obtain rfl := Option.some.inj h
      rfl
    · cases h
  · rintro rfl
    exact text?_ofText text

end Bytes

namespace RequestHead

variable {head : RequestHead} {token : String}

/-! ## Parts of texts -/

/-- A text is cut where the character first occurs. -/
theorem cutAt?_eq_some_iff {c : Char} {text before after : String} :
    cutAt? c text = some (before, after) ↔ c ∉ before.toList ∧ text.toList = before.toList ++ c :: after.toList := by
  have hleft : ∀ l m : List Char, (l ++ m).drop l.length = m := fun _ _ => List.drop_left
  have hdrop := hleft (text.toList.takeWhile (· != c)) (text.toList.dropWhile (· != c))
  rw [List.takeWhile_append_dropWhile] at hdrop
  simp only [cutAt?, hdrop]
  constructor
  · intro h
    split at h
    · cases h
    · next d rest hrest =>
      obtain ⟨rfl, rfl⟩ := Prod.mk.inj (Option.some.inj h)
      have hd : d = c := by
        have hhead := List.head?_dropWhile_not (· != c) text.toList
        rw [hrest] at hhead
        simpa using hhead
      subst hd
      refine ⟨fun hc => ?_, ?_⟩
      · rw [String.toList_ofList] at hc
        simpa using List.mem_takeWhile_imp hc
      · rw [String.toList_ofList, String.toList_ofList, ← hrest, List.takeWhile_append_dropWhile]
  · rintro ⟨hc, htext⟩
    have hpass : ∀ d ∈ before.toList, (d != c) = true := by
      intro d hd
      simpa using ne_of_mem_of_not_mem hd hc
    have hstop : (c != c) = false := by simp
    rw [htext, List.takeWhile_append_of_pos hpass, List.dropWhile_append_of_pos hpass,
      List.takeWhile_cons_of_neg (by simp), List.dropWhile_cons_of_neg (by simp), List.append_nil,
      String.ofList_toList]
    simp only [String.ofList_toList]

theorem after?_eq_some_iff {start text rest : String} : after? start text = some rest ↔ text = start ++ rest := by
  unfold after?
  constructor
  · intro h
    split at h
    · next hbegins =>
      obtain rfl := Option.some.inj h
      obtain ⟨rest, hrest⟩ := List.isPrefixOf_iff_prefix.mp hbegins
      refine String.toList_inj.mp ?_
      rw [String.toList_append, String.toList_ofList, ← hrest, ← String.length_toList, List.drop_left]
    · cases h
  · rintro rfl
    rw [String.toList_append, ← String.length_toList, List.drop_left, String.ofList_toList]
    exact if_pos (List.isPrefixOf_iff_prefix.mpr (List.prefix_append _ _))

/-! ## The token that counts -/

/-- Whether a field of a query has the name `token` and a value that stands for the given text. -/
def IsTokenField (field token : String) : Prop :=
  ∃ value, field = "token=" ++ value ∧ Percent.decode (Bytes.ofText value) = Bytes.ofText token

/-- Whether a token is the one that counts. -/
inductive Picks (head : RequestHead) : String → Prop
  | bearer {token : String} (h : head.headerText? "authorization" = some ("Bearer " ++ token)) : Picks head token
  | query {token query : String} {before after : List String} {field : String}
      (hb : ∀ other, head.headerText? "authorization" ≠ some ("Bearer " ++ other)) (hq : head.query = some query)
      (hs : Text.split '&' query = before ++ field :: after) (ht : IsTokenField field token)
      (hfirst : ∀ earlier ∈ before, ∀ other, ¬ IsTokenField earlier other) : Picks head token

theorem bearerToken?_eq_some_iff :
    head.bearerToken? = some token ↔ head.headerText? "authorization" = some ("Bearer " ++ token) := by
  simp only [bearerToken?, Option.bind_eq_some_iff, after?_eq_some_iff]
  constructor
  · rintro ⟨text, hh, rfl⟩
    exact hh
  · intro hh
    exact ⟨_, hh, rfl⟩

/-- What a field of a query is found to be. -/
theorem tokenField_iff {field : String} :
    (match cutAt? '=' field with
      | some ("token", value) => (Percent.decode (Bytes.ofText value)).text?
      | _ => none) = some token ↔ IsTokenField field token := by
  have hcut : ∀ value, cutAt? '=' field = some ("token", value) ↔ field = "token=" ++ value := by
    intro value
    have hname : '=' ∉ "token".toList := by decide
    have htext : "token=".toList = "token".toList ++ ['='] := by decide
    rw [cutAt?_eq_some_iff, and_iff_right hname, ← String.toList_inj, String.toList_append, htext, List.append_assoc]
    rfl
  constructor
  · intro h
    split at h
    · next value hv => exact ⟨value, (hcut value).mp hv, Bytes.text?_eq_some_iff.mp h⟩
    · cases h
  · rintro ⟨value, hfield, hdecode⟩
    rw [(hcut value).mpr hfield]
    exact Bytes.text?_eq_some_iff.mpr hdecode

theorem queryToken?_eq_some_iff :
    head.queryToken? = some token ↔ ∃ query before after field, head.query = some query ∧
      Text.split '&' query = before ++ field :: after ∧ IsTokenField field token ∧
        ∀ earlier ∈ before, ∀ other, ¬ IsTokenField earlier other := by
  simp only [queryToken?, Option.bind_eq_some_iff, List.findSome?_eq_some_iff, Option.eq_none_iff_forall_ne_some]
  constructor
  · rintro ⟨query, hq, before, field, after, hs, ht, hfirst⟩
    refine ⟨query, before, after, field, hq, hs, tokenField_iff.mp ht, fun earlier he other ho => ?_⟩
    exact hfirst earlier he other (tokenField_iff.mpr ho)
  · rintro ⟨query, before, after, field, hq, hs, ht, hfirst⟩
    refine ⟨query, hq, before, field, after, hs, tokenField_iff.mpr ht, fun earlier he other ho => ?_⟩
    exact hfirst earlier he other (tokenField_iff.mp ho)

/-- The token that a request is taken to have is the one that counts. -/
theorem token?_eq_some_iff : head.token? = some token ↔ head.Picks token := by
  rw [token?, Option.or_eq_some_iff]
  constructor
  · rintro (hb | ⟨hb, hq⟩)
    · exact .bearer (bearerToken?_eq_some_iff.mp hb)
    · obtain ⟨query, before, after, field, hquery, hs, ht, hfirst⟩ := queryToken?_eq_some_iff.mp hq
      refine .query (fun other hh => ?_) hquery hs ht hfirst
      rw [bearerToken?_eq_some_iff.mpr hh] at hb
      cases hb
  · rintro (hh | ⟨hb, hquery, hs, ht, hfirst⟩)
    · exact Or.inl (bearerToken?_eq_some_iff.mpr hh)
    · refine Or.inr ⟨?_, queryToken?_eq_some_iff.mpr ⟨_, _, _, _, hquery, hs, ht, hfirst⟩⟩
      refine Option.eq_none_iff_forall_ne_some.mpr fun other hother => ?_
      exact hb other (bearerToken?_eq_some_iff.mp hother)

/-- A request has claims if the token that counts is valid. -/
theorem claims_eq_ok_iff {secret : Bytes} {now : Nat} {claims : Claims} :
    head.claims (some secret) now = .ok claims ↔
      ∃ token, head.Picks token ∧ Token.check secret now token = some claims := by
  simp only [RequestHead.claims, ← token?_eq_some_iff]
  cases head.token? with
  | none => simp
  | some token =>
    cases hc : Token.check secret now token with
    | none => simp [hc]
    | some found => simp [hc]

end RequestHead

end FileDepot
