import FileDepot.Proofs.Traffic.Books
import Mathlib.Data.Finset.Basic
import Mathlib.Data.Finset.Range

/-!
# Grants

The admission of an upload as one access among others: what it grants, which uploads are in flight before and
after it, and that of the users an access changes nothing but counters.
-/

namespace FileDepot

open Database

namespace Depot

variable {d : Depot} {owner : Int}

/-- What an owner is told is what the row of the owner holds. -/
theorem usage_eq_ok_iff {u : Usage} :
    d.usage owner = .ok u ↔
      d.db.quota? owner = some u.quota ∧ d.db.counter? owner = some (.exact u.spaceUsed) := by
  simp only [usage, usageOf, userById, userTable, quota?, counter?_eq, user?]
  cases d.db.users with
  | none => simp [Except.map]
  | some table =>
    simp only [Option.bind_some]
    cases findUser table owner with
    | none => simp [Except.map]
    | some v =>
      cases hv : v.spaceUsed with
      | overflowed m => simp [User.read, Counter.read, Except.map, hv]
      | exact n =>
        simp only [User.read, Counter.read, Except.map, hv, Option.map_some, Account.usage, Except.ok.injEq,
          Option.some.injEq, Counter.exact.injEq]
        constructor
        · rintro rfl
          exact ⟨rfl, rfl⟩
        · rintro ⟨hq, hn⟩
          rw [hq, hn]

/-- An upload is granted bytes only on what the row of its owner holds. -/
theorem uploadCeiling_eq_ok {maxFileSize c : Nat} (h : d.uploadCeiling owner maxFileSize = .ok c) :
    ∃ u : Usage, d.db.quota? owner = some u.quota ∧ d.db.counter? owner = some (.exact u.spaceUsed) ∧
      u.isExhausted = false ∧ c = u.ceiling maxFileSize := by
  unfold uploadCeiling at h
  split at h
  · cases h
  · next u hu =>
    obtain ⟨hq, hn⟩ := usage_eq_ok_iff.mp hu
    split at h
    · cases h
    · next hleft =>
      cases h
      exact ⟨u, hq, hn, by simpa using hleft, rfl⟩

end Depot

namespace Upload

/-- Whether an upload was admitted and is not done. -/
def isUnderWay : Upload → Bool
  | admission => false
  | done _ => false
  | _ => true

end Upload

namespace Request

variable {d : Depot} {r : Request} {owner : Int}

/-- Whether a request is an upload of an owner that was admitted and is not done. -/
def isInFlight (owner : Int) : Request → Bool
  | upload t u => t.owner == owner && u.isUnderWay
  | _ => false

/-- What the next access grants, if it admits an upload of an owner. -/
def grant? (owner : Int) (d : Depot) : Request → Option Nat
  | upload t .admission =>
    if t.owner = owner then (d.uploadCeiling t.owner t.maxFileSize).toOption else none
  | _ => none

theorem isInFlight_iff : r.isInFlight owner = true ↔
    ∃ t u, r = upload t u ∧ t.owner = owner ∧ u.isUnderWay = true := by
  cases r with
  | upload t u => simp [isInFlight]
  | _ => simp [isInFlight]

theorem grant?_eq_some {c : Nat} (h : r.grant? owner d = some c) :
    ∃ t, r = upload t .admission ∧ t.owner = owner ∧ d.uploadCeiling owner t.maxFileSize = .ok c := by
  unfold grant? at h
  split at h
  · next t =>
    simp only [Option.ite_none_right_eq_some] at h
    obtain ⟨rfl, hc⟩ := h
    refine ⟨t, rfl, rfl, ?_⟩
    cases hceiling : d.uploadCeiling t.owner t.maxFileSize with
    | error e => simp [hceiling, Except.toOption] at hc
    | ok c' =>
      simp only [hceiling, Except.toOption, Option.some.injEq] at hc
      rw [hc]
  · cases h

/-- An upload is in flight after an access only if it was before, unless it was admitted. -/
theorem isInFlight_of_step (hg : r.grant? owner d = none) (h : (r.step d).1.isInFlight owner = true) :
    r.isInFlight owner = true := by
  cases r with
  | upload t u =>
    obtain ⟨t', u', hr, ht, hu⟩ := isInFlight_iff.mp h
    simp only [step, upload.injEq] at hr
    obtain ⟨rfl, rfl⟩ := hr
    refine isInFlight_iff.mpr ⟨t, u, rfl, ht, ?_⟩
    cases u with
    | admission =>
      simp only [grant?, if_pos ht] at hg
      simp only [Upload.advance] at hu
      cases hc : d.uploadCeiling t.owner t.maxFileSize with
      | error e => simp [hc, Upload.isUnderWay] at hu
      | ok c => simp [hc, Except.toOption] at hg
    | done result => exact hu
    | _ => rfl
  | folderCreation o name parent id createdAt result? => cases result? <;> cases h
  | _ => cases h

theorem isInFlight_of_receive {e : Multipart.Event} (h : (r.receive e).isInFlight owner = true) :
    r.isInFlight owner = true := by
  cases r with
  | upload t u =>
    obtain ⟨t', u', hr, ht, hu⟩ := isInFlight_iff.mp h
    simp only [receive, upload.injEq] at hr
    obtain ⟨rfl, rfl⟩ := hr
    refine isInFlight_iff.mpr ⟨t, u, rfl, ht, ?_⟩
    cases u with
    | admission => exact hu
    | done result => exact hu
    | _ => rfl
  | _ => cases h

/-- An upload is over once it has counted its bytes. -/
theorem isInFlight_of_due {delta : Int} (h : r.due owner = some delta) (d : Depot) :
    (r.step d).1.isInFlight owner = false := by
  cases r with
  | upload t u =>
    cases u with
    | account f =>
      simp only [step, Upload.advance]
      split <;> simp [isInFlight, Upload.isUnderWay]
    | _ => cases h
  | fileDeletion o id x => rfl
  | _ => cases h

theorem upload_of_step {t : Ticket} {u' : Upload} (h : (r.step d).1 = upload t u') : ∃ u, r = upload t u := by
  cases r with
  | upload t' u =>
    simp only [step, upload.injEq] at h
    exact ⟨u, by rw [h.1]⟩
  | folderCreation o name parent id createdAt result? => cases result? <;> cases h
  | _ => cases h

theorem upload_of_receive {t : Ticket} {u' : Upload} {e : Multipart.Event} (h : r.receive e = upload t u') :
    ∃ u, r = upload t u := by
  cases r with
  | upload t' u =>
    simp only [receive, upload.injEq] at h
    exact ⟨u, by rw [h.1]⟩
  | _ => cases h

/-- Of a user an access changes only the counter, and that by what is due. -/
theorem user?_step (hw : d.db.IsWhole) (r : Request) (owner : Int) :
    (r.step d).2.db.user? owner =
      (d.db.user? owner).map fun v =>
        { v with spaceUsed := ((r.due owner).map v.spaceUsed.add).getD v.spaceUsed } := by
  have hsame : ∀ {db : Database}, db.users = d.db.users → r.due owner = none →
      db.user? owner = (d.db.user? owner).map fun v =>
        { v with spaceUsed := ((r.due owner).map v.spaceUsed.add).getD v.spaceUsed } := by
    intro db hu hd
    rw [hd, user?, user?, hu]
    exact (congrFun Option.map_id _).symm
  have hcall : ∀ (o delta : Int), r.due owner = (if o = owner then some delta else none) →
      (d.db.adjustSpaceUsed o delta).2.user? owner = (d.db.user? owner).map fun v =>
        { v with spaceUsed := ((r.due owner).map v.spaceUsed.add).getD v.spaceUsed } := by
    intro o delta hd
    rw [user?_adjustSpaceUsed, hd]
    cases hv : d.db.user? owner with
    | none => rfl
    | some v =>
      have hid := id_of_user? hv
      by_cases ho : o = owner
      · simp [ho, hid]
      · have hne : ¬ v.id = o := by
          rw [hid]
          exact fun heq => ho heq.symm
        simp [ho, hne]
  rw [db_step]
  unfold dbAfter
  split
  · exact hsame (onlyFolders_createFolder d.db _ _ _ _ _).users rfl
  · exact hsame (onlyFolders_deleteFolderIfEmpty d.db _ _).users rfl
  · exact hsame (users_insertFile hw _) rfl
  · exact hsame (users_updateFile hw _ _ rfl) rfl
  · exact hcall _ _ rfl
  · exact hsame (by rw [deleteFile_eq hw]; rfl) rfl
  · exact hsame (users_updateFile hw _ _ rfl) rfl
  · exact hsame (by rw [deleteFile_eq hw]; rfl) rfl
  · exact hcall _ _ rfl
  · next hcount _ _ _ hrelease =>
    refine hsame rfl ?_
    unfold due
    split
    · exact (hcount _ _ rfl).elim
    · exact (hrelease _ _ _ rfl).elim
    · rfl

theorem quota?_step (hw : d.db.IsWhole) (r : Request) (owner : Int) :
    (r.step d).2.db.quota? owner = d.db.quota? owner := by
  rw [quota?, quota?, user?_step hw, Option.map_map]
  rfl

theorem counter?_step (hw : d.db.IsWhole) (r : Request) (owner : Int) :
    (r.step d).2.db.counter? owner =
      (d.db.counter? owner).map fun c => ((r.due owner).map c.add).getD c := by
  rw [counter?_eq, counter?_eq, user?_step hw, Option.map_map, Option.map_map]
  rfl

end Request

namespace Traffic

variable {s : Traffic} {owner : Int} {n : Nat} {r r' : Request}

/-- The uploads of an owner that are in flight, by their numbers. -/
def inFlight (s : Traffic) (owner : Int) : Finset Nat :=
  (Finset.range s.requests.length).filter fun n => s.requests[n]?.any (Request.isInFlight owner) = true

theorem mem_inFlight : n ∈ s.inFlight owner ↔ ∃ r, s.requests[n]? = some r ∧ r.isInFlight owner = true := by
  rw [inFlight, Finset.mem_filter, Finset.mem_range]
  cases hr : s.requests[n]? with
  | none => simp
  | some r =>
    have hlt : n < s.requests.length := (List.getElem?_eq_some_iff.mp hr).1
    simp [hlt]

/-- Only the request that goes on can come to be in flight, or cease to be. -/
theorem inFlight_set (hr : s.requests[n]? = some r) (d' : Depot) (r' : Request) :
    inFlight ⟨d', s.requests.set n r'⟩ owner =
      if r'.isInFlight owner then insert n (s.inFlight owner) else (s.inFlight owner).erase n := by
  have hlt : n < s.requests.length := (List.getElem?_eq_some_iff.mp hr).1
  have hmem : ∀ m, m ∈ inFlight ⟨d', s.requests.set n r'⟩ owner ↔
      (m = n ∧ r'.isInFlight owner = true) ∨ (m ≠ n ∧ m ∈ s.inFlight owner) := by
    intro m
    rw [mem_inFlight, mem_inFlight]
    by_cases hmn : m = n
    · rw [hmn, List.getElem?_set_self hlt]
      simp
    · rw [List.getElem?_set_ne (fun heq => hmn heq.symm)]
      simp [hmn]
  ext m
  rw [hmem m]
  split
  · next hin =>
    rw [Finset.mem_insert]
    by_cases hmn : m = n
    · simp [hmn, hin]
    · simp [hmn]
  · next hout =>
    rw [Finset.mem_erase]
    simp [hout]

/-- What an upload of an owner is granted with a move, and the number of the upload. -/
def grant? (owner : Int) (s : Traffic) : Move → Option (Nat × Nat)
  | .advance n => (s.requests[n]?.bind (Request.grant? owner s.depot)).map fun c => (n, c)
  | _ => none

/-- The move that admits an upload changes nothing but the upload. -/
theorem grant?_eq_some {move : Move} {c : Nat} (h : s.grant? owner move = some (n, c)) :
    ∃ t : Ticket, s.requests[n]? = some (.upload t .admission) ∧ t.owner = owner ∧
      s.depot.uploadCeiling owner t.maxFileSize = .ok c ∧
        s.step move = ⟨s.depot, s.requests.set n (.upload t (.betweenParts ⟨c, "", none⟩))⟩ := by
  cases move with
  | advance m =>
    simp only [grant?, Option.map_eq_some_iff, Option.bind_eq_some_iff, Prod.mk.injEq] at h
    obtain ⟨c', ⟨r, hr, hgrant⟩, rfl, rfl⟩ := h
    obtain ⟨t, rfl, ho, hc⟩ := Request.grant?_eq_some hgrant
    refine ⟨t, hr, ho, hc, ?_⟩
    rw [← ho] at hc
    simp only [step, hr, Request.step, Upload.advance, hc]
  | _ => cases h

/-- The upload that is admitted was not in flight before and is so now, beside the others. -/
theorem inFlight_of_grant {move : Move} {c : Nat} (h : s.grant? owner move = some (n, c)) :
    n ∉ s.inFlight owner ∧ (s.step move).inFlight owner = insert n (s.inFlight owner) := by
  obtain ⟨t, hr, ho, -, hstep⟩ := grant?_eq_some h
  constructor
  · intro hin
    obtain ⟨r, hr', hflight⟩ := mem_inFlight.mp hin
    rw [hr] at hr'
    cases hr'
    simp [Request.isInFlight, Upload.isUnderWay] at hflight
  · rw [hstep, inFlight_set hr, if_pos]
    exact Request.isInFlight_iff.mpr ⟨t, _, rfl, ho, rfl⟩

/-- Every upload was there before a move or arrives with it. -/
theorem arrived_of_step {move : Move} {t : Ticket} {u : Upload} (h : .upload t u ∈ (s.step move).requests) :
    (∃ u, .upload t u ∈ s.requests) ∨ move = .arrive (.upload t) := by
  cases move with
  | createUser username quota createdAt => exact Or.inl ⟨u, h⟩
  | setQuota id quota => exact Or.inl ⟨u, h⟩
  | arrive o =>
    rcases List.mem_append.mp h with h | h
    · exact Or.inl ⟨u, h⟩
    · cases o with
      | upload t' =>
        cases List.mem_singleton.mp h
        exact Or.inr rfl
      | _ => cases List.mem_singleton.mp h
  | advance m =>
    simp only [step] at h
    split at h
    · exact Or.inl ⟨u, h⟩
    · next r hr =>
      rcases List.mem_or_eq_of_mem_set h with h | h
      · exact Or.inl ⟨u, h⟩
      · obtain ⟨u₀, rfl⟩ := Request.upload_of_step h.symm
        exact Or.inl ⟨u₀, List.mem_of_getElem? hr⟩
  | receive m e =>
    simp only [step] at h
    split at h
    · exact Or.inl ⟨u, h⟩
    · next r hr =>
      rcases List.mem_or_eq_of_mem_set h with h | h
      · exact Or.inl ⟨u, h⟩
      · obtain ⟨u₀, rfl⟩ := Request.upload_of_receive h.symm
        exact Or.inl ⟨u₀, List.mem_of_getElem? hr⟩

theorem arrived_of_mem {moves : List Move} {t : Ticket} {u : Upload} (h : .upload t u ∈ (s.run moves).requests) :
    (∃ u, .upload t u ∈ s.requests) ∨ .arrive (.upload t) ∈ moves := by
  induction moves generalizing s with
  | nil => exact Or.inl ⟨u, h⟩
  | cons move rest ih =>
    rcases ih h with ⟨u', hu'⟩ | hmem
    · rcases arrived_of_step hu' with hold | rfl
      · exact Or.inl hold
      · exact Or.inr List.mem_cons_self
    · exact Or.inr (List.mem_cons_of_mem _ hmem)

end Traffic

end FileDepot
