import FileDepot.Proofs.Traffic.Grants
import FileDepot.Proofs.Traffic.Ledger
import FileDepot.Proofs.Upload.Ceiling
import Mathlib.Algebra.Order.BigOperators.Group.Finset

/-!
# Overlapping uploads

An upload is admitted with what is left of the quota, and it counts its bytes only at its end. Uploads that
overlap may therefore exceed the quota together: by what was granted to those that were in flight when the last
one was admitted, and by no more.
-/

namespace FileDepot

open Database

/-- Whether a size is one that is stored for a file of an upload. -/
def IsSize (n : Int) : Prop := 0 ≤ n ∧ n ≤ int64Max

/-- Traffic, and what was granted in it to the uploads of an owner: the ceiling of each, by the number of the
    upload, and the sum of the ceilings of those that were in flight when one was last admitted, that one not
    included. -/
structure Admissions where
  traffic : Traffic
  ceiling : Nat → Nat
  overlap : Nat

namespace Admissions

open Traffic

variable {owner q : Int} {a : Admissions} {n c : Nat} {r r' : Request} {move : Move} {moves : List Move}

/-- A depot that nobody has asked for anything. -/
def start (d : Depot) : Admissions := ⟨quiet d, fun _ => 0, 0⟩

/-- One move. -/
def step (owner : Int) (a : Admissions) (move : Move) : Admissions :=
  match a.traffic.grant? owner move with
  | none => ⟨a.traffic.step move, a.ceiling, a.overlap⟩
  | some (n, c) =>
    ⟨a.traffic.step move, Function.update a.ceiling n c, ∑ m ∈ a.traffic.inFlight owner, a.ceiling m⟩

/-- Several moves. -/
def run (owner : Int) (a : Admissions) (moves : List Move) : Admissions := moves.foldl (step owner) a

theorem traffic_step (owner : Int) (a : Admissions) (move : Move) :
    (a.step owner move).traffic = a.traffic.step move := by
  unfold step
  split <;> rfl

/-- What is written down of the traffic does not change it. -/
theorem traffic_run (owner : Int) (a : Admissions) (moves : List Move) :
    (a.run owner moves).traffic = a.traffic.run moves := by
  induction moves generalizing a with
  | nil => rfl
  | cons move rest ih =>
    have hrest := ih (a.step owner move)
    rw [traffic_step] at hrest
    exact hrest

/-- The bytes that the uploads in flight may still count. -/
def reserved (owner : Int) (a : Admissions) : Nat := ∑ n ∈ a.traffic.inFlight owner, a.ceiling n

/-- What is known of an upload that was granted `c` bytes. -/
structure Granted (q : Int) (t : Ticket) (c : Nat) (u : Upload) : Prop where
  within : u.Within c
  quota : (c : Int) ≤ q
  range : (c : Int) ≤ int64Max
  file : c ≤ t.maxFileSize

/-- What holds at every moment for an owner with the quota `q`. -/
structure Bounded (owner q : Int) (a : Admissions) : Prop where
  whole : a.traffic.depot.db.IsWhole
  quota : a.traffic.depot.db.quota? owner = some q
  sizes : ∀ f ∈ a.traffic.depot.db.fileRows, f.ownerId = owner → IsSize f.size
  found : ∀ id x, Request.fileDeletion owner id x ∈ a.traffic.requests → ∀ f, x.file? = some f → IsSize f.size
  granted : ∀ (n : Nat) (t : Ticket) (u : Upload), a.traffic.requests[n]? = some (.upload t u) →
    t.owner = owner → u.isUnderWay = true → Granted q t (a.ceiling n) u
  counter : ∃ c, a.traffic.depot.db.counter? owner = some c ∧ c.Fits (q + a.overlap) (a.reserved owner)

namespace Bounded

/-- Users may change as long as the row of the owner does not. -/
theorem of_onlyUsers (h : Bounded owner q a) {db : Database} (hu : OnlyUsers a.traffic.depot.db db)
    (hq : db.quota? owner = some q) (hc : ∀ c, a.traffic.depot.db.counter? owner = some c → db.counter? owner = some c) :
    Bounded owner q ⟨⟨{ a.traffic.depot with db }, a.traffic.requests⟩, a.ceiling, a.overlap⟩ where
  whole := hu.whole h.whole
  quota := hq
  sizes := by
    simp only [hu.fileRows]
    exact h.sizes
  found := h.found
  granted := h.granted
  counter := by
    obtain ⟨c, hcount, hfits⟩ := h.counter
    exact ⟨c, hc c hcount, hfits⟩

/-- A request that has just arrived is not in flight. -/
theorem arrive (h : Bounded owner q a) (o : Order) :
    Bounded owner q ⟨⟨a.traffic.depot, a.traffic.requests ++ [o.request]⟩, a.ceiling, a.overlap⟩ where
  whole := h.whole
  quota := h.quota
  sizes := h.sizes
  found := by
    intro id x hx f hf
    rcases List.mem_append.mp hx with hx | hx
    · exact h.found id x hx f hf
    · cases o with
      | delete owner' id' =>
        cases List.mem_singleton.mp hx
        cases hf
      | _ => cases List.mem_singleton.mp hx
  granted := by
    intro n t u hr ho hu
    rcases upload_of_arrived hr with hold | ⟨hlast, rfl⟩
    · exact h.granted n t u hold ho hu
    · rw [hlast, List.getElem?_append_right (Nat.le_refl _), Nat.sub_self] at hr
      cases hr
      cases hu
  counter := by
    have hsame : inFlight ⟨a.traffic.depot, a.traffic.requests ++ [o.request]⟩ owner = a.traffic.inFlight owner := by
      ext m
      rw [mem_inFlight, mem_inFlight]
      rcases Nat.lt_trichotomy m a.traffic.requests.length with hlt | heq | hgt
      · rw [List.getElem?_append_left hlt]
      · have hnew : o.request.isInFlight owner = false := by
          cases o <;> simp [Order.request, Request.isInFlight, Upload.isUnderWay]
        simp [heq, hnew]
      · rw [List.getElem?_eq_none (by simp; omega), List.getElem?_eq_none (by omega)]
    obtain ⟨c, hcount, hfits⟩ := h.counter
    refine ⟨c, hcount, ?_⟩
    rw [reserved, hsame]
    exact hfits

/-- A request goes on, and the depot and what was written down change with it. -/
theorem set (h : Bounded owner q a) (hr : a.traffic.requests[n]? = some r) {d : Depot} {ceiling : Nat → Nat}
    {overlap : Nat} (hw : d.db.IsWhole) (hq : d.db.quota? owner = some q)
    (hsizes : ∀ f ∈ d.db.fileRows, f.ownerId = owner → IsSize f.size)
    (hfound : ∀ id x, r' = .fileDeletion owner id x → ∀ f, x.file? = some f → IsSize f.size)
    (hother : ∀ m, m ≠ n → ceiling m = a.ceiling m)
    (hgranted : ∀ t u, r' = .upload t u → t.owner = owner → u.isUnderWay = true → Granted q t (ceiling n) u)
    (hcounter : ∃ c, d.db.counter? owner = some c ∧
      c.Fits (q + overlap) (reserved owner ⟨⟨d, a.traffic.requests.set n r'⟩, ceiling, overlap⟩)) :
    Bounded owner q ⟨⟨d, a.traffic.requests.set n r'⟩, ceiling, overlap⟩ where
  whole := hw
  quota := hq
  sizes := hsizes
  found := by
    intro id x hx f hf
    rcases List.mem_or_eq_of_mem_set hx with hx | hx
    · exact h.found id x hx f hf
    · exact hfound id x hx.symm f hf
  granted := by
    intro m t u hm ho hu
    by_cases hmn : m = n
    · have hlt : n < a.traffic.requests.length := (List.getElem?_eq_some_iff.mp hr).1
      rw [hmn, List.getElem?_set_self hlt] at hm
      rw [hmn]
      exact hgranted t u (Option.some.inj hm) ho hu
    · rw [List.getElem?_set_ne (fun heq => hmn heq.symm)] at hm
      have hold := h.granted m t u hm ho hu
      rwa [← hother m hmn] at hold
  counter := hcounter

/-- An event of a body counts nothing and admits nothing. -/
theorem receive (h : Bounded owner q a) (hr : a.traffic.requests[n]? = some r) (e : Multipart.Event) :
    Bounded owner q ⟨⟨a.traffic.depot, a.traffic.requests.set n (r.receive e)⟩, a.ceiling, a.overlap⟩ := by
  refine h.set hr h.whole h.quota h.sizes ?_ (fun _ _ => rfl) ?_ ?_
  · intro id x hx f hf
    cases r with
    | upload t u => cases hx
    | _ => exact h.found id x (hx ▸ List.mem_of_getElem? hr) f hf
  · intro t u' hu' ho hway
    have hin : r.isInFlight owner = true :=
      Request.isInFlight_of_receive (Request.isInFlight_iff.mpr ⟨t, u', hu', ho, hway⟩)
    obtain ⟨t₀, u, rfl, -, hu⟩ := Request.isInFlight_iff.mp hin
    cases hu'
    have hg := h.granted n t u hr ho hu
    exact ⟨Upload.within_receive hg.within e, hg.quota, hg.range, hg.file⟩
  · obtain ⟨c, hcount, hfits⟩ := h.counter
    refine ⟨c, hcount, hfits.mono ?_⟩
    refine Finset.sum_le_sum_of_subset ?_
    rw [inFlight_set hr]
    split
    · next hin =>
      rw [Finset.insert_eq_self.mpr (mem_inFlight.mpr ⟨r, hr, Request.isInFlight_of_receive hin⟩)]
    · exact Finset.erase_subset _ _

theorem sizes_step (h : Bounded owner q a) (hr : a.traffic.requests[n]? = some r) :
    ∀ f ∈ (r.step a.traffic.depot).2.db.fileRows, f.ownerId = owner → IsSize f.size := by
  intro f hf ho
  rcases Request.size_of_step h.whole hf ho with ⟨g, hg, hgo, hsize⟩ | hsize | ⟨t, parent, staged, rfl, hto, hsize⟩
  · rw [hsize]
    exact h.sizes g hg hgo
  · rw [hsize]
    exact ⟨Int.le_refl 0, by decide⟩
  · have hg := h.granted n t (.finish parent staged) hr hto rfl
    have hle : staged.size ≤ a.ceiling n := hg.within
    have hrange := hg.range
    rw [hsize]
    refine ⟨Int.natCast_nonneg _, ?_⟩
    omega

theorem found_step (h : Bounded owner q a) (hr : a.traffic.requests[n]? = some r) {id : String} {x : Deletion}
    (hx : (r.step a.traffic.depot).1 = .fileDeletion owner id x) : ∀ f, x.file? = some f → IsSize f.size := by
  intro f hf
  cases r with
  | fileDeletion o id' x' =>
    simp only [Request.step, Request.fileDeletion.injEq] at hx
    obtain ⟨rfl, rfl, rfl⟩ := hx
    rcases Deletion.file?_step h.whole hf with hold | ⟨hmem, hown⟩
    · exact h.found id' x' (List.mem_of_getElem? hr) f hold
    · exact h.sizes f hmem hown
  | folderCreation o name parent id createdAt result? => cases result? <;> cases hx
  | _ => cases hx

/-- A call by a request that was granted its bytes, or gives back the bytes of a file. -/
theorem fits_of_due (h : Bounded owner q a) (hr : a.traffic.requests[n]? = some r) {delta : Int}
    (hd : r.due owner = some delta) {c : Counter} (hc : c.Fits (q + a.overlap) (a.reserved owner)) :
    (c.add delta).Fits (q + a.overlap)
      (reserved owner ⟨⟨(r.step a.traffic.depot).2, a.traffic.requests.set n (r.step a.traffic.depot).1⟩,
        a.ceiling, a.overlap⟩) := by
  have hout : (r.step a.traffic.depot).1.isInFlight owner = false := Request.isInFlight_of_due hd a.traffic.depot
  rw [reserved, inFlight_set hr, if_neg (by simp [hout])]
  cases r with
  | upload t u =>
    cases u with
    | account f =>
      simp only [Request.due, Option.ite_none_right_eq_some, Option.some.injEq] at hd
      obtain ⟨ho, rfl⟩ := hd
      have hg := h.granted n t (.account f) hr ho rfl
      obtain ⟨hlow, hhigh⟩ : 0 ≤ f.size ∧ f.size ≤ a.ceiling n := hg.within
      have hin : n ∈ a.traffic.inFlight owner :=
        mem_inFlight.mpr ⟨_, hr, Request.isInFlight_iff.mpr ⟨t, .account f, rfl, ho, rfl⟩⟩
      have hsum := Finset.sum_erase_add _ a.ceiling hin
      rw [reserved, ← hsum] at hc
      refine hc.add ?_ (Nat.le_add_right _ _) ?_
      · have hmax : (0 : Int) ≤ int64Max := by decide
        omega
      · push_cast
        omega
    | _ => cases hd
  | fileDeletion o id x =>
    cases x with
    | release f =>
      simp only [Request.due, Option.ite_none_right_eq_some, Option.some.injEq] at hd
      obtain ⟨rfl, rfl⟩ := hd
      obtain ⟨hlow, hhigh⟩ := h.found id (.release f) (List.mem_of_getElem? hr) f rfl
      rw [Deletion.opposite_of_nonneg hlow]
      have hle := Finset.sum_le_sum_of_subset (f := a.ceiling) (Finset.erase_subset n (a.traffic.inFlight o))
      rw [reserved] at hc
      refine hc.add ?_ hle ?_
      · omega
      · simp only
        omega
    | _ => cases hd
  | _ => cases hd

/-- An access that admits no upload of the owner. -/
theorem advance (h : Bounded owner q a) (hr : a.traffic.requests[n]? = some r)
    (hgrant : r.grant? owner a.traffic.depot = none) :
    Bounded owner q ⟨⟨(r.step a.traffic.depot).2, a.traffic.requests.set n (r.step a.traffic.depot).1⟩,
      a.ceiling, a.overlap⟩ := by
  have hwhole : (r.step a.traffic.depot).2.db.IsWhole := by
    rw [r.db_step]
    exact (r.write_dbAfter h.whole).whole h.whole
  refine h.set hr hwhole ((r.quota?_step h.whole owner).trans h.quota) (h.sizes_step hr)
    (fun id x hx => h.found_step hr hx) (fun _ _ => rfl) ?_ ?_
  · intro t u' hu' ho hway
    have hin := Request.isInFlight_of_step hgrant (Request.isInFlight_iff.mpr ⟨t, u', hu', ho, hway⟩)
    obtain ⟨t₀, u, rfl, -, hu⟩ := Request.isInFlight_iff.mp hin
    simp only [Request.step, Request.upload.injEq] at hu'
    obtain ⟨rfl, rfl⟩ := hu'
    have hg := h.granted n t₀ u hr ho hu
    have hne : u ≠ .admission := by
      rintro rfl
      cases hu
    exact ⟨Upload.within_advance h.whole hg.within hne, hg.quota, hg.range, hg.file⟩
  · obtain ⟨c, hcount, hfits⟩ := h.counter
    have hstep := r.counter?_step (d := a.traffic.depot) h.whole owner
    rw [hcount, Option.map_some] at hstep
    refine ⟨_, hstep, ?_⟩
    cases hd : r.due owner with
    | some delta => exact h.fits_of_due hr hd hfits
    | none =>
      refine hfits.mono (Finset.sum_le_sum_of_subset ?_)
      rw [inFlight_set hr]
      split
      · next hin =>
        have hmem := mem_inFlight.mpr ⟨r, hr, Request.isInFlight_of_step hgrant hin⟩
        rw [Finset.insert_eq_self.mpr hmem]
      · exact Finset.erase_subset _ _

/-- The access that admits an upload of the owner: what it is granted was left of the quota. -/
theorem admission (h : Bounded owner q a) (hq : 0 < q) {t : Ticket}
    (hr : a.traffic.requests[n]? = some (.upload t .admission)) (ho : t.owner = owner) {c : Nat}
    (hc : a.traffic.depot.uploadCeiling owner t.maxFileSize = .ok c) (hnew : n ∉ a.traffic.inFlight owner) :
    Bounded owner q ⟨⟨a.traffic.depot, a.traffic.requests.set n (.upload t (.betweenParts ⟨c, "", none⟩))⟩,
      Function.update a.ceiling n c, a.reserved owner⟩ := by
  obtain ⟨u, hquota, hcount, hleft, rfl⟩ := Depot.uploadCeiling_eq_ok hc
  have hqu : u.quota = q := by
    rw [h.quota, Option.some.injEq] at hquota
    exact hquota.symm
  rw [← hqu] at hq
  obtain ⟨-, hsum, hrange, hfile⟩ := u.ceiling_le hq hleft t.maxFileSize
  obtain ⟨c₀, hc₀, hfits⟩ := h.counter
  have hnonneg : 0 ≤ u.spaceUsed := by
    rw [hcount, Option.some.injEq] at hc₀
    exact (hfits.le hc₀.symm).1
  refine h.set hr h.whole h.quota h.sizes (fun id x hx => by cases hx) ?_ ?_ ?_
  · intro m hm
    exact Function.update_of_ne hm _ _
  · intro t' u' hu' _ _
    cases hu'
    rw [Function.update_self]
    refine ⟨⟨rfl, by simp⟩, ?_, hrange, hfile⟩
    omega
  · refine ⟨_, hcount, Or.inl ⟨u.spaceUsed, rfl, hnonneg, ?_⟩⟩
    have hin : (Request.upload t (.betweenParts ⟨u.ceiling t.maxFileSize, "", none⟩)).isInFlight owner = true :=
      Request.isInFlight_iff.mpr ⟨t, _, rfl, ho, rfl⟩
    have hothers : ∑ m ∈ a.traffic.inFlight owner, Function.update a.ceiling n (u.ceiling t.maxFileSize) m =
        a.reserved owner := by
      refine Finset.sum_congr rfl fun m hm => ?_
      have hne : m ≠ n := by
        rintro rfl
        exact hnew hm
      exact Function.update_of_ne hne _ _
    have hall : ∑ m ∈ insert n (a.traffic.inFlight owner),
        Function.update a.ceiling n (u.ceiling t.maxFileSize) m =
          u.ceiling t.maxFileSize + a.reserved owner := by
      rw [Finset.sum_insert hnew, hothers, Function.update_self]
    rw [reserved, inFlight_set hr, if_pos hin]
    simp only [hall]
    push_cast
    omega

/-- Every move keeps the bound. -/
theorem step (h : Bounded owner q a) (hq : 0 < q) (hquota : ∀ q', move = .setQuota owner q' → q' = q) :
    Bounded owner q (a.step owner move) := by
  unfold Admissions.step
  split
  · next hnone =>
    cases move with
    | createUser username quota createdAt =>
      exact h.of_onlyUsers (onlyUsers_createUser _ username quota createdAt)
        (quota?_createUser h.quota username quota createdAt)
        (fun c hc => counter?_createUser hc username quota createdAt)
    | setQuota id quota =>
      refine h.of_onlyUsers (onlyUsers_setQuota _ id quota) (quota?_setQuota h.quota ?_) ?_
      · rintro rfl
        exact hquota quota rfl
      · intro c hc
        exact (counter?_setQuota _ id quota owner).trans hc
    | arrive o => exact h.arrive o
    | receive n e =>
      simp only [Traffic.step]
      cases hr : a.traffic.requests[n]? with
      | none => exact h
      | some r => exact h.receive hr e
    | advance n =>
      simp only [Traffic.step]
      cases hr : a.traffic.requests[n]? with
      | none => exact h
      | some r =>
        rw [grant?, hr, Option.bind_some, Option.map_eq_none_iff] at hnone
        exact h.advance hr hnone
  · next n c hgrant =>
    obtain ⟨t, hr, ho, hc, hstep⟩ := grant?_eq_some hgrant
    rw [hstep]
    exact h.admission hq hr ho hc (inFlight_of_grant hgrant).1

theorem run (h : Bounded owner q a) (hq : 0 < q) (hquota : ∀ q', .setQuota owner q' ∈ moves → q' = q) :
    Bounded owner q (a.run owner moves) := by
  induction moves generalizing a with
  | nil => exact h
  | cons move rest ih =>
    refine ih (h.step hq ?_) ?_
    · rintro q' rfl
      exact hquota q' List.mem_cons_self
    · intro q' hmem
      exact hquota q' (List.mem_cons_of_mem _ hmem)

end Bounded

theorem run_concat (owner : Int) (a : Admissions) (moves : List Move) (move : Move) :
    a.run owner (moves ++ [move]) = (a.run owner moves).step owner move :=
  List.foldl_concat _ _ _ _

/-- A whole depot in which an owner has a quota, no more is counted than that, and the sizes of the owner's
    files are such as are stored for uploads. -/
structure Provided (d : Depot) (owner q : Int) : Prop where
  whole : d.db.IsWhole
  positive : 0 < q
  used : ∃ n, d.usage owner = .ok ⟨q, n⟩ ∧ 0 ≤ n ∧ n ≤ q
  sizes : ∀ f ∈ d.db.fileRows, f.ownerId = owner → IsSize f.size

variable {d : Depot}

theorem Provided.bounded (h : Provided d owner q) : Bounded owner q (start d) := by
  obtain ⟨n, hn, hlow, hhigh⟩ := h.used
  obtain ⟨hquota, hcount⟩ := Depot.usage_eq_ok_iff.mp hn
  refine ⟨h.whole, hquota, h.sizes, ?_, ?_, _, hcount, Or.inl ⟨n, rfl, hlow, ?_⟩⟩
  · intro id x hx
    cases hx
  · intro n t u hr
    cases hr
  · simpa [reserved, start, quiet, inFlight] using hhigh

/-- No upload in flight was granted more than the quota, nor more than the greatest size of a file. -/
theorem Bounded.ceiling_le (h : Bounded owner q a) (ha : a.traffic = (quiet d).run moves) {M : Nat}
    (hfile : ∀ t, .arrive (.upload t) ∈ moves → t.owner = owner → t.maxFileSize ≤ M) :
    ∀ m ∈ a.traffic.inFlight owner, a.ceiling m ≤ min q.toNat M := by
  intro m hm
  obtain ⟨r, hr, hin⟩ := mem_inFlight.mp hm
  obtain ⟨t, u, rfl, ho, hu⟩ := Request.isInFlight_iff.mp hin
  obtain ⟨-, hquota, -, hsize⟩ := h.granted m t u hr ho hu
  have hmem := List.mem_of_getElem? hr
  rw [ha] at hmem
  have harrived : .arrive (.upload t) ∈ moves := by
    rcases arrived_of_mem hmem with ⟨u', hu'⟩ | harrived
    · cases hu'
    · exact harrived
  have hle := hfile t harrived ho
  omega

/-- While no more than `k + 1` uploads of the owner are in flight at a time, an upload overlaps with at most `k`
    others, each of which was granted no more than the quota and the greatest size of a file. -/
theorem overlap_le (h : Provided d owner q) (hquota : ∀ q', .setQuota owner q' ∈ moves → q' = q) {k M : Nat}
    (hflight : ∀ done, done <+: moves → (((quiet d).run done).inFlight owner).card ≤ k + 1)
    (hfile : ∀ t, .arrive (.upload t) ∈ moves → t.owner = owner → t.maxFileSize ≤ M) :
    (((start d).run owner moves).overlap : Int) ≤ k * min q M := by
  induction moves using List.reverseRecOn with
  | nil =>
    have hq := h.positive
    have hmin : 0 ≤ min q (M : Int) := by omega
    exact Int.mul_nonneg (Int.natCast_nonneg k) hmin
  | append_singleton moves move ih =>
    have hpre : moves <+: moves ++ [move] := List.prefix_append _ _
    have hquota' : ∀ q', .setQuota owner q' ∈ moves → q' = q :=
      fun q' hmem => hquota q' (hpre.subset hmem)
    have hbounded := h.bounded.run h.positive hquota'
    rw [run_concat]
    unfold step
    split
    · exact ih hquota' (fun done hdone => hflight done (hdone.trans hpre))
        (fun t hmem => hfile t (hpre.subset hmem))
    · next n c hgrant =>
      have htraffic : ((start d).run owner moves).traffic = (quiet d).run moves := traffic_run owner (start d) moves
      have hcard : (((start d).run owner moves).traffic.inFlight owner).card ≤ k := by
        obtain ⟨hnew, hafter⟩ := inFlight_of_grant hgrant
        have hlater := hflight (moves ++ [move]) List.prefix_rfl
        have hrun : (quiet d).run (moves ++ [move]) = ((quiet d).run moves).step move := List.foldl_concat _ _ _ _
        rw [hrun, ← htraffic, hafter, Finset.card_insert_of_notMem hnew] at hlater
        omega
      have hceiling := hbounded.ceiling_le htraffic fun t hmem => hfile t (hpre.subset hmem)
      have hsum := Finset.sum_le_card_nsmul _ _ _ hceiling
      have hmul : ∑ m ∈ ((start d).run owner moves).traffic.inFlight owner, ((start d).run owner moves).ceiling m ≤
          k * min q.toNat M := hsum.trans (Nat.mul_le_mul_right _ hcard)
      have hq := h.positive
      have hcast : ((min q.toNat M : Nat) : Int) = min q M := by omega
      rw [← hcast]
      exact_mod_cast hmul

/-- However the uploads and deletions of an owner overlap, among any other requests, the quota is exceeded by no
    more than what was granted to the uploads that were in flight when one was last admitted, besides that one.
    As long as this is a 64-bit number the counter can be read. So with no more than `k + 1` uploads in flight at
    a time, the quota is exceeded by at most `k` ceilings. -/
theorem overshoot_le_overlap (h : Provided d owner q) (hquota : ∀ q', .setQuota owner q' ∈ moves → q' = q) :
    let a := (start d).run owner moves
    let db := ((quiet d).run moves).depot.db
    a.traffic = (quiet d).run moves ∧
      (∀ n, db.spaceUsed owner = .ok n → 0 ≤ n ∧ n ≤ q + a.overlap) ∧
      (q + a.overlap ≤ int64Max → ∃ n, db.spaceUsed owner = .ok n) ∧
      ∀ k M : Nat, (∀ done, done <+: moves → (((quiet d).run done).inFlight owner).card ≤ k + 1) →
        (∀ t, .arrive (.upload t) ∈ moves → t.owner = owner → t.maxFileSize ≤ M) →
          (a.overlap : Int) ≤ k * min q M ∧ ∀ n, db.spaceUsed owner = .ok n → n ≤ q + k * min q M := by
  intro a db
  have htraffic : a.traffic = (quiet d).run moves := traffic_run owner (start d) moves
  have hbounded : Bounded owner q a := h.bounded.run h.positive hquota
  obtain ⟨c, hcount, hfits⟩ := hbounded.counter
  rw [htraffic] at hcount
  have hle : ∀ n, db.spaceUsed owner = .ok n → 0 ≤ n ∧ n ≤ q + a.overlap := by
    intro n hn
    have hc := hcount.symm.trans (spaceUsed_eq_ok_iff.mp hn)
    exact hfits.le (Option.some.inj hc)
  refine ⟨htraffic, hle, ?_, ?_⟩
  · intro hlimit
    rcases hfits with ⟨n, rfl, -, -⟩ | ⟨hover, -⟩
    · exact ⟨n, spaceUsed_eq_ok_iff.mpr hcount⟩
    · exact absurd hlimit (Int.not_le.mpr hover)
  · intro k M hflight hfile
    have hoverlap := overlap_le h hquota hflight hfile
    refine ⟨hoverlap, ?_⟩
    intro n hn
    exact (hle n hn).2.trans (Int.add_le_add_left hoverlap q)

/-- A depot in which there is a user with the id 1 and a quota of eight bytes. -/
def depotOfEight : Depot := { Depot.fresh with db := (Database.fresh.createUser "alice" 8 "2026").2 }

/-- The file part of the request with the given number arrives, and the upload runs to its end. -/
def restOfHello (n : Nat) : List Move :=
  [.receive n (.part (some "file") (some "a.txt")), .receive n (.data (Bytes.ofAscii "hello")),
    .receive n .partEnd, .advance n, .advance n, .advance n, .advance n, .receive n .bodyEnd, .advance n, .advance n]

/-- Two uploads of five bytes each are admitted before one of them ends. -/
def twoOfHello : List Move :=
  [.arrive (.upload ⟨1, "f", "2026", 100⟩), .advance 0, .arrive (.upload ⟨1, "g", "2026", 100⟩), .advance 1] ++
    restOfHello 0 ++ restOfHello 1

theorem overshoot_le_overlap_of_two :
    Provided depotOfEight 1 8 ∧ (∀ q', Move.setQuota 1 q' ∈ twoOfHello → q' = 8) ∧
      ((quiet depotOfEight).run twoOfHello).depot.db.spaceUsed 1 = .ok 10 ∧
      ((start depotOfEight).run 1 twoOfHello).overlap = 8 ∧
      (10 : Int) ≤ 8 + ((start depotOfEight).run 1 twoOfHello).overlap := by
  have hprovided : Provided depotOfEight 1 8 := by
    refine ⟨⟨rfl, rfl, rfl⟩, by decide, ⟨0, ?_, by decide, by decide⟩, ?_⟩
    · exact Depot.usage_eq_ok_iff.mpr ⟨by decide +kernel, by decide +kernel⟩
    · intro f hf
      cases hf
  have hquota : ∀ q', Move.setQuota 1 q' ∈ twoOfHello → q' = 8 := by
    intro q' hmem
    simp [twoOfHello, restOfHello] at hmem
  have hused : ((quiet depotOfEight).run twoOfHello).depot.db.spaceUsed 1 = .ok 10 :=
    spaceUsed_eq_ok_iff.mpr (by decide +kernel)
  exact ⟨hprovided, hquota, hused, by decide +kernel,
    ((overshoot_le_overlap hprovided hquota).2.1 10 hused).2⟩

end Admissions

end FileDepot
