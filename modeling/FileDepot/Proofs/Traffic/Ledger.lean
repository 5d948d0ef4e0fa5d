import FileDepot.Proofs.Traffic.Books

/-!
# The ledger of an owner

The counter of an owner against the bytes of the finished files, while uploads and deletions overtake each
other. What requests still owe the counter makes up the difference, unless a call was cut off at zero: then
bytes are counted that nobody stores, and they stay counted.
-/

namespace FileDepot

open Database

namespace Traffic

variable {s : Traffic} {used : List String} {owner lost : Int} {move : Move} {moves : List Move}
  {c : Counter}

/-- A depot that nobody has asked for anything. -/
def quiet (d : Depot) : Traffic := ⟨d, []⟩

/-- Whether every request that has arrived is done. -/
def IsDone (s : Traffic) : Prop := ∀ r ∈ s.requests, r.isDone = true

instance (s : Traffic) : Decidable s.IsDone := inferInstanceAs (Decidable (∀ r ∈ s.requests, r.isDone = true))

/-- The bytes of the finished files of an owner. -/
def stored (s : Traffic) (owner : Int) : Int := storedBytes s.depot.db.fileRows owner

/-- What the requests under way are going to add to the counter of an owner with their next accesses. -/
def dues (s : Traffic) (owner : Int) : Int := (s.requests.map fun r => (r.due owner).getD 0).sum

/-- What a move adds to the counter of an owner, if it calls on the counter. -/
def call? (owner : Int) (s : Traffic) : Move → Option Int
  | .advance n => s.requests[n]?.bind (Request.due owner)
  | _ => none

/-- Whether a move calls on the counter of an owner with a sum for which `P` holds. -/
def Sums (P : Int → Prop) (owner : Int) (s : Traffic) (move : Move) : Prop :=
  ∃ delta n, s.call? owner move = some delta ∧ s.depot.db.spaceUsed owner = .ok n ∧ P (n + delta)

/-- Whether a call is cut off at zero. -/
def IsCut (owner : Int) (s : Traffic) (move : Move) : Prop := Sums (· < 0) owner s move

/-- Whether the sum of a call is not a 64-bit number. -/
def Overflows (owner : Int) (s : Traffic) (move : Move) : Prop :=
  Sums (fun sum => sum < int64Min ∨ int64Max < sum) owner s move

/-- Whether the bytes that are stored cover, at a call, what all the other requests owe the counter, without
    leaving the 64-bit numbers. -/
def Covered (owner : Int) (s : Traffic) (move : Move) : Prop :=
  ∀ delta ∈ s.call? owner move,
    s.dues owner - delta ≤ s.stored owner ∧ s.stored owner - (s.dues owner - delta) ≤ int64Max

instance (owner : Int) (s : Traffic) (move : Move) : Decidable (Covered owner s move) :=
  inferInstanceAs (Decidable (∀ delta ∈ s.call? owner move, _ ∧ _))

/-- Whether something holds at each of several moves. -/
def Along (P : Traffic → Move → Prop) : Traffic → List Move → Prop
  | _, [] => True
  | s, move :: rest => P s move ∧ Along P (s.step move) rest

instance decidableAlong (P : Traffic → Move → Prop) [∀ s move, Decidable (P s move)] :
    ∀ (s : Traffic) (moves : List Move), Decidable (Along P s moves)
  | _, [] => inferInstanceAs (Decidable True)
  | s, move :: rest =>
    have := decidableAlong P (s.step move) rest
    inferInstanceAs (Decidable (P s move ∧ Along P (s.step move) rest))

theorem along_append {P : Traffic → Move → Prop} {before after : List Move} :
    Along P s (before ++ after) ↔ Along P s before ∧ Along P (s.run before) after := by
  induction before generalizing s with
  | nil => exact (and_iff_right trivial).symm
  | cons move rest ih =>
    rw [List.cons_append, Along, Along, ih, and_assoc]
    rfl

/-! ## The books of the whole -/

theorem dues_set {n : Nat} {r : Request} (hr : s.requests[n]? = some r) (d' : Depot) (r' : Request)
    (owner : Int) :
    dues ⟨d', s.requests.set n r'⟩ owner =
      s.dues owner - (r.due owner).getD 0 + (r'.due owner).getD 0 := by
  obtain ⟨hn, rfl⟩ := List.getElem?_eq_some_iff.mp hr
  rw [dues, dues, List.map_set, List.sum_set', dif_pos (by simpa using hn), List.getElem_map]
  omega

theorem dues_of_isDone (h : s.IsDone) (owner : Int) : s.dues owner = 0 := by
  refine List.sum_eq_zero fun x hx => ?_
  obtain ⟨r, hr, rfl⟩ := List.mem_map.mp hx
  rw [Request.due_of_isDone (h r hr)]
  rfl

/-- A move pays into the counter what the call says, and the stored bytes less the dues follow. -/
theorem books_step (h : s.Regular used) (hc : s.depot.db.counter? owner = some c) (move : Move) :
    (s.step move).depot.db.counter? owner =
        some (match s.call? owner move with
          | some delta => c.add delta
          | none => c) ∧
      (s.step move).stored owner - (s.step move).dues owner =
        s.stored owner - s.dues owner + (s.call? owner move).getD 0 := by
  cases move with
  | createUser username quota createdAt =>
    refine ⟨counter?_createUser hc username quota createdAt, ?_⟩
    have hrows := (onlyUsers_createUser s.depot.db username quota createdAt).fileRows
    simp only [step, stored, dues, call?, hrows, Option.getD_none, Int.add_zero]
  | setQuota id quota =>
    refine ⟨(counter?_setQuota s.depot.db id quota owner).trans hc, ?_⟩
    have hrows := (onlyUsers_setQuota s.depot.db id quota).fileRows
    simp only [step, stored, dues, call?, hrows, Option.getD_none, Int.add_zero]
  | arrive o =>
    refine ⟨hc, ?_⟩
    simp only [step, stored, dues, call?, List.map_append, List.map_cons, List.map_nil, List.sum_append,
      List.sum_cons, List.sum_nil, Request.due_request, Option.getD_none, Int.add_zero]
  | receive n e =>
    simp only [step, call?]
    cases hr : s.requests[n]? with
    | none => exact ⟨hc, (Int.add_zero _).symm⟩
    | some r =>
      refine ⟨hc, ?_⟩
      simp only
      rw [dues_set hr, Request.due_receive]
      simp only [stored, Option.getD_none]
      omega
  | advance n =>
    simp only [step, call?]
    cases hr : s.requests[n]? with
    | none => exact ⟨hc, (Int.add_zero _).symm⟩
    | some r =>
      simp only [Option.bind_some]
      rw [dues_set hr]
      cases hd : r.due owner with
      | some delta =>
        obtain ⟨hcount, hrows, hdue⟩ := r.step_of_due hd hc
        refine ⟨hcount, ?_⟩
        simp only [stored, hrows, hdue, Option.getD_some, Option.getD_none]
        omega
      | none =>
        have hmem := List.mem_of_getElem? hr
        have hdefers : Request.Defers owner s.depot.db (r.step s.depot).2.db (r.step s.depot).1 := by
          cases r with
          | upload t u => exact Request.defers_upload h.whole h.unique hd (h.stubs t u hmem)
          | fileDeletion o id x =>
            refine Request.defers_fileDeletion h.whole h.unique hd fun f hf => ?_
            have hchosen := h.chosen o id x hmem f hf
            exact ⟨hchosen.size, hchosen.row⟩
          | folderCreation o name parent id createdAt result? =>
            exact Request.defers_other h.whole (by simp) (by simp)
          | folderRemoval o ref x => exact Request.defers_other h.whole (by simp) (by simp)
          | fileRenaming o id name x => exact Request.defers_other h.whole (by simp) (by simp)
        refine ⟨hdefers.counter.trans hc, ?_⟩
        simp only [stored, hdefers.bytes, Option.getD_none]
        omega

/-! ## The ledger -/

/-- The counter of an owner shows the bytes that are stored less what is due, and on top of that bytes that
    nobody stores. -/
structure Balances (s : Traffic) (used : List String) (owner lost : Int) : Prop where
  regular : s.Regular used
  counter : s.depot.db.counter? owner = some (.exact (s.stored owner - s.dues owner + lost))

namespace Balances

theorem sums_iff (h : s.Balances used owner lost) {P : Int → Prop} :
    Sums P owner s move ↔
      ∃ delta, s.call? owner move = some delta ∧ P (s.stored owner - s.dues owner + lost + delta) := by
  constructor
  · rintro ⟨delta, n, hcall, hn, hp⟩
    rw [spaceUsed_eq_ok_iff, h.counter] at hn
    cases hn
    exact ⟨delta, hcall, hp⟩
  · rintro ⟨delta, hcall, hp⟩
    exact ⟨delta, _, hcall, spaceUsed_eq_ok_iff.mpr h.counter, hp⟩

/-- A move loses bytes exactly if it is cut, and what is lost is not found again. -/
theorem step (h : s.Balances used owner lost) (hnew : ∀ id, move.fileId? = some id → id ∉ used)
    (hfits : ¬ Overflows owner s move) :
    ∃ lost', (s.step move).Balances (used ++ move.fileId?.toList) owner lost' ∧ lost ≤ lost' ∧
      (lost' = lost ↔ ¬ IsCut owner s move) := by
  have hregular := h.regular.step hnew
  obtain ⟨hcount, hbooks⟩ := books_step h.regular h.counter move
  rw [Overflows, h.sums_iff] at hfits
  rw [IsCut, h.sums_iff]
  cases hcall : s.call? owner move with
  | none =>
    rw [hcall] at hcount hbooks
    refine ⟨lost, ⟨hregular, ?_⟩, Int.le_refl lost, by simp⟩
    rw [hcount, hbooks, Option.getD_none, Int.add_zero]
  | some delta =>
    rw [hcall] at hcount hbooks
    simp only [Option.getD_some] at hcount hbooks
    have hrange : int64Min ≤ s.stored owner - s.dues owner + lost + delta ∧
        s.stored owner - s.dues owner + lost + delta ≤ int64Max := by
      by_contra hout
      exact hfits ⟨delta, hcall, by omega⟩
    rw [Counter.add_of_range hrange.1 hrange.2] at hcount
    have hpaid : (s.step move).stored owner - (s.step move).dues owner + lost =
        s.stored owner - s.dues owner + lost + delta := by omega
    rw [← hpaid] at hcount
    refine ⟨max 0 ((s.step move).stored owner - (s.step move).dues owner + lost) -
      ((s.step move).stored owner - (s.step move).dues owner), ⟨hregular, ?_⟩, by omega, ?_⟩
    · rw [hcount]
      congr 2
      omega
    · simp only [Option.some.injEq, exists_eq_left', ← hpaid]
      omega

/-- The bytes that the others owe are covered exactly if a call is kept as it is. -/
theorem covered_iff (h : s.Balances used owner 0) :
    Covered owner s move ↔ ¬ IsCut owner s move ∧ ¬ Overflows owner s move := by
  rw [IsCut, Overflows, h.sums_iff, h.sums_iff]
  cases hcall : s.call? owner move with
  | none => simp [Covered, hcall]
  | some delta =>
    simp only [Covered, hcall, Option.mem_def, Option.some.injEq, forall_eq', exists_eq_left', int64Min,
      int64Max]
    omega

end Balances

/-- Where all ids are new, the id of the next move is, and those of the others are beside it. -/
theorem allots_cons (hnew : (used ++ (move :: moves).filterMap Move.fileId?).Nodup) :
    (∀ id, move.fileId? = some id → id ∉ used) ∧
      (used ++ move.fileId?.toList ++ moves.filterMap Move.fileId?).Nodup := by
  cases hid : move.fileId? with
  | none =>
    rw [List.filterMap_cons_none hid] at hnew
    exact ⟨by simp, by simpa using hnew⟩
  | some id =>
    rw [List.filterMap_cons_some hid] at hnew
    refine ⟨?_, by simpa using hnew⟩
    intro id' hid' hmem
    cases hid'
    exact (List.nodup_append.mp hnew).2.2 id hmem id List.mem_cons_self rfl

namespace Balances

/-- Along a run bytes are lost exactly if some call is cut. -/
theorem run (h : s.Balances used owner lost) (hnew : (used ++ moves.filterMap Move.fileId?).Nodup)
    (hfits : Along (fun s move => ¬ Overflows owner s move) s moves) :
    ∃ used' lost', (s.run moves).Balances used' owner lost' ∧ lost ≤ lost' ∧
      (lost' = lost ↔ Along (fun s move => ¬ IsCut owner s move) s moves) := by
  induction moves generalizing s used lost with
  | nil => exact ⟨used, lost, h, Int.le_refl lost, iff_of_true rfl trivial⟩
  | cons move rest ih =>
    obtain ⟨hid, hrest⟩ := allots_cons hnew
    obtain ⟨lost₁, h₁, hle₁, hiff₁⟩ := h.step hid hfits.1
    obtain ⟨used', lost', h', hle, hiff⟩ := ih h₁ hrest hfits.2
    refine ⟨used', lost', h', Int.le_trans hle₁ hle, ?_⟩
    rw [Along, ← hiff₁, ← hiff]
    constructor
    · intro heq
      exact ⟨by omega, by omega⟩
    · rintro ⟨heq₁, heq⟩
      rw [heq, heq₁]

/-- As long as nothing is lost, no call is cut or leaves the 64-bit numbers exactly if every call is
    covered. -/
theorem along_iff (h : s.Balances used owner 0) (hnew : (used ++ moves.filterMap Move.fileId?).Nodup) :
    (Along (fun s move => ¬ IsCut owner s move) s moves ∧
        Along (fun s move => ¬ Overflows owner s move) s moves) ↔ Along (Covered owner) s moves := by
  induction moves generalizing s used with
  | nil => exact iff_of_true ⟨trivial, trivial⟩ trivial
  | cons move rest ih =>
    obtain ⟨hid, hrest⟩ := allots_cons hnew
    have hnext : Covered owner s move → (s.step move).Balances (used ++ move.fileId?.toList) owner 0 := by
      intro hcov
      obtain ⟨hcut, hfits⟩ := h.covered_iff.mp hcov
      obtain ⟨lost, h', -, hiff⟩ := h.step hid hfits
      rw [hiff.mpr hcut] at h'
      exact h'
    constructor
    · rintro ⟨⟨hcut, hcuts⟩, hfits, hfitss⟩
      have hcov := h.covered_iff.mpr ⟨hcut, hfits⟩
      exact ⟨hcov, (ih (hnext hcov) hrest).mp ⟨hcuts, hfitss⟩⟩
    · rintro ⟨hcov, hcovs⟩
      obtain ⟨hcut, hfits⟩ := h.covered_iff.mp hcov
      obtain ⟨hcuts, hfitss⟩ := (ih (hnext hcov) hrest).mpr hcovs
      exact ⟨⟨hcut, hcuts⟩, hfits, hfitss⟩

/-- When every request is done, the counter shows the bytes that are stored and those that were lost. -/
theorem spaceUsed_of_isDone (h : s.Balances used owner lost) (hdone : s.IsDone) :
    s.depot.db.spaceUsed owner = .ok (s.stored owner + lost) := by
  rw [spaceUsed_eq_ok_iff, h.counter, dues_of_isDone hdone, Int.sub_zero]

end Balances

/-! ## Runs from a balanced depot -/

/-- A whole depot in which the counter of an owner shows the bytes of the finished files. Every size has an
    opposite among the 64-bit numbers. -/
structure Balanced (d : Depot) (owner : Int) : Prop where
  whole : d.db.IsWhole
  sizes : ∀ f ∈ d.db.fileRows, f.size ≠ int64Min
  counted : d.db.spaceUsed owner = .ok (storedBytes d.db.fileRows owner)

/-- Whether the ids of the files of a depot and of the uploads among several moves are all different. -/
def AllotsNew (d : Depot) (moves : List Move) : Prop :=
  (d.db.fileRows.map File.id ++ moves.filterMap Move.fileId?).Nodup

theorem Balanced.balances {d : Depot} (hb : Balanced d owner) (hnew : AllotsNew d moves) :
    (quiet d).Balances (d.db.fileRows.map File.id) owner 0 where
  regular :=
    { whole := hb.whole
      unique := (List.nodup_append.mp hnew).1
      sizes := hb.sizes
      known := fun f hf => List.mem_map_of_mem hf
      given := fun t u hu => by cases hu
      apart := fun i j t t' u u' hi => by cases hi
      stubs := fun t u hu => by cases hu
      chosen := fun o id x hx => by cases hx }
  counter := by
    have hcount := spaceUsed_eq_ok_iff.mp hb.counted
    simpa [quiet, stored, dues] using hcount

/-- Uploads and deletions may overtake each other in any way, among any other requests, and start from a
    depot in which the counter of an owner shows the bytes of the finished files. No call on the counter is
    cut off at zero, or leaves the 64-bit numbers, exactly if at every call the bytes that are stored cover
    what the other requests owe. Then the counter shows the stored bytes again once all requests are done;
    and unless a call leaves the 64-bit numbers, it does so only then. -/
theorem uncut_iff_covered {d : Depot} (hb : Balanced d owner) (hnew : AllotsNew d moves) :
    (Along (fun s move => ¬ IsCut owner s move) (quiet d) moves ∧
        Along (fun s move => ¬ Overflows owner s move) (quiet d) moves ↔
      Along (Covered owner) (quiet d) moves) ∧
      (Along (Covered owner) (quiet d) moves → ((quiet d).run moves).IsDone →
        ((quiet d).run moves).depot.db.spaceUsed owner = .ok (((quiet d).run moves).stored owner)) ∧
      (Along (fun s move => ¬ Overflows owner s move) (quiet d) moves → ((quiet d).run moves).IsDone →
        (((quiet d).run moves).depot.db.spaceUsed owner = .ok (((quiet d).run moves).stored owner) ↔
          Along (fun s move => ¬ IsCut owner s move) (quiet d) moves)) := by
  have hbal := hb.balances hnew
  have hexact : Along (fun s move => ¬ Overflows owner s move) (quiet d) moves →
      ((quiet d).run moves).IsDone →
        (((quiet d).run moves).depot.db.spaceUsed owner = .ok (((quiet d).run moves).stored owner) ↔
          Along (fun s move => ¬ IsCut owner s move) (quiet d) moves) := by
    intro hfits hdone
    obtain ⟨used', lost, hrun, -, hiff⟩ := hbal.run hnew hfits
    rw [hrun.spaceUsed_of_isDone hdone, ← hiff, Except.ok.injEq]
    omega
  refine ⟨hbal.along_iff hnew, ?_, hexact⟩
  intro hcov hdone
  obtain ⟨hcut, hfits⟩ := (hbal.along_iff hnew).mpr hcov
  exact (hexact hfits hdone).mpr hcut

/-- A depot in which there is a user with the id 1. -/
def depotOfAlice : Depot := { Depot.fresh with db := (Database.fresh.createUser "alice" 0 "2026").2 }

/-- A file of five bytes is uploaded up to the access that finishes it. -/
def uploadOfHello : List Move :=
  [.arrive (.upload ⟨1, "f", "2026", 100⟩), .advance 0, .receive 0 (.part (some "file") (some "a.txt")),
    .receive 0 (.data (Bytes.ofAscii "hello")), .receive 0 .partEnd, .advance 0, .advance 0, .advance 0,
    .advance 0, .receive 0 .bodyEnd, .advance 0]

/-- The file is deleted up to the access that removes its row. -/
def deletionOfHello : List Move := [.arrive (.delete 1 "f"), .advance 1, .advance 1, .advance 1]

/-- The bytes of the file are counted, and then it is deleted. -/
def countedUpload : List Move := uploadOfHello ++ .advance 0 :: (deletionOfHello ++ [.advance 1])

/-- The deletion gives the bytes of the file back before the upload counts them. -/
def overtakenUpload : List Move := uploadOfHello ++ (deletionOfHello ++ [.advance 1, .advance 0])

theorem balanced_depotOfAlice : Balanced depotOfAlice 1 where
  whole := ⟨rfl, rfl, rfl⟩
  sizes := fun f hf => by cases hf
  counted := spaceUsed_eq_ok_iff.mpr (by decide +kernel)

theorem uncut_iff_covered_of_hello :
    Balanced depotOfAlice 1 ∧ AllotsNew depotOfAlice countedUpload ∧
      Along (Covered 1) (quiet depotOfAlice) countedUpload ∧
      ((quiet depotOfAlice).run countedUpload).IsDone ∧
      ((quiet depotOfAlice).run countedUpload).depot.db.spaceUsed 1 =
        .ok (((quiet depotOfAlice).run countedUpload).stored 1) := by
  have hnew : AllotsNew depotOfAlice countedUpload := by
    unfold AllotsNew
    decide +kernel
  have hcov : Along (Covered 1) (quiet depotOfAlice) countedUpload := by decide +kernel
  have hdone : ((quiet depotOfAlice).run countedUpload).IsDone := by decide +kernel
  exact ⟨balanced_depotOfAlice, hnew, hcov, hdone,
    (uncut_iff_covered balanced_depotOfAlice hnew).2.1 hcov hdone⟩

/-- The call with which the deletion gives the bytes back is cut off, although both requests succeed. The
    file is gone, and its five bytes stay counted. -/
theorem overtaken_upload_is_cut :
    Balanced depotOfAlice 1 ∧ AllotsNew depotOfAlice overtakenUpload ∧
      ¬ Along (fun s move => ¬ IsCut 1 s move) (quiet depotOfAlice) overtakenUpload ∧
      (∀ r ∈ ((quiet depotOfAlice).run overtakenUpload).requests, r.succeeded = true) ∧
      ((quiet depotOfAlice).run overtakenUpload).stored 1 = 0 ∧
      ((quiet depotOfAlice).run overtakenUpload).depot.db.spaceUsed 1 = .ok 5 := by
  refine ⟨balanced_depotOfAlice, ?_, ?_, by decide +kernel, by decide +kernel,
    spaceUsed_eq_ok_iff.mpr (by decide +kernel)⟩
  · unfold AllotsNew
    decide +kernel
  · intro h
    rw [overtakenUpload, along_append, along_append] at h
    have hcut : IsCut 1 (((quiet depotOfAlice).run uploadOfHello).run deletionOfHello) (.advance 1) :=
      ⟨-5, 0, by decide +kernel, spaceUsed_eq_ok_iff.mpr (by decide +kernel), by decide⟩
    exact h.2.2.1 hcut

end Traffic

end FileDepot
