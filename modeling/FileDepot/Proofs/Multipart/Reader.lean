import FileDepot.Proofs.Upload.Hearing

/-!
# The reader of a body and what is heard of it

The events that a reader finds follow the order of a body: parts are opened and closed in turn, and the end
comes between two parts or as a failure. When the bytes have ended, so has the body.
-/

namespace FileDepot

namespace Multipart.Reader

variable {r r' : Reader} {h : Hearing} {events : List Event} {atEnd : Bool} {e : Event}

/-- The reader stands at the place in the body that the events have reached. -/
def Agrees (r : Reader) (h : Hearing) : Prop :=
  match r.stage with
  | .content => h.place = .inFile ∨ h.place = .inOther
  | .ended => h.place = .ended
  | _ => h.place = .between

theorem hear_broken (h : Hearing) (cause : UploadError) : (h.hear (.broken cause)).place = .ended := by
  obtain ⟨place, bytes⟩ := h
  cases place <;> rfl

theorem agrees_finish (r : Reader) (h : Hearing) (cause : UploadError) :
    r.finish.Agrees (h.hearAll [.broken cause]) :=
  hear_broken h cause

theorem agrees_starved {cause : UploadError} (hs : r.starved atEnd (.broken cause) = some (r', events)) :
    r'.Agrees (h.hearAll events) := by
  unfold starved at hs
  split at hs
  · cases hs
    exact agrees_finish r h cause
  · cases hs

/-- A part that begins is entered. -/
theorem agrees_part (hp : h.place = .between) (hs : r.stage = .content) (name filename : Option String) :
    r.Agrees (h.hearAll [.part name filename]) := by
  obtain ⟨place, bytes⟩ := h
  simp only at hp
  subst hp
  simp only [Agrees, hs, Hearing.hearAll, List.foldl_cons, List.foldl_nil]
  unfold Hearing.hear
  split <;> simp_all

/-- Data leave the reader where it is. -/
theorem place_hear_data (h : Hearing) (bytes : Bytes) : (h.hear (.data bytes)).place = h.place := by
  obtain ⟨place, before⟩ := h
  cases place <;> rfl

theorem agrees_step (ha : r.Agrees h) (hs : r.step atEnd = some (r', events)) :
    r'.Agrees (h.hearAll events) := by
  unfold step at hs
  unfold Agrees at ha
  split at hs
  · next hstage =>
    rw [hstage] at ha
    split at hs
    · cases hs
      exact ha
    · exact agrees_starved hs
  · next hstage =>
    rw [hstage] at ha
    split at hs
    · exact agrees_starved hs
    · split at hs
      · cases hs
        exact ha
      · cases hs
        exact agrees_finish r h _
  · next hstage =>
    rw [hstage] at ha
    split at hs
    · exact agrees_starved hs
    · split at hs
      · cases hs
        obtain ⟨place, bytes⟩ := h
        simp only at ha
        subst ha
        rfl
      · cases hs
        exact ha
  · next hstage =>
    rw [hstage] at ha
    simp only at hs
    split at hs
    · exact agrees_starved hs
    · split at hs
      · cases hs
        exact ha
      · cases hs
        exact agrees_finish r h _
  · next hstage =>
    rw [hstage] at ha
    split at hs
    · split at hs
      · cases hs
        exact agrees_part ha rfl _ _
      · next event heq =>
        cases hs
        obtain ⟨cause, rfl⟩ : ∃ cause, event = .broken cause := by
          unfold headersOf at heq
          split at heq
          · cases heq
            exact ⟨_, rfl⟩
          · split at heq
            · cases heq
            · cases heq
              exact ⟨_, rfl⟩
        exact agrees_finish r h cause
    · exact agrees_starved hs
  · next hstage =>
    rw [hstage] at ha
    split at hs
    · cases hs
      obtain ⟨place, bytes⟩ := h
      rcases ha with ha | ha <;> simp only at ha <;> subst ha <;> rfl
    · split at hs
      · cases hs
        exact agrees_finish r h _
      · split at hs
        · cases hs
        · cases hs
          simp only [Agrees, hstage, Hearing.hearAll, List.foldl_cons, List.foldl_nil, place_hear_data]
          exact ha
  · cases hs

/-- Where no more bytes will come, a reader only stops at the end of the body. -/
theorem stage_of_step_none (hs : r.step true = none) : r.stage = .ended := by
  unfold step at hs
  split at hs
  · split at hs <;> simp [starved] at hs
  · split at hs
    · simp [starved] at hs
    · split at hs <;> cases hs
  · split at hs
    · simp [starved] at hs
    · split at hs <;> cases hs
  · simp only at hs
    split at hs
    · simp [starved] at hs
    · split at hs <;> cases hs
  · split at hs
    · split at hs <;> cases hs
    · simp [starved] at hs
  · split at hs
    · cases hs
    · simp at hs
  · assumption

theorem drain_of_none (hs : r.step atEnd = none) : r.drain atEnd = (r, []) := by
  rw [drain]
  split
  · rfl
  · next heq =>
    rw [hs] at heq
    cases heq

theorem drain_of_some (hs : r.step atEnd = some (r', events)) :
    r.drain atEnd = ((r'.drain atEnd).1, events ++ (r'.drain atEnd).2) := by
  rw [drain]
  split
  · next heq =>
    rw [hs] at heq
    cases heq
  · next heq =>
    rw [hs] at heq
    cases heq
    rfl

theorem agrees_drain (r : Reader) (atEnd : Bool) (ha : r.Agrees h) :
    (r.drain atEnd).1.Agrees (h.hearAll (r.drain atEnd).2) := by
  induction r using drain.induct atEnd generalizing h with
  | case1 r hs =>
    rw [drain_of_none hs]
    exact ha
  | case2 r r' events hs ih =>
    rw [drain_of_some hs, Hearing.hearAll_append]
    exact ih (agrees_step ha hs)

theorem stage_drain_atEnd (r : Reader) : (r.drain true).1.stage = .ended := by
  induction r using drain.induct true with
  | case1 r hs =>
    rw [drain_of_none hs]
    exact stage_of_step_none hs
  | case2 r r' events hs ih =>
    rw [drain_of_some hs]
    exact ih

/-- What is found in the next bytes of a body leads to the place where the reader stands then. -/
theorem agrees_push (ha : r.Agrees h) (bytes : Bytes) (atEnd : Bool) :
    (r.push bytes atEnd).1.Agrees (h.hearAll (r.push bytes atEnd).2) :=
  agrees_drain _ atEnd ha

/-- The last bytes of a body lead to its end. -/
theorem place_push_atEnd (ha : r.Agrees h) (bytes : Bytes) :
    (h.hearAll (r.push bytes true).2).place = .ended := by
  have hp := agrees_push ha bytes true
  unfold Agrees at hp
  rw [push, stage_drain_atEnd] at hp
  exact hp

end Multipart.Reader

end FileDepot
