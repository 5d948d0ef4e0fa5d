import FileDepot.Error
import FileDepot.Multipart.Header
import FileDepot.Text.Quoted

/-!
# Reading a multipart body

A reader takes a multipart body in pieces of any size and tells what it finds: the start of a part, its data
as they arrive, its end, the end of the body, or why the body cannot be read.
-/

namespace FileDepot.Multipart

/-- What is found in a body. -/
inductive Event where
  | part (name filename : Option String)
  | data (bytes : Bytes)
  | partEnd
  | bodyEnd
  | broken (cause : UploadError)
  deriving DecidableEq, Repr

/-- What a reader expects next. -/
inductive Stage where
  | preamble
  | boundary
  | kind
  | padding
  | headers
  | content
  | ended
  deriving DecidableEq, Repr

/-- A reader: the boundary line, what is expected next, the bytes not yet understood, and the name of the
    part that is being read. -/
structure Reader where
  boundary : Bytes
  stage : Stage
  buffer : Bytes
  field : Option String
  deriving DecidableEq, Repr

namespace Reader

/-- A carriage return and a line feed. -/
def crlf : Bytes := [0x0D, 0x0A]

/-- The two dashes before a boundary, and after the last one. -/
def dashes : Bytes := [0x2D, 0x2D]

/-- A reader of a body whose parts are separated by the given boundary. -/
def start (boundary : Bytes) : Reader := ⟨dashes ++ boundary, .preamble, [], none⟩

/-- What ends the data of a part. -/
def terminator (r : Reader) : Bytes := crlf ++ r.boundary

/-- The failure of a body that ends too early or continues otherwise than it must. -/
def incomplete : Event := .broken (.malformed "incomplete multipart stream")

/-- The failure of a part whose data end with the body. -/
def incompleteField (field : Option String) : Event :=
  .broken (.malformed
    ("field " ++ Text.quoted (field.getD "<unknown>") ++ " received with incomplete data"))

/-- The failure of a body whose transport breaks off. -/
def interrupted : Event := .broken (.malformed "failed to read stream")

/-- The headers of a block, or the failure of a block that cannot be read. A name that is too long is told. -/
def headersOf (block : Bytes) : Except Event (List Header) :=
  match Header.readBlock Header.maxCount block with
  | none => .error (.broken (.malformed "failed to read headers"))
  | some headers =>
    match headers.find? fun h => Header.maxNameLength < h.name.length with
    | none => .ok headers
    | some h =>
      .error (.broken (.malformed
        ("failed to decode field's raw header name: " ++ Text.quoted (h.name.text?.getD ""))))

/-- The reader after the body, which finds nothing any more. -/
def finish (r : Reader) : Reader := { r with stage := .ended }

/-- The reader and the event at a place where more bytes are needed: none yet, or failure at the end. -/
def starved (r : Reader) (atEnd : Bool) (e : Event) : Option (Reader × List Event) :=
  if atEnd then some (r.finish, [e]) else none

/-- Understands the next piece of the buffer, unless more bytes are needed. -/
def step (r : Reader) (atEnd : Bool) : Option (Reader × List Event) :=
  match r.stage with
  | .preamble =>
    match Bytes.breakOn r.boundary r.buffer with
    | some (_, rest) => some ({ r with stage := .boundary, buffer := rest }, [])
    | none => r.starved atEnd incomplete
  | .boundary =>
    if Bytes.isShorter r.boundary.length r.buffer then r.starved atEnd incomplete
    else if r.boundary.isPrefixOf r.buffer then
      some ({ r with stage := .kind, buffer := r.buffer.drop r.boundary.length }, [])
    else some (r.finish, [incomplete])
  | .kind =>
    if Bytes.isShorter 2 r.buffer then r.starved atEnd incomplete
    else if dashes.isPrefixOf r.buffer then some (r.finish, [.bodyEnd])
    else some ({ r with stage := .padding }, [])
  | .padding =>
    let rest := r.buffer.dropWhile Header.isPadding
    if Bytes.isShorter 2 rest then r.starved atEnd incomplete
    else if crlf.isPrefixOf rest then
      some ({ r with stage := .headers, buffer := rest.drop 2 }, [])
    else some (r.finish, [incomplete])
  | .headers =>
    match Bytes.breakOn (crlf ++ crlf) r.buffer with
    | some (before, rest) =>
      match headersOf (before ++ crlf ++ crlf) with
      | .ok headers =>
        let disposition := Header.find? headers "content-disposition"
        let name := disposition.bind (Disposition.attribute? "name")
        let filename := disposition.bind (Disposition.attribute? "filename")
        some ({ r with stage := .content, buffer := rest.drop 4, field := name }, [.part name filename])
      | .error event => some (r.finish, [event])
    | none => r.starved atEnd incomplete
  | .content =>
    match Bytes.breakOn r.terminator r.buffer with
    | some (before, rest) =>
      some ({ r with stage := .boundary, buffer := rest.drop 2 }, [.data before, .partEnd])
    | none =>
      if atEnd then some (r.finish, [incompleteField r.field])
      else
        match Bytes.holdBack r.terminator r.buffer with
        | ([], _) => none
        | (b :: safe, held) => some ({ r with buffer := held }, [.data (b :: safe)])
  | .ended => none

/-- A bound on the number of steps that a reader can still make with what it has. -/
def stepsLeft (r : Reader) : Nat :=
  3 * r.buffer.length +
    match r.stage with
    | .preamble => 6
    | .boundary => 5
    | .kind => 4
    | .padding => 3
    | .headers => 2
    | .content => 1
    | .ended => 0

theorem stepsLeft_finish_lt {r : Reader} (h : r.stage ≠ .ended) : r.finish.stepsLeft < r.stepsLeft := by
  unfold stepsLeft finish
  cases hs : r.stage <;> simp_all

theorem stepsLeft_starved_lt {r r' : Reader} {atEnd : Bool} {e : Event} {events : List Event}
    (hr : r.stage ≠ .ended) (h : r.starved atEnd e = some (r', events)) :
    r'.stepsLeft < r.stepsLeft := by
  unfold starved at h
  split at h
  · cases h; exact stepsLeft_finish_lt hr
  · cases h

theorem stepsLeft_step_lt {r r' : Reader} {atEnd : Bool} {events : List Event}
    (h : r.step atEnd = some (r', events)) : r'.stepsLeft < r.stepsLeft := by
  unfold step at h
  split at h
  · next hs =>
    split at h
    · next before rest hb =>
      cases h
      have := congrArg List.length (Bytes.breakOn_eq_some hb).1
      simp [stepsLeft, hs] at *
      omega
    · exact stepsLeft_starved_lt (by simp [hs]) h
  · next hs =>
    split at h
    · exact stepsLeft_starved_lt (by simp [hs]) h
    · split at h
      · cases h
        simp only [stepsLeft, hs, List.length_drop]
        omega
      · cases h; exact stepsLeft_finish_lt (by simp [hs])
  · next hs =>
    split at h
    · exact stepsLeft_starved_lt (by simp [hs]) h
    · split at h
      · cases h; exact stepsLeft_finish_lt (by simp [hs])
      · cases h; simp [stepsLeft, hs]
  · next hs =>
    dsimp only at h
    split at h
    · exact stepsLeft_starved_lt (by simp [hs]) h
    · split at h
      · cases h
        have := (List.dropWhile_suffix (l := r.buffer) Header.isPadding).length_le
        simp [stepsLeft, hs]
        omega
      · cases h; exact stepsLeft_finish_lt (by simp [hs])
  · next hs =>
    split at h
    · next before rest hb =>
      split at h
      · cases h
        have := congrArg List.length (Bytes.breakOn_eq_some hb).1
        simp [stepsLeft, hs] at *
        omega
      · cases h; exact stepsLeft_finish_lt (by simp [hs])
    · exact stepsLeft_starved_lt (by simp [hs]) h
  · next hs =>
    split at h
    · next before rest hb =>
      cases h
      have h1 := congrArg List.length (Bytes.breakOn_eq_some hb).1
      have h2 := (Bytes.breakOn_eq_some hb).2.length_le
      simp [stepsLeft, hs, terminator, crlf] at *
      omega
    · split at h
      · cases h; exact stepsLeft_finish_lt (by simp [hs])
      · split at h
        · cases h
        · next b safe held hb =>
          cases h
          have := congrArg List.length (Bytes.holdBack_append r.terminator r.buffer)
          simp [stepsLeft, hs, hb] at *
          omega
  · cases h

/-- Understands as much of the buffer as can be understood. -/
def drain (r : Reader) (atEnd : Bool) : Reader × List Event :=
  match _h : r.step atEnd with
  | none => (r, [])
  | some (r', events) =>
    let next := drain r' atEnd
    (next.1, events ++ next.2)
termination_by r.stepsLeft
decreasing_by exact stepsLeft_step_lt _h

/-- Takes the next bytes of a body and tells what is found; `atEnd` says that no more will come. -/
def push (r : Reader) (bytes : Bytes) (atEnd : Bool) : Reader × List Event :=
  drain { r with buffer := r.buffer ++ bytes } atEnd

end Reader

end FileDepot.Multipart
