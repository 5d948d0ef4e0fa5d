import FileDepot.Web.Header

/-!
# Media types

The kind of a request body, as its `content-type` header tells it.
-/

namespace FileDepot

/-- A media type. Its own names are in small letters, the values of its parameters as they were sent. The
    subtype ends before its last plus sign, which a suffix follows. -/
structure MediaType where
  type : String
  subtype : String
  suffix : Option String
  parameters : List (String × String)
  deriving DecidableEq, Repr

namespace MediaType

/-- Splits a subtype before its last plus sign, unless that is its first character. -/
def splitSubtype (cs : List Char) : List Char × Option (List Char) :=
  let suffix := (cs.reverse.takeWhile (· != '+')).reverse
  if cs.length ≤ suffix.length + 1 then (cs, none)
  else (cs.take (cs.length - suffix.length - 1), some suffix)

/-- Whether a character may stand in a quoted value. -/
def isQuotable (c : Char) : Bool := 31 < c.toNat && c.toNat != 127

/-- Reads the value of a parameter and what follows it up to the next parameter. A quoted value has at least
    one character, which may be a quote. -/
def readValue (cs : List Char) : Option (List Char × List Char) :=
  match cs with
  | '"' :: first :: rest =>
    let more := rest.takeWhile (· != '"')
    match rest.drop more.length with
    | _ :: after =>
      if (first :: more).all isQuotable then
        match after.dropWhile (· == ' ') with
        | [] => some (first :: more, [])
        | ';' :: others => some (first :: more, others)
        | _ => none
      else none
    | [] => none
  | cs =>
    let value := cs.takeWhile HeaderValue.isTokenChar
    match cs.drop value.length with
    | [] => some (value, [])
    | ';' :: others => if value.isEmpty then none else some (value, others)
    | _ => none

/-- Reads at most `bound` parameters. -/
def readParameters : (bound : Nat) → List Char → Option (List (String × String))
  | 0, _ => none
  | bound + 1, cs =>
    match cs.dropWhile (· == ' ') with
    | [] => some []
    | cs =>
      let name := cs.takeWhile HeaderValue.isTokenChar
      match cs.drop name.length with
      | '=' :: rest =>
        if name.isEmpty then none
        else
          match readValue rest with
          | none => none
          | some (value, others) =>
            (readParameters bound others).map
              ((Text.lowerAscii (String.ofList name), String.ofList value) :: ·)
      | _ => none

/-- The media type that a text denotes. -/
def ofText? (text : String) : Option MediaType :=
  let cs := text.toList
  let type := cs.takeWhile HeaderValue.isTokenChar
  match cs.drop type.length with
  | '/' :: rest =>
    let name := rest.takeWhile HeaderValue.isTokenChar
    let (subtype, suffix) := splitSubtype name
    let lower (cs : List Char) : String := Text.lowerAscii (String.ofList cs)
    let withParameters (parameters : List (String × String)) : MediaType :=
      ⟨lower type, lower subtype, suffix.map lower, parameters⟩
    if type.isEmpty then none
    else
      match rest.drop name.length with
      | [] => some (withParameters [])
      | ';' :: others =>
        if name.isEmpty then none
        else (readParameters (others.length + 1) others).map withParameters
      | _ => none
  | _ => none

/-- Whether a body of this kind is JSON. -/
def isJson (m : MediaType) : Bool :=
  m.type == "application" && (m.subtype == "json" || m.suffix == some "json")

/-- What separates the parts of a multipart body of this kind. -/
def boundary? (m : MediaType) : Option String :=
  if m.type == "multipart" && m.subtype == "form-data" then m.parameters.lookup "boundary" else none

end MediaType

end FileDepot
