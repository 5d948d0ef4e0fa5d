import FileDepot.Json.Kept

/-!
# Public keys

The key that the header of a token may carry. It is not used, but it has to have the form of a key.
-/

namespace FileDepot

namespace PublicKey

open Json.Reader Json.Kept

/-- The algorithms that a key can be meant for. -/
def algorithms : List String :=
  ["HS256", "HS384", "HS512", "ES256", "ES384", "RS256", "RS384", "RS512", "PS256", "PS384", "PS512", "EdDSA",
    "RSA1_5", "RSA-OAEP", "RSA-OAEP-256"]

/-- The curves that a key can be on. -/
def curves : List String := ["P-256", "P-384", "P-521", "Ed25519"]

/-- A part of a key: its name and what its value has to be. -/
structure Part where
  name : String
  isRight : Json.Kept → Bool

/-- The parts that a key of any kind may have. -/
def commonParts : List Part :=
  [⟨"use", isText⟩, ⟨"key_ops", isTexts⟩, ⟨"alg", isOneOf algorithms isVoid⟩, ⟨"kid", isText⟩, ⟨"x5u", isText⟩,
    ⟨"x5c", isTexts⟩, ⟨"x5t", isText⟩, ⟨"x5t#S256", isText⟩]

/-- The parts that a key must have, for each kind of key. -/
def kinds : List (List Part) :=
  let kind (name : String) : Part := ⟨"kty", isOneOf [name] isNull⟩
  let curve : Part := ⟨"crv", isOneOf curves isNull⟩
  [[kind "EC", curve, ⟨"x", isText⟩, ⟨"y", isText⟩],
    [kind "RSA", ⟨"n", isText⟩, ⟨"e", isText⟩],
    [kind "oct", ⟨"k", isText⟩],
    [kind "OKP", curve, ⟨"x", isText⟩]]

/-- The values of the fields with a given name. -/
def values (name : String) (fields : List (String × Json.Kept)) : List Json.Kept :=
  (fields.filter (·.1 == name)).map (·.2)

/-- Whether a part is missing, null or right. It may be given only once. -/
def Part.isAllowed (part : Part) (fields : List (String × Json.Kept)) : Bool :=
  match values part.name fields with
  | [] => true
  | [value] => value.isNull || part.isRight value
  | _ => false

/-- Whether a part is given once and right. -/
def Part.isGiven (part : Part) (fields : List (String × Json.Kept)) : Bool :=
  match values part.name fields with
  | [value] => part.isRight value
  | _ => false

/-- Whether fields make a public key: the common parts are right where they are given, and all parts of some
    kind of key are there. Other fields are not looked at. -/
def isKey (fields : List (String × Json.Kept)) : Bool :=
  commonParts.all (·.isAllowed fields) && kinds.any (·.all (·.isGiven fields))

/-- Reads a public key within the header of a token. Only its form counts. -/
def read : Json.Reader Json := do
  if (← afterBlanks) != 0x7B then mismatch
  match ← Json.Kept.read (maxDepth - 1) with
  | .record fields => if isKey fields then return .null else throw .mismatched
  | _ => throw .mismatched

end PublicKey

end FileDepot
