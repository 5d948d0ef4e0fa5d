import FileDepot.Crypto.Base64
import FileDepot.Crypto.Sha256
import FileDepot.Number
import FileDepot.Web.PublicKey

/-!
# Tokens

Signed statements about who makes a request. A token has three parts between dots: a header and the claims,
both JSON records in Base64, and a keyed hash of these two parts. Tokens are issued elsewhere with a shared
secret; here they are only checked.
-/

namespace FileDepot

/-- What a token says: the user, and the seconds since 1970 at which it was issued and at which it expires
    (`JwtClaims`). -/
structure Claims where
  subject : Int
  username : Option String
  issuedAt : Nat
  expires : Nat
  deriving DecidableEq, Repr

namespace Token

open Json.Reader

/-- The one signature algorithm that is accepted. -/
def algorithm : String := "HS256"

/-- Seconds for which an expired token is still accepted. -/
def leeway : Nat := 60

/-- Reads the name of an algorithm: a text, or an object with that text as its only name and a null. -/
def readAlgorithm : Json.Reader Json := do
  if (← afterBlanks) == 0x7B then
    skip
    if (← afterBlanks) != 0x22 then throw .malformed
    skip
    let name ← string
    colon
    if (← afterBlanks) != 0x6E then throw .mismatched
    skip
    word "ull"
    if (← afterBlanks) != 0x7D then throw .malformed
    skip
    return .text name
  else text

/-- Reads a list of texts. -/
def texts : Json.Reader Json := do
  if (← afterBlanks) == 0x5B then
    skip
    return .list (← itemsToEnd text)
  else mismatch

/-- The fields of a header. All but the algorithm only have to be of the right kind. -/
def headerFields : List Json.Field :=
  [.nullable "typ" text, .required "alg" readAlgorithm, .nullable "cty" text, .nullable "jku" text,
    .nullable "jwk" PublicKey.read, .nullable "kid" text, .nullable "x5u" text, .nullable "x5c" texts,
    .nullable "x5t" text, .nullable "x5t#S256" text]

/-- The algorithm that a header names. -/
def headerAlgorithm? (header : Bytes) : Option String :=
  match header.text?, Json.readWhole (record headerFields) header with
  | some _, .ok (_ :: .text name :: _) => some name
  | _, _ => none

/-- Reads an unsigned number. -/
def unsigned : Json.Reader Json := integer 0 uint64Max

/-- What a token says about its user. -/
def claims? (body : Bytes) : Option Claims :=
  let fields : List Json.Field :=
    [.required "sub" (integer int64Min int64Max), .withDefault "username" (orNull text) .null,
      .withDefault "iat" unsigned (.number 0), .required "exp" unsigned]
  match Json.readWhole (record fields) body with
  | .ok [.number subject, .text username, .number issuedAt, .number expires] =>
    some ⟨subject, some username, issuedAt.toNat, expires.toNat⟩
  | .ok [.number subject, .null, .number issuedAt, .number expires] =>
    some ⟨subject, none, issuedAt.toNat, expires.toNat⟩
  | _ => none

/-- Reads what `read` reads, where a fault means the same as a null. Reading goes on where the fault was
    found. -/
def forgiving (read : Json.Reader Json) : Json.Reader Json := do
  match ← outcome read with
  | .ok value => return value
  | .error _ => return .null

/-- Reads a time, which is not looked at. What stands within brackets is not read. -/
def time : Json.Reader Json := do
  let b ← afterBlanks
  if b == 0x5B then
    skip
    within (throw .mismatched) endList
  else if b == 0x7B then
    skip
    within (throw .mismatched) endRecord
  else mismatch

/-- Reads who issued a token or for whom: whether it is a text or a list of texts. -/
def parties : Json.Reader Json := do
  let value ← Json.Kept.read (Json.Kept.maxDepth - 1)
  return .bool (value.isText || value.isTexts)

/-- Whether the claims that say where and when a token is valid allow its use: no audience is named. -/
def isUsable (body : Bytes) : Bool :=
  let fields : List Json.Field :=
    [.withDefault "exp" (forgiving time) .null, .withDefault "nbf" (forgiving time) .null,
      ⟨"sub", forgiving (orNull text), some .null, none⟩, ⟨"iss", forgiving parties, some .null, none⟩,
      ⟨"aud", forgiving parties, some .null, none⟩]
  match Json.readWhole (record fields) body with
  | .ok [_, _, _, _, .bool true] => false
  | .ok _ => true
  | .error _ => false

/-- The signature of a message. -/
def sign (secret : Bytes) (message : String) : String :=
  Base64.encode (Sha256.keyedHash secret (Bytes.ofText message))

/-- The text before the last dot and the text after it. -/
def splitLast? (text : String) : Option (String × String) :=
  let tail := text.toList.reverse.takeWhile (· != '.')
  match text.toList.reverse.drop tail.length with
  | [] => none
  | _ :: before => some (String.ofList before.reverse, String.ofList tail.reverse)

/-- What a token says, provided that its signature is right, it has not expired at the time `now`, and it may
    be used here. -/
def check (secret : Bytes) (now : Nat) (token : String) : Option Claims := do
  let (message, signature) ← splitLast? token
  let (header, body) ← splitLast? message
  let header ← Base64.decode? header
  if (← headerAlgorithm? header) ≠ algorithm then none
  if sign secret message ≠ signature then none
  let body ← Base64.decode? body
  let claims ← claims? body
  if !isUsable body then none
  if claims.expires + leeway < now then none
  return claims

/-- The token that says that a user makes the request, until the given time. -/
def issue (secret : Bytes) (subject : Int) (expires : Nat) : String :=
  let part (value : Json) : String := Base64.encode (Bytes.ofText value.render)
  let message := part (.record [("typ", .text "JWT"), ("alg", .text algorithm)]) ++ "." ++
    part (.record [("sub", .number subject), ("exp", .number expires)])
  message ++ "." ++ sign secret message

end Token

end FileDepot
