import FileDepot.Web.RequestHead

/-!
# Requests from other origins

What browsers are told about requests that come from pages of other origins.
-/

namespace FileDepot

/-- Which origins may read answers: any one without credentials, or those of a list with credentials. -/
inductive Cors where
  | anyone
  | listed (origins : List String)
  deriving DecidableEq, Repr

namespace Cors

/-- The rule for a list of origins (`create_cors_layer`). Those that cannot be header values do not count, and a
    list without others stands for any origin. There is no rule for a list with a wildcard. -/
def ofOrigins? (origins : List String) : Option Cors :=
  let usable := origins.filter HeaderValue.isLegal
  if usable.isEmpty then some anyone
  else if usable.contains "*" then none
  else some (listed usable)

/-- The origin that is allowed to read the answer to a request. -/
def allowedOrigin? (rule : Cors) (head : RequestHead) : Option String :=
  match rule with
  | anyone => some "*"
  | listed origins =>
    match (head.header? "origin").bind Bytes.text? with
    | some origin => if origins.contains origin then some origin else none
    | none => none

/-- The headers of every answer. -/
def commonHeaders (rule : Cors) (head : RequestHead) : List (String × String) :=
  (match rule.allowedOrigin? head with
    | some origin => [("access-control-allow-origin", origin)]
    | none => []) ++
  (match rule with
    | anyone => []
    | listed _ => [("access-control-allow-credentials", "true")]) ++
  [("vary", "origin, access-control-request-method, access-control-request-headers")]

/-- The headers of the answer to a question about what is allowed. -/
def preflightHeaders (rule : Cors) (head : RequestHead) : List (String × String) :=
  rule.commonHeaders head ++
    [("access-control-allow-methods", "GET,POST,DELETE,PATCH,OPTIONS"),
      ("access-control-allow-headers", match rule with
        | anyone => "*"
        | listed _ => "authorization,content-type,accept")]

/-- The headers of any other answer. -/
def answerHeaders (rule : Cors) (head : RequestHead) : List (String × String) :=
  rule.commonHeaders head ++ [("access-control-expose-headers", "content-disposition")]

end Cors

end FileDepot
