import FileDepot.Text.Percent
import FileDepot.Web.Header
import FileDepot.Web.Target

/-!
# Request heads

What is known of a request before its body: the method, the path, the query and the headers.
-/

namespace FileDepot

/-- A request without its body. The names of headers are in small letters. -/
structure RequestHead where
  method : String
  path : String
  query : Option String
  headers : List (String × HeaderValue)
  deriving DecidableEq, Repr

namespace RequestHead

/-- The head of a request with the given parts; `none` if one of them can be no part of a request. -/
def of? (method target : String) (headers : List (String × HeaderValue)) : Option RequestHead := do
  let isToken (text : String) : Bool := !text.isEmpty && text.toList.all HeaderValue.isTokenChar
  let target ← Target.ofText? target
  if !isToken method || !headers.all fun h => isToken h.1 && h.2.all HeaderValue.isLegalByte then none
  return ⟨method, target.path, target.query, headers⟩

/-- The value of a header. -/
def header? (head : RequestHead) (name : String) : Option HeaderValue := head.headers.lookup name

/-- The text of a header, if it has one that can be read. -/
def headerText? (head : RequestHead) (name : String) : Option String :=
  (head.header? name).bind HeaderValue.text?

/-- The texts before and after the first occurrence of a character. -/
def cutAt? (c : Char) (text : String) : Option (String × String) :=
  let before := text.toList.takeWhile (· != c)
  match text.toList.drop before.length with
  | [] => none
  | _ :: after => some (String.ofList before, String.ofList after)

/-- The text that follows `start`, if the text starts with it. -/
def after? (start text : String) : Option String :=
  if start.toList.isPrefixOf text.toList then some (String.ofList (text.toList.drop start.length))
  else none

/-- The token of the `authorization` header (`bearer_token`). -/
def bearerToken? (head : RequestHead) : Option String :=
  (head.headerText? "authorization").bind (after? "Bearer ")

/-- The token of the query: the first field of that name whose value is a text (`query_token`). -/
def queryToken? (head : RequestHead) : Option String :=
  head.query.bind fun query =>
    (Text.split '&' query).findSome? fun pair =>
      match cutAt? '=' pair with
      | some ("token", value) => (Percent.decode (Bytes.ofText value)).text?
      | _ => none

/-- The token of the request. Browsers cannot set headers for downloads, so that the query may have it. -/
def token? (head : RequestHead) : Option String := head.bearerToken?.or head.queryToken?

end RequestHead

end FileDepot
