import FileDepot.Web.Refusal
import FileDepot.Web.RequestHead
import FileDepot.Web.Token

/-!
# Who makes a request

The claims of the token that comes with a request.
-/

namespace FileDepot.RequestHead

/-- The claims of the token of a request at the time `now` (the extractor of `AuthUser`). Without a secret no token
    can be checked. -/
def claims (head : RequestHead) (secret : Option Bytes) (now : Nat) : Except Refusal Claims :=
  match head.token? with
  | none => .error (.of .unauthorized "Missing authorization")
  | some token =>
    match secret with
    | none => .error (.of .internal "JWT state not configured")
    | some secret =>
      match Token.check secret now token with
      | none => .error (.of .unauthorized "Invalid or expired token")
      | some claims => .ok claims

end FileDepot.RequestHead
