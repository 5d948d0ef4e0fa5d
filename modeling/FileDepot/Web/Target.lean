import FileDepot.Bytes

/-!
# Request targets

The target of a request in its four forms: a path with a query, an asterisk, an address with scheme, authority and
path, or an authority alone.
-/

namespace FileDepot

/-- The parts of a target that a request is answered by. An authority alone has an empty path. -/
structure Target where
  path : String
  query : Option String
  deriving DecidableEq, Repr

namespace Target

/-- The greatest length of a target in bytes. -/
def maxLength : Nat := 65534

/-- Whether a character may stand in a path. The marks that end a path are not asked for. -/
def isPathChar (c : Char) : Bool := 0x20 < c.toNat && c != '<' && c != '>' && c.toNat != 0x60

/-- Whether a character may stand in a query. -/
def isQueryChar (c : Char) : Bool := 0x20 < c.toNat && c != '<' && c != '>' && c != '"'

/-- The path and the query of a target without scheme and authority. The query follows the first question mark;
    what follows a number sign does not belong to the target. -/
def ofPathAndQuery? (cs : List Char) : Option Target :=
  let cs := cs.takeWhile (· != '#')
  let path := cs.takeWhile (· != '?')
  let query := cs.drop (path.length + 1)
  if !path.all isPathChar || !query.all isQueryChar then none
  else some ⟨String.ofList path, if path.length < cs.length then some (String.ofList query) else none⟩

/-! ## Authorities -/

/-- What matters of the part of an authority that has been read: colons and percent signs since the user's name
    or the bracketed address, and whether an address was opened and closed. -/
structure AuthorityPart where
  colons : Nat
  hasPercent : Bool
  isOpened : Bool
  isClosed : Bool
  deriving DecidableEq, Repr

/-- The greatest number of colons, as an address in brackets can have them. -/
def maxColons : Nat := 8

/-- The marks that may stand in an authority without a meaning of their own there. -/
def isAuthorityMark (c : Char) : Bool := "!$&'()*+,-.;=_~".toList.contains c

/-- Reads one more character of an authority. -/
def AuthorityPart.extend? (a : AuthorityPart) (c : Char) : Option AuthorityPart :=
  if c == ':' then if a.colons < maxColons then some { a with colons := a.colons + 1 } else none
  else if c == '[' then if a.hasPercent || a.isOpened then none else some { a with isOpened := true }
  else if c == ']' then
    if a.isOpened && !a.isClosed then some { a with colons := 0, hasPercent := false, isClosed := true } else none
  else if c == '@' then some { a with colons := 0, hasPercent := false }
  else if c == '%' then some { a with hasPercent := true }
  else if c.isAlphanum || isAuthorityMark c then some a
  else none

/-- Whether characters are an authority: not empty, with at most one colon outside a user's name and brackets,
    without escapes there, and with something after the user's name. -/
def isAuthority (cs : List Char) : Bool :=
  match cs.foldlM AuthorityPart.extend? ⟨0, false, false, false⟩ with
  | none => false
  | some a =>
    !cs.isEmpty && a.isOpened == a.isClosed && a.colons ≤ 1 && !a.hasPercent && cs.getLast? != some '@'

/-- Whether a character ends an authority. -/
def endsAuthority (c : Char) : Bool := c == '/' || c == '?' || c == '#'

/-! ## Targets -/

/-- The greatest length of a scheme. -/
def maxSchemeLength : Nat := 64

/-- Whether a character may stand in a scheme. -/
def isSchemeChar (c : Char) : Bool := c.isAlphanum || c == '+' || c == '-' || c == '.' || c == '~'

/-- Reads a target; `none` if the text is none. -/
def ofText? (text : String) : Option Target :=
  if maxLength < text.utf8ByteSize then none
  else
    match text.toList with
    | ['*'] => some ⟨"*", none⟩
    | '/' :: rest => ofPathAndQuery? ('/' :: rest)
    | cs =>
      let scheme := cs.takeWhile isSchemeChar
      match cs.drop scheme.length with
      | ':' :: '/' :: '/' :: rest =>
        let authority := rest.takeWhile (!endsAuthority ·)
        if maxSchemeLength < scheme.length || !isAuthority authority then none
        else
          (ofPathAndQuery? (rest.drop authority.length)).map fun target =>
            if target.path.isEmpty then { target with path := "/" } else target
      | _ => if isAuthority cs then some ⟨"", none⟩ else none

end Target

end FileDepot
