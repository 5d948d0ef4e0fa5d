import FileDepot.Json.Record
import FileDepot.Web.Refusal

/-!
# Request bodies

The JSON bodies of requests and the rules for their fields.
-/

namespace FileDepot

/-- The rules that a name in a request has to keep. -/
inductive NameRule where
  | length
  | notBlank
  | noControls
  | noSeparators
  deriving DecidableEq, Repr

namespace NameRule

/-- All rules, in the order in which breaches are told. -/
def all : List NameRule := [length, notBlank, noControls, noSeparators]

/-- Whether a name keeps the rule (`not_empty_trimmed`, `no_control_chars`, `no_path_separators`). -/
def isKept (rule : NameRule) (name : String) : Bool :=
  match rule with
  | length => 1 ≤ name.length && name.length ≤ Name.maxLength
  | notBlank => !(Text.trim name).isEmpty
  | noControls => !name.toList.any Text.isControl
  | noSeparators => !name.toList.any Text.isSeparator

/-- The code of a breach of the rule. -/
def code : NameRule → String
  | length => "length"
  | notBlank => "not_empty_trimmed"
  | noControls => "no_control_chars"
  | noSeparators => "no_path_separators"

/-- What a client is told about a breach of the rule. -/
def message : NameRule → String
  | length => "Name must be 1-255 characters"
  | notBlank => "Must not be empty"
  | noControls => "Must not contain control characters"
  | noSeparators => "Must not contain path separators"

/-- What a client is told about a name. -/
def breaches (name : String) : List String := (all.filter fun rule => !rule.isKept name).map message

end NameRule

/-- The request to create a folder (`CreateFolderRequest`). -/
structure FolderRequest where
  name : String
  parent : String
  deriving DecidableEq, Repr

/-- The request to give a file another name (`RenameFileRequest`). -/
structure RenameRequest where
  name : String
  deriving DecidableEq, Repr

/-- The answer to a request with the given breaches, if there are any. -/
def Refusal.ofBreaches? (fields : List (String × List String)) : Option Refusal :=
  match fields.filter fun field => !field.2.isEmpty with
  | [] => none
  | faulty => some (.ofFields faulty)

namespace FolderRequest

/-- The greatest length of the reference to the parent in characters. -/
def maxParentLength : Nat := 1024

/-- Reads the request. Without a parent it means the top level. -/
def read : Json.Reader FolderRequest := do
  match ← Json.Reader.record [.required "name" Json.Reader.text,
      .withDefault "parent" Json.Reader.text (.text "")] with
  | [.text name, .text parent] => return ⟨name, parent⟩
  | _ => throw .mismatched

/-- What is wrong with the fields, if anything is. -/
def refusal? (r : FolderRequest) : Option Refusal :=
  Refusal.ofBreaches? [("name", NameRule.breaches r.name),
    ("parent", if maxParentLength < r.parent.length then ["Parent must be at most 1024 bytes"] else [])]

end FolderRequest

namespace RenameRequest

/-- Reads the request. -/
def read : Json.Reader RenameRequest := do
  match ← Json.Reader.record [.required "name" Json.Reader.text] with
  | [.text name] => return ⟨name⟩
  | _ => throw .mismatched

/-- What is wrong with the fields, if anything is. -/
def refusal? (r : RenameRequest) : Option Refusal :=
  Refusal.ofBreaches? [("name", NameRule.breaches r.name)]

end RenameRequest

end FileDepot
