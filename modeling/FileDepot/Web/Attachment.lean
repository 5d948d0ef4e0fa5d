import FileDepot.Text.Percent

/-!
# Attachments

The header that tells a browser under which name to save a download. A name of harmless ASCII characters
stands as it is. Any other name is sent twice: with its harmful characters replaced, and percent-encoded.
-/

namespace FileDepot.Attachment

/-- Whether a character cannot stand in a quoted name: controls, quotes and backslashes. -/
def isHarmful (c : Char) : Bool := Text.isControl c || c == '"' || c == '\\'

/-- Whether a name can be sent as it is. -/
def isPlain (name : String) : Bool := name.toList.all fun c => c.toNat < 128 && !isHarmful c

/-- A name without controls, and with underscores for quotes and backslashes. -/
def softened (name : String) : String :=
  String.ofList ((name.toList.filter fun c => !Text.isControl c).map fun c =>
    if c == '"' || c == '\\' then '_' else c)

/-- The value of the header for a file of the given name (`content_disposition_header`). -/
def disposition (name : String) : String :=
  if isPlain name then "attachment; filename=\"" ++ name ++ "\""
  else
    "attachment; filename=\"" ++ softened name ++ "\"; filename*=UTF-8''" ++ Percent.encode name

end FileDepot.Attachment
