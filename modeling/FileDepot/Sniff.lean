import FileDepot.Bytes

/-!
# Content sniffing

The MIME type of a content, told from its first 512 bytes: HTML and XML markers behind leading white
space, magic signatures in a fixed order, the boxed containers, and last the difference between text and
binary data.
-/

namespace FileDepot.Sniff

/-- How many leading bytes are looked at (`SNIFF_LEN`). -/
def windowLength : Nat := 512

/-- The type of data that nothing recognises (`OCTET_STREAM`). -/
def octetStream : String := "application/octet-stream"

/-- The type of an HTML document. -/
def html : String := "text/html; charset=utf-8"

/-- The type of an XML document. -/
def xml : String := "text/xml; charset=utf-8"

/-- The type of a text in UTF-8. -/
def plainUtf8 : String := "text/plain; charset=utf-8"

/-- The tags that open an HTML document, in capitals (`HTML_TAGS`). -/
def htmlTags : List Bytes :=
  ["<!DOCTYPE HTML", "<HTML", "<HEAD", "<SCRIPT", "<IFRAME", "<H1", "<DIV", "<FONT", "<TABLE", "<A",
    "<STYLE", "<TITLE", "<B", "<BODY", "<BR", "<P", "<!--"].map Bytes.ofAscii

/-- A byte string at the start of the content and the type it stands for. -/
structure Signature where
  bytes : Bytes
  mimeType : String
  deriving DecidableEq, Repr

/-- The signatures of whole contents, in the order in which they are tried (`PREFIXES`). -/
def signatures : List Signature :=
  [⟨Bytes.ofAscii "%PDF-", "application/pdf"⟩,
    ⟨Bytes.ofAscii "%!PS-Adobe-", "application/postscript"⟩,
    ⟨[0xFE, 0xFF], "text/plain; charset=utf-16be"⟩,
    ⟨[0xFF, 0xFE], "text/plain; charset=utf-16le"⟩,
    ⟨[0xEF, 0xBB, 0xBF], plainUtf8⟩,
    ⟨[0x00, 0x00, 0x01, 0x00], "image/x-icon"⟩,
    ⟨[0x00, 0x00, 0x02, 0x00], "image/x-icon"⟩,
    ⟨Bytes.ofAscii "BM", "image/bmp"⟩,
    ⟨Bytes.ofAscii "GIF87a", "image/gif"⟩,
    ⟨Bytes.ofAscii "GIF89a", "image/gif"⟩,
    ⟨[0x89, 0x50, 0x4E, 0x47, 0x0D, 0x0A, 0x1A, 0x0A], "image/png"⟩,
    ⟨[0xFF, 0xD8, 0xFF], "image/jpeg"⟩,
    ⟨Bytes.ofAscii "OggS" ++ [0x00], "application/ogg"⟩,
    ⟨Bytes.ofAscii "MThd" ++ [0x00, 0x00, 0x00, 0x06], "audio/midi"⟩,
    ⟨Bytes.ofAscii "ID3", "audio/mpeg"⟩,
    ⟨[0x1A, 0x45, 0xDF, 0xA3], "video/webm"⟩,
    ⟨Bytes.ofAscii "wOFF", "font/woff"⟩,
    ⟨Bytes.ofAscii "wOF2", "font/woff2"⟩,
    ⟨[0x1F, 0x8B, 0x08], "application/x-gzip"⟩,
    ⟨Bytes.ofAscii "PK" ++ [0x03, 0x04], "application/zip"⟩,
    ⟨Bytes.ofAscii "Rar!" ++ [0x1A, 0x07, 0x00], "application/x-rar-compressed"⟩,
    ⟨Bytes.ofAscii "Rar!" ++ [0x1A, 0x07, 0x01, 0x00], "application/x-rar-compressed"⟩,
    ⟨[0x00, 0x61, 0x73, 0x6D], "application/wasm"⟩]

/-- The formats of a RIFF container, told by the tag at offset 8 (`RIFF_FORMATS`). -/
def riffFormats : List Signature :=
  [⟨Bytes.ofAscii "WEBPVP", "image/webp"⟩, ⟨Bytes.ofAscii "WAVE", "audio/wave"⟩,
    ⟨Bytes.ofAscii "AVI ", "video/avi"⟩]

/-- The bytes skipped before an HTML or XML marker (`skip_whitespace`). -/
def isSpace (b : UInt8) : Bool := b == 0x09 || b == 0x0A || b == 0x0C || b == 0x0D || b == 0x20

/-- The bytes that no text contains (`is_binary_byte`). -/
def isBinary (b : UInt8) : Bool :=
  b ≤ 0x08 || b == 0x0B || (0x0E ≤ b && b ≤ 0x1A) || (0x1C ≤ b && b ≤ 0x1F)

/-- Whether `data` starts with `tag` in any ASCII case, followed by a space or `>`. -/
def opensWith (data tag : Bytes) : Bool :=
  (data.take tag.length).map Bytes.lowerAscii == tag.map Bytes.lowerAscii &&
    match data.drop tag.length with
    | [] => false
    | c :: _ => c == 0x20 || c == 0x3E

/-- Whether `data`, without leading white space, opens an HTML document (`is_html`). -/
def isHtml (data : Bytes) : Bool := htmlTags.any (opensWith data)

/-- The big-endian number in the first four bytes. -/
def boxSize (data : Bytes) : Nat := (data.take 4).foldl (fun n b => 256 * n + b.toNat) 0

/-- The offsets of the brands of a file type box: the major one at 8, the compatible ones from 16 on. -/
def brandOffsets (size : Nat) : List Nat := 8 :: (List.range ((size - 13) / 4)).map fun k => 16 + 4 * k

/-- Whether `data` starts with a file type box that names an MP4 brand (`is_mp4`). -/
def isMp4 (data : Bytes) : Bool :=
  let size := boxSize data
  12 ≤ data.length && 12 ≤ size && size ≤ data.length && size % 4 == 0 &&
    (Bytes.ofAscii "ftyp").isPrefixOf (data.drop 4) &&
    (brandOffsets size).any fun i => (Bytes.ofAscii "mp4").isPrefixOf (data.drop i)

/-- The format of a RIFF container, if `data` is one of a known format. -/
def riffFormat? (data : Bytes) : Option Signature :=
  if 12 ≤ data.length && (Bytes.ofAscii "RIFF").isPrefixOf data then
    riffFormats.find? fun s => s.bytes.isPrefixOf (data.drop 8)
  else none

/-- The type of the bytes in the window, by the first rule that applies. -/
def classify (data : Bytes) : String :=
  let marked := data.dropWhile isSpace
  if isHtml marked then html
  else if (Bytes.ofAscii "<?xml").isPrefixOf marked then xml
  else
    match signatures.find? fun s => s.bytes.isPrefixOf data with
    | some s => s.mimeType
    | none =>
      match riffFormat? data with
      | some s => s.mimeType
      | none =>
        if isMp4 data then "video/mp4"
        else if !data.isEmpty && !data.any isBinary then plainUtf8
        else octetStream

/-- The MIME type of a content (`detect_content_type`). -/
def detect (content : Bytes) : String := classify (content.take windowLength)

end FileDepot.Sniff
