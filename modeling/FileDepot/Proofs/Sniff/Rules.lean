import FileDepot.Proofs.Sniff.Accesses
import FileDepot.Proofs.Text.Percent
import Mathlib.Data.List.Forall2
import Mathlib.Data.List.TakeWhile

/-!
# The rules of sniffing

What each rule of the detection of types says about the bytes it looks at, without saying how they are looked at, and
that the type of a content is that of the first of the rules that applies.
-/

namespace FileDepot

namespace Bytes

variable {a b : UInt8} {s t : Bytes}

/-- The same byte, or the same ASCII letter in the other case. -/
def SameLetter (a b : UInt8) : Prop :=
  a = b ∨ (0x41 ≤ a ∧ a ≤ 0x5A ∧ b = a + 0x20) ∨ (0x41 ≤ b ∧ b ≤ 0x5A ∧ a = b + 0x20)

/-- Equal up to the case of ASCII letters. -/
def SameUpToCase (s t : Bytes) : Prop := List.Forall₂ SameLetter s t

theorem lowerAscii_eq_iff : lowerAscii a = lowerAscii b ↔ SameLetter a b := by
  unfold lowerAscii SameLetter
  grind

theorem map_lowerAscii_eq_iff : s.map lowerAscii = t.map lowerAscii ↔ SameUpToCase s t := by
  have hletter : (fun a b => lowerAscii a = lowerAscii b) = SameLetter := by
    funext a b
    exact propext lowerAscii_eq_iff
  rw [SameUpToCase, ← hletter, ← List.forall₂_eq_eq_eq, List.forall₂_map_left_iff, List.forall₂_map_right_iff]

end Bytes

namespace Sniff

variable {data rest : Bytes} {mimeType : String}

/-! ## Rules -/

/-- A rule: the data to which it applies, and the type that such data has. -/
structure Rule where
  Applies : Bytes → Prop
  mimeType : String

/-- The first rule that applies gives the type. -/
inductive Decides : List Rule → Bytes → String → Prop
  | here {r : Rule} {rules : List Rule} {data : Bytes} (h : r.Applies data) :
    Decides (r :: rules) data r.mimeType
  | later {r : Rule} {rules : List Rule} {data : Bytes} {mimeType : String} (h : ¬ r.Applies data)
    (hr : Decides rules data mimeType) : Decides (r :: rules) data mimeType

namespace Decides

variable {rules : List Rule} {α : Type} {table : List α} {rule : α → Rule} {p : α → Bool}

/-- No two types are given. -/
theorem unique {mimeType' : String} (h : Decides rules data mimeType) (h' : Decides rules data mimeType') :
    mimeType = mimeType' := by
  induction h with
  | here happ =>
    cases h' with
    | here _ => rfl
    | later hnot _ => exact absurd happ hnot
  | later hnot _ ih =>
    cases h' with
    | here happ => exact absurd happ hnot
    | later _ hr => exact ih hr

/-- Only types that rules have are given. -/
theorem mem (h : Decides rules data mimeType) : mimeType ∈ rules.map Rule.mimeType := by
  induction h with
  | here _ => exact List.mem_cons_self
  | later _ _ ih => exact List.mem_cons_of_mem _ ih

/-- Where a table gives a rule for each of its entries, the first entry that is found decides. -/
theorem of_find?_eq_some (hp : ∀ a ∈ table, p a = true ↔ (rule a).Applies data) {a : α}
    (h : table.find? p = some a) (rules : List Rule) : Decides (table.map rule ++ rules) data (rule a).mimeType := by
  induction table with
  | nil => cases h
  | cons b others ih =>
    rw [List.forall_mem_cons] at hp
    rw [List.find?_cons] at h
    rw [List.map_cons, List.cons_append]
    split at h
    · next hb =>
      cases h
      exact .here (hp.1.mp hb)
    · next hb => exact .later (fun happ => by simp [hp.1.mpr happ] at hb) (ih hp.2 h)

/-- And if none is found, the rules behind the table decide. -/
theorem of_find?_eq_none (hp : ∀ a ∈ table, p a = true ↔ (rule a).Applies data) (h : table.find? p = none)
    (hr : Decides rules data mimeType) : Decides (table.map rule ++ rules) data mimeType := by
  induction table with
  | nil => exact hr
  | cons b others ih =>
    rw [List.forall_mem_cons] at hp
    rw [List.find?_eq_none, List.forall_mem_cons] at h
    exact .later (fun happ => h.1 (hp.1.mpr happ)) (ih hp.2 (List.find?_eq_none.mpr h.2))

end Decides

/-! ## Markers -/

/-- White space that may stand before a marker. -/
def IsSpaces (w : Bytes) : Prop := ∀ b ∈ w, b ∈ [0x09, 0x0A, 0x0C, 0x0D, 0x20]

/-- White space, a tag of HTML in any case, a space or `>`, and anything. -/
def OpensHtml (data : Bytes) : Prop :=
  ∃ w t c rest, data = w ++ t ++ [c] ++ rest ∧ IsSpaces w ∧ (∃ tag ∈ htmlTags, Bytes.SameUpToCase t tag) ∧
    (c = 0x20 ∨ c = 0x3E)

/-- White space, the marker of XML, and anything. -/
def OpensXml (data : Bytes) : Prop := ∃ w rest, data = w ++ Bytes.ofAscii "<?xml" ++ rest ∧ IsSpaces w

theorem isSpace_iff {b : UInt8} : isSpace b = true ↔ b ∈ [0x09, 0x0A, 0x0C, 0x0D, 0x20] := by
  simp [isSpace, or_assoc]

theorem isSpaces_takeWhile (data : Bytes) : IsSpaces (data.takeWhile isSpace) := by
  intro b hb
  exact isSpace_iff.mp (List.mem_takeWhile_imp hb)

/-- What begins with a bracket is a marker, whatever white space stands before it. -/
theorem dropWhile_append_of_bracket {w : Bytes} (hw : IsSpaces w) (rest : Bytes) :
    (w ++ 0x3C :: rest).dropWhile isSpace = 0x3C :: rest := by
  rw [List.dropWhile_append_of_pos fun b hb => isSpace_iff.mpr (hw b hb)]
  rfl

theorem opensWith_iff {tag : Bytes} : opensWith data tag = true ↔
    ∃ t c rest, data = t ++ [c] ++ rest ∧ Bytes.SameUpToCase t tag ∧ (c = 0x20 ∨ c = 0x3E) := by
  rw [opensWith, Bool.and_eq_true, beq_iff_eq, Bytes.map_lowerAscii_eq_iff]
  constructor
  · rintro ⟨hsame, hend⟩
    split at hend
    · cases hend
    · next c rest hdrop =>
      refine ⟨data.take tag.length, c, rest, ?_, hsame, by simpa using hend⟩
      rw [List.append_assoc, List.singleton_append, ← hdrop, List.take_append_drop]
  · rintro ⟨t, c, rest, rfl, hsame, hc⟩
    have hlength : tag.length = t.length := hsame.length_eq.symm
    rw [hlength, List.append_assoc, List.take_left, List.drop_left]
    exact ⟨hsame, by simpa using hc⟩

/-- A tag begins with a bracket in any case. -/
theorem eq_cons_of_sameUpToCase {t tag : Bytes} (htag : tag ∈ htmlTags) (h : Bytes.SameUpToCase t tag) :
    ∃ rest, t = 0x3C :: rest := by
  have hall : ∀ tag ∈ htmlTags, tag.head? = some 0x3C := by decide
  have hhead := hall tag htag
  cases h with
  | nil => cases hhead
  | @cons a b rest others hletter hrest =>
    cases hhead
    have ha : a = 0x3C := by
      unfold Bytes.SameLetter at hletter
      grind
    exact ⟨rest, by rw [ha]⟩

theorem isHtml_iff : isHtml (data.dropWhile isSpace) = true ↔ OpensHtml data := by
  rw [isHtml, List.any_eq_true]
  constructor
  · rintro ⟨tag, htag, hopens⟩
    obtain ⟨t, c, rest, hdata, hsame, hc⟩ := opensWith_iff.mp hopens
    refine ⟨data.takeWhile isSpace, t, c, rest, ?_, isSpaces_takeWhile data, ⟨tag, htag, hsame⟩, hc⟩
    rw [List.append_assoc, List.append_assoc, ← List.append_assoc t, ← hdata, List.takeWhile_append_dropWhile]
  · rintro ⟨w, t, c, rest, rfl, hw, ⟨tag, htag, hsame⟩, hc⟩
    obtain ⟨others, rfl⟩ := eq_cons_of_sameUpToCase htag hsame
    have hmarked : (w ++ (0x3C :: others) ++ [c] ++ rest).dropWhile isSpace = 0x3C :: others ++ [c] ++ rest := by
      have hmarker := dropWhile_append_of_bracket hw (others ++ [c] ++ rest)
      simpa using hmarker
    refine ⟨tag, htag, ?_⟩
    rw [hmarked]
    exact opensWith_iff.mpr ⟨_, c, rest, rfl, hsame, hc⟩

theorem isXml_iff : (Bytes.ofAscii "<?xml").isPrefixOf (data.dropWhile isSpace) = true ↔ OpensXml data := by
  rw [List.isPrefixOf_iff_prefix]
  constructor
  · rintro ⟨rest, hrest⟩
    refine ⟨data.takeWhile isSpace, rest, ?_, isSpaces_takeWhile data⟩
    rw [List.append_assoc, hrest, List.takeWhile_append_dropWhile]
  · rintro ⟨w, rest, rfl, hw⟩
    have hmarker := dropWhile_append_of_bracket hw ((Bytes.ofAscii "<?xml").tail ++ rest)
    rw [List.append_assoc]
    exact ⟨rest, hmarker.symm⟩

/-! ## Containers -/

/-- A container of the kind that `RIFF` begins, with the tag of its format behind the four bytes of its size. -/
def IsRiff (tag data : Bytes) : Prop :=
  12 ≤ data.length ∧ ∃ size rest, size.length = 4 ∧ data = Bytes.ofAscii "RIFF" ++ size ++ tag ++ rest

theorem isRiff_iff {tag : Bytes} : (12 ≤ data.length && (Bytes.ofAscii "RIFF").isPrefixOf data &&
    tag.isPrefixOf (data.drop 8)) = true ↔ IsRiff tag data := by
  rw [Bool.and_eq_true, Bool.and_eq_true, decide_eq_true_eq, List.isPrefixOf_iff_prefix, List.isPrefixOf_iff_prefix]
  constructor
  · rintro ⟨⟨hlong, body, rfl⟩, rest, hrest⟩
    have hbody : (Bytes.ofAscii "RIFF" ++ body).drop 8 = body.drop 4 := rfl
    refine ⟨hlong, body.take 4, rest, ?_, ?_⟩
    · have hlength : (Bytes.ofAscii "RIFF" ++ body).length = body.length + 4 := rfl
      rw [List.length_take]
      omega
    · rw [List.append_assoc, List.append_assoc, hrest, hbody, List.take_append_drop]
  · rintro ⟨hlong, size, rest, hsize, rfl⟩
    have hlength : (Bytes.ofAscii "RIFF" ++ size).length = 8 := by
      rw [List.length_append, hsize]
      rfl
    refine ⟨⟨hlong, size ++ tag ++ rest, by simp only [List.append_assoc]⟩, rest, ?_⟩
    rw [List.append_assoc, List.drop_left' hlength]

theorem riffFormat?_eq_find? (data : Bytes) : riffFormat? data = riffFormats.find? fun s =>
    12 ≤ data.length && (Bytes.ofAscii "RIFF").isPrefixOf data && s.bytes.isPrefixOf (data.drop 8) := by
  unfold riffFormat?
  split
  · next hriff => simp only [hriff, Bool.true_and]
  · next hnot =>
    rw [Bool.not_eq_true] at hnot
    simp only [hnot, Bool.false_and]
    rfl

/-- A file type box at the beginning: its size in four bytes, the highest first, and its name. It has room for a
    brand, comes in whole slots, and lies in the data to its end. -/
structure IsFileTypeBox (data : Bytes) (size : Nat) : Prop where
  long : 12 ≤ data.length
  begins : ∃ b₀ b₁ b₂ b₃ rest, data = [b₀, b₁, b₂, b₃] ++ Bytes.ofAscii "ftyp" ++ rest ∧
    size = 16777216 * b₀.toNat + 65536 * b₁.toNat + 256 * b₂.toNat + b₃.toNat
  slots : 4 ∣ size
  least : 12 ≤ size
  fits : size ≤ data.length

/-- A file type box with a brand of MP4 in one of its slots. -/
def NamesMp4 (data : Bytes) : Prop :=
  ∃ size before slot after, IsFileTypeBox data size ∧ data = before ++ slot ++ after ∧
    IsSlot size before.length ∧ slot.length = 4 ∧ Bytes.ofAscii "mp4" <+: slot

/-- The size of a box is the number in its first four bytes, and nothing else. -/
theorem isFileTypeBox_iff {size : Nat} : IsFileTypeBox data size ↔
    12 ≤ data.length ∧ Bytes.ofAscii "ftyp" <+: data.drop 4 ∧ size = boxSize data ∧ 4 ∣ size ∧ 12 ≤ size ∧
      size ≤ data.length := by
  constructor
  · rintro ⟨hlong, ⟨b₀, b₁, b₂, b₃, rest, rfl, rfl⟩, hdvd, hleast, hfits⟩
    rw [List.append_assoc] at hlong hfits ⊢
    exact ⟨hlong, ⟨rest, rfl⟩, (boxSize_cons ..).symm, hdvd, hleast, hfits⟩
  · rintro ⟨hlong, ⟨rest, hrest⟩, rfl, hdvd, hleast, hfits⟩
    refine ⟨hlong, ?_, hdvd, hleast, hfits⟩
    obtain ⟨b₀, b₁, b₂, b₃, tail, rfl⟩ := Bytes.exists_first_four (Nat.le_trans (by decide) hlong)
    refine ⟨b₀, b₁, b₂, b₃, rest, ?_, boxSize_cons b₀ b₁ b₂ b₃ tail⟩
    rw [List.append_assoc, hrest]
    rfl

theorem isMp4_iff : isMp4 data = true ↔ NamesMp4 data := by
  unfold isMp4
  simp only [Bool.and_eq_true, decide_eq_true_eq, beq_iff_eq, List.any_eq_true, List.isPrefixOf_iff_prefix]
  constructor
  · rintro ⟨⟨⟨⟨⟨hlong, hleast⟩, hfits⟩, hmod⟩, hkind⟩, i, hi, hbrand⟩
    have hdvd : 4 ∣ boxSize data := Nat.dvd_of_mod_eq_zero hmod
    have hbox : IsFileTypeBox data (boxSize data) :=
      isFileTypeBox_iff.mpr ⟨hlong, hkind, rfl, hdvd, hleast, hfits⟩
    have hslot : IsSlot (boxSize data) i := mem_brandOffsets_iff.mp hi
    have hend := hslot.le hleast hdvd
    have hbefore : (data.take i).length = i := by
      rw [List.length_take]
      omega
    refine ⟨_, data.take i, (data.drop i).take 4, data.drop (i + 4), hbox, ?_, by rwa [hbefore], ?_, ?_⟩
    · rw [← List.drop_drop, List.append_assoc, List.take_append_drop, List.take_append_drop]
    · rw [List.length_take, List.length_drop]
      omega
    · rw [List.prefix_take_iff]
      exact ⟨hbrand, by decide⟩
  · rintro ⟨size, before, slot, after, hbox, hdata, hslot, -, hbrand⟩
    obtain ⟨hlong, hkind, rfl, hdvd, hleast, hfits⟩ := isFileTypeBox_iff.mp hbox
    refine ⟨⟨⟨⟨⟨hlong, hleast⟩, hfits⟩, Nat.mod_eq_zero_of_dvd hdvd⟩, hkind⟩, before.length,
      mem_brandOffsets_iff.mpr hslot, ?_⟩
    have hdrop : data.drop before.length = slot ++ after := by
      rw [hdata, List.append_assoc, List.drop_left]
    rw [hdrop]
    exact hbrand.trans (List.prefix_append slot after)

/-! ## Texts -/

/-- Some bytes, and no binary one among them: below the space a text has tabs, line and form feeds, carriage returns
    and escapes only. -/
def IsText (data : Bytes) : Prop :=
  data ≠ [] ∧ ∀ b ∈ data, b < 0x20 → b ∈ [0x09, 0x0A, 0x0C, 0x0D, 0x1B]

theorem isBinary_iff {b : UInt8} : isBinary b = false ↔ (b < 0x20 → b ∈ [0x09, 0x0A, 0x0C, 0x0D, 0x1B]) := by
  refine Percent.forall_byte
    (P := fun b => isBinary b = false ↔ (b < 0x20 → b ∈ [0x09, 0x0A, 0x0C, 0x0D, 0x1B])) ?_ b
  decide +kernel

theorem isText_iff : (!data.isEmpty && !data.any isBinary) = true ↔ IsText data := by
  rw [Bool.and_eq_true, Bool.not_eq_true', Bool.not_eq_true', List.isEmpty_eq_false_iff, List.any_eq_false, IsText]
  refine and_congr_right fun _ => forall₂_congr fun b _ => ?_
  rw [Bool.not_eq_true, isBinary_iff]

/-! ## The list of rules -/

/-- The rules in the order in which they are tried. The last one applies to all data. -/
def rules : List Rule :=
  ⟨OpensHtml, html⟩ :: ⟨OpensXml, xml⟩ ::
    (signatures.map (fun s => ⟨(s.bytes <+: ·), s.mimeType⟩) ++
      (riffFormats.map (fun s => ⟨IsRiff s.bytes, s.mimeType⟩) ++
        [⟨NamesMp4, "video/mp4"⟩, ⟨IsText, plainUtf8⟩, ⟨fun _ => True, octetStream⟩]))

theorem decides_classify (data : Bytes) : Decides rules data (classify data) := by
  unfold classify rules
  simp only
  split
  · next hhtml => exact .here (isHtml_iff.mp hhtml)
  · next hhtml =>
    refine .later (fun happ => hhtml (isHtml_iff.mpr happ)) ?_
    split
    · next hxml => exact .here (isXml_iff.mp hxml)
    · next hxml =>
      refine .later (fun happ => hxml (isXml_iff.mpr happ)) ?_
      have hsignatures : ∀ s ∈ signatures, s.bytes.isPrefixOf data = true ↔ s.bytes <+: data :=
        fun s _ => List.isPrefixOf_iff_prefix
      split
      · next s hs => exact .of_find?_eq_some hsignatures hs _
      · next hs =>
        refine .of_find?_eq_none hsignatures hs ?_
        have hformats : ∀ s ∈ riffFormats, (12 ≤ data.length && (Bytes.ofAscii "RIFF").isPrefixOf data &&
            s.bytes.isPrefixOf (data.drop 8)) = true ↔ IsRiff s.bytes data := fun s _ => isRiff_iff
        rw [riffFormat?_eq_find?]
        split
        · next s hs => exact .of_find?_eq_some hformats hs _
        · next hs =>
          refine .of_find?_eq_none hformats hs ?_
          split
          · next hmp4 => exact .here (isMp4_iff.mp hmp4)
          · next hmp4 =>
            refine .later (fun happ => hmp4 (isMp4_iff.mpr happ)) ?_
            split
            · next htext => exact .here (isText_iff.mp htext)
            · next htext => exact .later (fun happ => htext (isText_iff.mpr happ)) (.here trivial)

/-- A file type box of 24 bytes with the brand of MP4 in its last slot, at which the data ends. -/
def movie : Bytes := [0, 0, 0, 24] ++ Bytes.ofAscii "ftypisom" ++ [0, 0, 2, 0] ++ Bytes.ofAscii "isommp41"

/-- A file type box of 256 bytes begins like an icon, and the rule of icons comes first. -/
example : detect ([0, 0, 1, 0] ++ Bytes.ofAscii "ftypmp42" ++ List.replicate 244 0) = "image/x-icon" := by
  decide +kernel

end Sniff

end FileDepot
