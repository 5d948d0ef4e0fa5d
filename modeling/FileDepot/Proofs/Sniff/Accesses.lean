import FileDepot.Sniff

/-!
# Sniffing within bounds

The sniffing of a content with every access to its bytes checked: a range or a position that the content does not
have gives no result at all. There always is one, and it is the type that is detected without the checks.
-/

namespace FileDepot

namespace Bytes

/-- The bytes from position `i` up to position `j`, if there are such positions. -/
def slice? (bytes : Bytes) (i j : Nat) : Option Bytes :=
  if i ≤ j ∧ j ≤ bytes.length then some ((bytes.drop i).take (j - i)) else none

theorem slice?_of_le {bytes : Bytes} {i j : Nat} (h : i ≤ j) (hj : j ≤ bytes.length) :
    bytes.slice? i j = some ((bytes.drop i).take (j - i)) := if_pos ⟨h, hj⟩

theorem slice?_zero {bytes : Bytes} {j : Nat} (hj : j ≤ bytes.length) : bytes.slice? 0 j = some (bytes.take j) :=
  slice?_of_le (Nat.zero_le j) hj

theorem slice?_length {bytes : Bytes} {i : Nat} (h : i ≤ bytes.length) :
    bytes.slice? i bytes.length = some (bytes.drop i) := by
  have hlength : (bytes.drop i).length = bytes.length - i := List.length_drop
  rw [slice?_of_le h (Nat.le_refl _), ← hlength, List.take_length]

theorem exists_first_four {bytes : Bytes} (h : 4 ≤ bytes.length) :
    ∃ b₀ b₁ b₂ b₃ rest, bytes = b₀ :: b₁ :: b₂ :: b₃ :: rest := by
  match bytes, h with
  | b₀ :: b₁ :: b₂ :: b₃ :: rest, _ => exact ⟨b₀, b₁, b₂, b₃, rest, rfl⟩

/-- What data starts with is what it has in the first positions. -/
theorem isPrefixOf_eq_beq (start bytes : Bytes) :
    start.isPrefixOf bytes = (bytes.take start.length == start) := by
  rw [Bool.eq_iff_iff, List.isPrefixOf_iff_prefix, List.prefix_iff_eq_take, beq_iff_eq, eq_comm]

end Bytes

namespace Sniff

namespace Checked

/-- The data behind the white space that it begins with. -/
def skipSpace (data : Bytes) : Option Bytes :=
  data.slice? ((data.findIdx? fun b => !isSpace b).getD data.length) data.length

/-- Whether `data` starts with `tag` in any ASCII case, followed by a space or `>`. -/
def opensWith (data tag : Bytes) : Option Bool := do
  if data.length ≤ tag.length then return false
  let start ← data.slice? 0 tag.length
  if start.map Bytes.lowerAscii ≠ tag.map Bytes.lowerAscii then return false
  let c ← data[tag.length]?
  return c == 0x20 || c == 0x3E

/-- Whether `data`, without leading white space, opens an HTML document. -/
def isHtml (data : Bytes) : Option Bool := htmlTags.anyM (opensWith data)

/-- The format of a RIFF container, if `data` is one of a known format. -/
def riffFormat? (data : Bytes) : Option (Option Signature) := do
  if 12 ≤ data.length && (Bytes.ofAscii "RIFF").isPrefixOf data then
    let tag ← data.slice? 8 data.length
    return riffFormats.find? fun s => s.bytes.isPrefixOf tag
  return none

/-- The big-endian number in the first four bytes. -/
def boxSize (data : Bytes) : Option Nat := do
  let b₀ ← data[0]?
  let b₁ ← data[1]?
  let b₂ ← data[2]?
  let b₃ ← data[3]?
  return ((b₀.toNat * 256 + b₁.toNat) * 256 + b₂.toNat) * 256 + b₃.toNat

/-- The offsets among those of the brands at which `data` still has three bytes. -/
def readableOffsets (data : Bytes) (size : Nat) : List Nat :=
  (brandOffsets size).filter fun i => i + 3 ≤ data.length

/-- Whether `data` starts with a file type box that names an MP4 brand. -/
def isMp4 (data : Bytes) : Option Bool := do
  if data.length < 12 then return false
  let size ← boxSize data
  if size < 12 || data.length < size || size % 4 != 0 then return false
  let kind ← data.slice? 4 8
  if kind ≠ Bytes.ofAscii "ftyp" then return false
  (readableOffsets data size).anyM fun i => (data.slice? i (i + 3)).map (· == Bytes.ofAscii "mp4")

/-- The type of the bytes in the window, by the first rule that applies. -/
def classify (data : Bytes) : Option String := do
  let marked ← skipSpace data
  if ← isHtml marked then return html
  if (Bytes.ofAscii "<?xml").isPrefixOf marked then return xml
  if let some s := signatures.find? fun s => s.bytes.isPrefixOf data then return s.mimeType
  if let some s ← riffFormat? data then return s.mimeType
  if ← isMp4 data then return "video/mp4"
  if !data.isEmpty && !data.any isBinary then return plainUtf8
  return octetStream

/-- The MIME type of a content; none if an access is out of range. -/
def detect (content : Bytes) : Option String := do
  let data ← content.slice? 0 (min content.length windowLength)
  classify data

end Checked

/-! ## The box of a file type -/

theorem boxSize_cons (b₀ b₁ b₂ b₃ : UInt8) (rest : Bytes) : boxSize (b₀ :: b₁ :: b₂ :: b₃ :: rest) =
    16777216 * b₀.toNat + 65536 * b₁.toNat + 256 * b₂.toNat + b₃.toNat := by
  simp only [boxSize, List.take_succ_cons, List.take_zero, List.foldl_cons, List.foldl_nil]
  omega

/-- The offsets of the four-byte slots for brands in a file type box of the given size: the first one, and behind
    the version every one up to the end of the box. -/
def IsSlot (size i : Nat) : Prop := i = 8 ∨ 16 ≤ i ∧ i < size ∧ 4 ∣ i

theorem mem_brandOffsets_iff {size i : Nat} : i ∈ brandOffsets size ↔ IsSlot size i := by
  unfold brandOffsets IsSlot
  rw [List.mem_cons, List.mem_map]
  refine or_congr_right ⟨?_, ?_⟩
  · rintro ⟨k, hk, rfl⟩
    rw [List.mem_range] at hk
    omega
  · rintro ⟨hlow, hhigh, hdvd⟩
    refine ⟨(i - 16) / 4, ?_, by omega⟩
    rw [List.mem_range]
    omega

/-- A slot lies in its box as a whole. -/
theorem IsSlot.le {size i : Nat} (h : IsSlot size i) (hsize : 12 ≤ size) (hdvd : 4 ∣ size) : i + 4 ≤ size := by
  unfold IsSlot at h
  omega

namespace Checked

variable {data tag : Bytes} {size : Nat}

/-- So no slot is passed over because the data ends. -/
theorem readableOffsets_eq (hsize : 12 ≤ size) (hdvd : 4 ∣ size) (hfits : size ≤ data.length) :
    readableOffsets data size = brandOffsets size := by
  rw [readableOffsets, List.filter_eq_self]
  intro i hi
  have hend := (mem_brandOffsets_iff.mp hi).le hsize hdvd
  rw [decide_eq_true_eq]
  omega

/-! ## Every access is in range -/

/-- A search whose tests all have a result has one. -/
theorem anyM_of_total {α : Type} {f : α → Option Bool} {g : α → Bool} {l : List α}
    (h : ∀ a ∈ l, f a = some (g a)) : l.anyM f = some (l.any g) := by
  induction l with
  | nil => rfl
  | cons a rest ih =>
    rw [List.forall_mem_cons] at h
    rw [List.anyM, h.1, List.any_cons]
    cases g a with
    | true => rfl
    | false => exact ih h.2

theorem skipSpace_eq (data : Bytes) : skipSpace data = some (data.dropWhile isSpace) := by
  rw [skipSpace, ← List.findIdx_eq_getD_findIdx?, List.dropWhile_eq_drop_findIdx_not]
  exact Bytes.slice?_length List.findIdx_le_length

theorem opensWith_eq (data tag : Bytes) : opensWith data tag = some (Sniff.opensWith data tag) := by
  by_cases hshort : data.length ≤ tag.length
  · have hend : data.drop tag.length = [] := List.drop_eq_nil_of_le hshort
    rw [opensWith, if_pos hshort, Sniff.opensWith, hend, Bool.and_false]
    rfl
  · have hlt : tag.length < data.length := Nat.lt_of_not_le hshort
    have hend : data.drop tag.length = data[tag.length] :: data.drop (tag.length + 1) :=
      List.drop_eq_getElem_cons hlt
    have hnext : data[tag.length]? = some data[tag.length] := List.getElem?_eq_getElem hlt
    rw [opensWith, if_neg hshort, Bytes.slice?_zero (Nat.le_of_lt hlt), Sniff.opensWith, hend]
    simp only [Option.bind_eq_bind, Option.bind_some, Option.pure_def]
    split
    · next hne => rw [beq_false_of_ne hne, Bool.false_and]
    · next heq => rw [hnext, Option.bind_some, beq_iff_eq.mpr (Decidable.of_not_not heq), Bool.true_and]

theorem isHtml_eq (data : Bytes) : isHtml data = some (Sniff.isHtml data) :=
  anyM_of_total fun tag _ => opensWith_eq data tag

theorem riffFormat?_eq (data : Bytes) : riffFormat? data = some (Sniff.riffFormat? data) := by
  unfold riffFormat? Sniff.riffFormat?
  split
  · next hriff =>
    have hlong : 8 ≤ data.length := by
      rw [Bool.and_eq_true, decide_eq_true_eq] at hriff
      omega
    rw [Bytes.slice?_length hlong]
    rfl
  · rfl

theorem boxSize_eq (h : 4 ≤ data.length) : boxSize data = some (Sniff.boxSize data) := by
  obtain ⟨b₀, b₁, b₂, b₃, rest, rfl⟩ := Bytes.exists_first_four h
  have hread : boxSize (b₀ :: b₁ :: b₂ :: b₃ :: rest) =
      some (((b₀.toNat * 256 + b₁.toNat) * 256 + b₂.toNat) * 256 + b₃.toNat) := rfl
  rw [hread, Option.some.injEq, boxSize_cons]
  omega

/-- The test of a slot reads three bytes that the data has. -/
theorem slotTest_eq (hsize : 12 ≤ size) (hdvd : 4 ∣ size) (hfits : size ≤ data.length) {i : Nat}
    (hi : i ∈ brandOffsets size) : (data.slice? i (i + 3)).map (· == Bytes.ofAscii "mp4") =
      some ((Bytes.ofAscii "mp4").isPrefixOf (data.drop i)) := by
  have hend := (mem_brandOffsets_iff.mp hi).le hsize hdvd
  rw [Bytes.slice?_of_le (Nat.le_add_right i 3) (by omega), Nat.add_sub_cancel_left, Bytes.isPrefixOf_eq_beq]
  rfl

theorem isMp4_eq (data : Bytes) : isMp4 data = some (Sniff.isMp4 data) := by
  by_cases hlong : data.length < 12
  · have hshort : ¬ 12 ≤ data.length := Nat.not_le_of_lt hlong
    simp [isMp4, Sniff.isMp4, hlong, hshort]
  · have hfour : 4 ≤ data.length := by omega
    have height : 8 ≤ data.length := by omega
    have htwelve : 12 ≤ data.length := Nat.le_of_not_lt hlong
    rw [isMp4, if_neg hlong, boxSize_eq hfour, Bytes.slice?_of_le (by decide) height, Sniff.isMp4,
      Bytes.isPrefixOf_eq_beq]
    generalize Sniff.boxSize data = size
    simp only [Option.bind_eq_bind, Option.bind_some, Option.pure_def]
    split
    · next hbad => grind
    · next hgood =>
      simp only [Bool.or_eq_true, decide_eq_true_eq, bne_iff_ne, not_or, Decidable.not_not, Nat.not_lt] at hgood
      obtain ⟨⟨hsize, hfits⟩, hmod⟩ := hgood
      have hdvd : 4 ∣ size := Nat.dvd_of_mod_eq_zero hmod
      have hslots := anyM_of_total fun i hi => slotTest_eq hsize hdvd hfits (i := i) hi
      split
      · next hkind =>
        have hno : ((data.drop 4).take (8 - 4) == Bytes.ofAscii "ftyp") = false := beq_false_of_ne hkind
        have hlength : (Bytes.ofAscii "ftyp").length = 8 - 4 := rfl
        rw [hlength, hno, Bool.and_false, Bool.false_and]
      · next hkind =>
        have hyes : ((data.drop 4).take (8 - 4) == Bytes.ofAscii "ftyp") = true :=
          beq_iff_eq.mpr (Decidable.of_not_not hkind)
        have hlength : (Bytes.ofAscii "ftyp").length = 8 - 4 := rfl
        rw [readableOffsets_eq hsize hdvd hfits, hslots, hlength, hyes]
        simp [htwelve, hsize, hfits, hmod]

theorem classify_eq (data : Bytes) : classify data = some (Sniff.classify data) := by
  rw [classify, skipSpace_eq, Sniff.classify]
  simp only [Option.bind_eq_bind, Option.bind_some, Option.pure_def, isHtml_eq, riffFormat?_eq, isMp4_eq]
  split
  · rfl
  · split
    · rfl
    · cases signatures.find? fun s => s.bytes.isPrefixOf data with
      | some s => rfl
      | none =>
        cases Sniff.riffFormat? data with
        | some s => rfl
        | none =>
          simp only
          split
          · rfl
          · split <;> rfl

/-- The type of a content is found without an access out of range. -/
theorem detect_eq (content : Bytes) : detect content = some (Sniff.detect content) := by
  have hwindow : content.take (min content.length windowLength) = content.take windowLength := by
    rw [Nat.min_comm, ← List.take_take, List.take_length]
  rw [detect, Bytes.slice?_zero (Nat.min_le_left _ _), hwindow]
  exact classify_eq _

end Checked

end Sniff

end FileDepot
