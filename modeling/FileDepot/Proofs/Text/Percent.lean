import FileDepot.Text.Percent
import Mathlib.Data.Bool.AllAny

/-!
# Encoded texts

The bytes of texts, character by character, and what percent encoding makes of them: characters that stand for
themselves and escapes, from which decoding gives the bytes back.
-/

namespace FileDepot

namespace Bytes

theorem ofText_ofList (cs : List Char) : ofText (String.ofList cs) = cs.flatMap String.utf8EncodeChar := by
  rw [ofText, String.toUTF8_eq_toByteArray, String.toByteArray_ofList, List.utf8Encode, List.data_toByteArray]

theorem ofText_eq (text : String) : ofText text = text.toList.flatMap String.utf8EncodeChar := by
  rw [← ofText_ofList, String.ofList_toList]

theorem ofText_append (s t : String) : ofText (s ++ t) = ofText s ++ ofText t := by
  rw [ofText_eq, String.toList_append, List.flatMap_append, ← ofText_eq, ← ofText_eq]

theorem length_ofText (text : String) : (ofText text).length = text.utf8ByteSize := rfl

theorem utf8ByteSize_ofList_cons (c : Char) (cs : List Char) :
    (String.ofList (c :: cs)).utf8ByteSize = c.utf8Size + (String.ofList cs).utf8ByteSize := by
  rw [← length_ofText, ofText_ofList, List.flatMap_cons, List.length_append, String.length_utf8EncodeChar,
    ← ofText_ofList, length_ofText]

theorem utf8EncodeChar_of_lt {c : Char} (h : c.toNat < 128) : String.utf8EncodeChar c = [c.toNat.toUInt8] :=
  if_pos (Nat.le_of_lt_succ h)

/-- A character beyond ASCII has no byte of ASCII. -/
theorem le_of_mem_utf8EncodeChar {c : Char} (h : 128 ≤ c.toNat) {b : UInt8}
    (hb : b ∈ String.utf8EncodeChar c) : 128 ≤ b.toNat := by
  have hlow : ∀ n, 128 ≤ n → n < 256 → 128 ≤ (UInt8.ofNat n).toNat := by
    intro n hn hlt
    rw [UInt8.toNat_ofNat', Nat.mod_eq_of_lt hlt]
    exact hn
  have hbig : ¬ c.val.toNat ≤ 127 := by
    have : c.val.toNat = c.toNat := rfl
    omega
  simp only [String.utf8EncodeChar, if_neg hbig] at hb
  split at hb
  · simp only [List.mem_cons, List.not_mem_nil, or_false] at hb
    rcases hb with rfl | rfl <;> exact hlow _ (by omega) (by omega)
  · split at hb
    · simp only [List.mem_cons, List.not_mem_nil, or_false] at hb
      rcases hb with rfl | rfl | rfl <;> exact hlow _ (by omega) (by omega)
    · simp only [List.mem_cons, List.not_mem_nil, or_false] at hb
      rcases hb with rfl | rfl | rfl | rfl <;> exact hlow _ (by omega) (by omega)

end Bytes

namespace Percent

/-- The characters that stand for themselves. -/
def IsUnreserved (c : Char) : Prop := c.isAlphanum = true ∨ c ∈ ['-', '.', '_', '~']

/-- The digits of escapes. -/
def IsHexDigit (c : Char) : Prop := c ∈ "0123456789ABCDEF".toList

instance (c : Char) : Decidable (IsUnreserved c) := inferInstanceAs (Decidable (_ ∨ _))

instance (c : Char) : Decidable (IsHexDigit c) := inferInstanceAs (Decidable (_ ∈ _))

/-- A text of characters that stand for themselves and of escapes. -/
inductive IsEncoded : List Char → Prop
  | nil : IsEncoded []
  | plain {c : Char} {rest : List Char} (h : IsUnreserved c) (hr : IsEncoded rest) : IsEncoded (c :: rest)
  | escape {high low : Char} {rest : List Char} (hh : IsHexDigit high) (hl : IsHexDigit low)
    (hr : IsEncoded rest) : IsEncoded ('%' :: high :: low :: rest)

variable {b : UInt8} {c : Char} {cs : List Char}

/-! ## Bytes -/

/-- What is known of each byte is known once it is known of the numbers below 256. -/
theorem forall_byte {P : UInt8 → Prop} (h : ∀ n < 256, P n.toUInt8) (b : UInt8) : P b := by
  have hb := h b.toNat b.toNat_lt
  rwa [Nat.toUInt8, UInt8.ofNat_toNat] at hb

/-- A byte that stands for itself is that of its character, and begins no escape. -/
theorem plain_byte (h : isPlain b = true) : b ≠ 0x25 ∧ IsUnreserved (Char.ofNat b.toNat) ∧
    String.utf8EncodeChar (Char.ofNat b.toNat) = [b] := by
  revert h
  refine forall_byte (P := fun b => isPlain b = true → b ≠ 0x25 ∧ IsUnreserved (Char.ofNat b.toNat) ∧
    String.utf8EncodeChar (Char.ofNat b.toNat) = [b]) ?_ b
  decide +kernel

/-- Any other byte is written with two digits from which it can be read again. -/
theorem escaped_byte (b : UInt8) : ∃ high low : Char, Text.hexPair "0123456789ABCDEF" b = [high, low] ∧
    IsHexDigit high ∧ IsHexDigit low ∧ ∃ m n : Nat, Text.hexValue? high = some m ∧
      Text.hexValue? low = some n ∧ (16 * m + n).toUInt8 = b := by
  have hdigit : ∀ n < 16, IsHexDigit ("0123456789ABCDEF".toList.getD n '0') ∧
      Text.hexValue? ("0123456789ABCDEF".toList.getD n '0') = some n := by decide
  have hlt : b.toNat < 256 := b.toNat_lt
  obtain ⟨hhigh, hm⟩ := hdigit (b.toNat / 16) (by omega)
  obtain ⟨hlow, hn⟩ := hdigit (b.toNat % 16) (by omega)
  refine ⟨_, _, rfl, hhigh, hlow, _, _, hm, hn, ?_⟩
  rw [Nat.div_add_mod, Nat.toUInt8, UInt8.ofNat_toNat]

theorem IsHexDigit.utf8EncodeChar (h : IsHexDigit c) :
    String.utf8EncodeChar c = [c.toNat.toUInt8] ∧ hexByte? c.toNat.toUInt8 = Text.hexValue? c := by
  have hall : ∀ d ∈ "0123456789ABCDEF".toList, String.utf8EncodeChar d = [d.toNat.toUInt8] ∧
      hexByte? d.toNat.toUInt8 = Text.hexValue? d := List.all_iff_forall_prop.mp (by decide)
  exact hall c h

theorem isEncoded_encodeByte (b : UInt8) (hcs : IsEncoded cs) : IsEncoded (encodeByte b ++ cs) := by
  unfold encodeByte
  split
  · next hplain => exact .plain (plain_byte hplain).2.1 hcs
  · obtain ⟨high, low, hpair, hhigh, hlow, -⟩ := escaped_byte b
    rw [hpair]
    exact .escape hhigh hlow hcs

/-- What is written for a byte is read as this byte, whatever follows. -/
theorem decode_encodeByte (b : UInt8) (rest : Bytes) :
    decode ((encodeByte b).flatMap String.utf8EncodeChar ++ rest) = b :: decode rest := by
  unfold encodeByte
  split
  · next hplain =>
    obtain ⟨hne, -, hbyte⟩ := plain_byte hplain
    rw [List.flatMap_singleton, hbyte, List.singleton_append, decode]
    exact fun _ _ _ heq => absurd heq hne
  · obtain ⟨high, low, hpair, hhigh, hlow, m, n, hm, hn, hvalue⟩ := escaped_byte b
    have hpercent : String.utf8EncodeChar '%' = [0x25] := by decide
    rw [hpair, List.flatMap_cons, List.flatMap_cons, List.flatMap_singleton, hpercent,
      hhigh.utf8EncodeChar.1, hlow.utf8EncodeChar.1]
    simp only [List.cons_append, List.nil_append, decode, hhigh.utf8EncodeChar.2, hlow.utf8EncodeChar.2,
      hm, hn, hvalue]

/-! ## Texts -/

theorem isEncoded_encode (text : String) : IsEncoded (encode text).toList := by
  rw [encode, String.toList_ofList]
  induction Bytes.ofText text with
  | nil => exact .nil
  | cons b rest ih => exact isEncoded_encodeByte b ih

/-- The bytes of a text can be read from the encoded text. -/
theorem decode_encode (text : String) : decode (Bytes.ofText (encode text)) = Bytes.ofText text := by
  rw [encode, Bytes.ofText_ofList]
  induction Bytes.ofText text with
  | nil => rfl
  | cons b rest ih => rw [List.flatMap_cons, List.flatMap_append, decode_encodeByte, ih]

theorem IsUnreserved.printable (h : IsUnreserved c) : 32 ≤ c.toNat ∧ c.toNat < 127 := by
  have hrange : ∀ a z : Char, 32 ≤ a.toNat → z.toNat < 127 → a.val ≤ c.val → c.val ≤ z.val →
      32 ≤ c.toNat ∧ c.toNat < 127 := fun a z ha hz hlow hhigh =>
    ⟨Nat.le_trans ha (UInt32.le_iff_toNat_le.mp hlow), Nat.lt_of_le_of_lt (UInt32.le_iff_toNat_le.mp hhigh) hz⟩
  rcases h with halphanum | hmark
  · rcases (Bool.or_eq_true _ _).mp halphanum with halpha | hdigit
    · rcases (Bool.or_eq_true _ _).mp halpha with hupper | hlower
      · obtain ⟨hlow, hhigh⟩ : 'A'.val ≤ c.val ∧ c.val ≤ 'Z'.val := of_decide_eq_true hupper
        exact hrange 'A' 'Z' (by decide) (by decide) hlow hhigh
      · obtain ⟨hlow, hhigh⟩ := (Bool.and_eq_true _ _).mp hlower
        exact hrange 'a' 'z' (by decide) (by decide) (of_decide_eq_true hlow) (of_decide_eq_true hhigh)
    · obtain ⟨hlow, hhigh⟩ := (Bool.and_eq_true _ _).mp hdigit
      exact hrange '0' '9' (by decide) (by decide) (of_decide_eq_true hlow) (of_decide_eq_true hhigh)
  · have hall : ∀ d ∈ ['-', '.', '_', '~'], 32 ≤ d.toNat ∧ d.toNat < 127 :=
      List.all_iff_forall_prop.mp (by decide)
    exact hall c hmark

theorem IsHexDigit.printable (h : IsHexDigit c) : 32 ≤ c.toNat ∧ c.toNat < 127 := by
  have hall : ∀ d ∈ "0123456789ABCDEF".toList, 32 ≤ d.toNat ∧ d.toNat < 127 :=
    List.all_iff_forall_prop.mp (by decide)
  exact hall c h

/-- An encoded text is printable. -/
theorem IsEncoded.printable (h : IsEncoded cs) : ∀ c ∈ cs, 32 ≤ c.toNat ∧ c.toNat < 127 := by
  induction h with
  | nil => exact fun c hc => (List.not_mem_nil hc).elim
  | plain hc hr ih =>
    rw [List.forall_mem_cons]
    exact ⟨hc.printable, ih⟩
  | escape hh hl hr ih =>
    simp only [List.forall_mem_cons]
    exact ⟨by decide, hh.printable, hl.printable, ih⟩

end Percent

end FileDepot
