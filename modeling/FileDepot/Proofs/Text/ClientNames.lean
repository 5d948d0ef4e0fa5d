import FileDepot.Proofs.Text.Names
import FileDepot.Proofs.Text.Percent

/-!
# Names from clients

What is kept of the path that a client gives as the name of a file, and the extension of what is kept. The
extension is found by counting bytes, from where the last dot stands, and the count always ends between two
characters.
-/

namespace FileDepot

namespace Text

variable {c : Char} {cs : List Char} {s t : String}

/-- No character gets lost when a text is written in small letters. -/
theorem lowerChar_ne_nil (before : List Char) (c : Char) (after : List Char) : lowerChar before c after ≠ [] := by
  unfold lowerChar
  split
  · split <;> exact List.cons_ne_nil _ _
  · split
    · exact List.cons_ne_nil _ _
    · split <;> exact List.cons_ne_nil _ _

theorem lower_eq_empty_iff : lower s = "" ↔ s = "" := by
  constructor
  · intro h
    have hchars : lowerFrom [] s.toList = [] := by
      rw [← String.toList_ofList (l := lowerFrom [] s.toList)]
      exact congrArg String.toList h
    cases hs : s.toList with
    | nil => exact String.toList_inj.mp hs
    | cons c after =>
      rw [hs, lowerFrom, List.append_eq_nil_iff] at hchars
      exact absurd hchars.1 (lowerChar_ne_nil [] c after)
  · rintro rfl
    rfl

/-- The text from byte `k` on, provided that a character begins there or the text ends there. -/
def dropBytes? (text : String) (k : Nat) : Option String :=
  if String.Pos.Raw.isValid text ⟨k⟩ then Bytes.text? ((Bytes.ofText text).drop k) else none

/-- Behind a text another one can be cut off. -/
theorem dropBytes?_append (s t : String) : dropBytes? (s ++ t) s.utf8ByteSize = some t := by
  have hvalid : String.Pos.Raw.isValid (s ++ t) ⟨s.utf8ByteSize⟩ = true := by
    rw [String.Pos.Raw.isValid_eq_true_iff, String.Pos.Raw.isValid_iff_exists_append]
    exact ⟨s, t, rfl, rfl⟩
  rw [dropBytes?, if_pos hvalid, Bytes.ofText_append, ← Bytes.length_ofText, List.drop_left, Bytes.text?_ofText]

/-- The number of bytes before the last dot. -/
def lastDot? : List Char → Option Nat
  | [] => none
  | c :: rest =>
    match lastDot? rest with
    | some k => some (c.utf8Size + k)
    | none => if c = '.' then some 0 else none

theorem lastDot?_of_notMem (h : '.' ∉ cs) : lastDot? cs = none := by
  induction cs with
  | nil => rfl
  | cons c rest ih =>
    obtain ⟨hc, hrest⟩ := List.ne_and_not_mem_of_not_mem_cons h
    rw [lastDot?, ih hrest]
    exact if_neg (Ne.symm hc)

theorem lastDot?_append (before : List Char) {after : List Char} (h : '.' ∉ after) :
    lastDot? (before ++ '.' :: after) = some (String.ofList before).utf8ByteSize := by
  induction before with
  | nil =>
    rw [List.nil_append, lastDot?, lastDot?_of_notMem h]
    rfl
  | cons c rest ih =>
    rw [List.cons_append, lastDot?, ih, Bytes.utf8ByteSize_ofList_cons]

/-- A list of characters has no dot, or it has a last one. -/
theorem notMem_or_last_dot (cs : List Char) :
    '.' ∉ cs ∨ ∃ before after, cs = before ++ '.' :: after ∧ '.' ∉ after := by
  induction cs with
  | nil => exact Or.inl List.not_mem_nil
  | cons c rest ih =>
    rcases ih with hrest | ⟨before, after, rfl, hafter⟩
    · by_cases hc : c = '.'
      · subst hc
        exact Or.inr ⟨[], rest, rfl, hrest⟩
      · left
        rw [List.mem_cons, not_or]
        exact ⟨Ne.symm hc, hrest⟩
    · exact Or.inr ⟨c :: before, after, rfl, hafter⟩

end Text

namespace Name

variable {name raw : String} {before after : List Char}

/-! ## The last component -/

/-- What stands before a separator does not count. -/
theorem baseChars_append {c : Char} (hc : Text.isSeparator c = true) (dir cs : List Char) :
    baseChars (dir ++ c :: cs) = baseChars cs := by
  have hstop : ((c :: dir.reverse).takeWhile fun c => !Text.isSeparator c) = [] := by
    rw [List.takeWhile_cons, hc]
    rfl
  have hreverse : (dir ++ c :: cs).reverse = cs.reverse ++ c :: dir.reverse := by simp
  rw [baseChars, hreverse, List.takeWhile_append, hstop, List.append_nil]
  split
  · next hlength =>
    have hall : (cs.reverse.takeWhile fun c => !Text.isSeparator c) = cs.reverse :=
      (List.takeWhile_prefix _).eq_of_length hlength
    rw [baseChars, hall]
  · rfl

theorem ofClient_append {c : Char} (hc : Text.isSeparator c = true) (dir raw : String) :
    ofClient (dir ++ String.singleton c ++ raw) = ofClient raw := by
  have hchars : (dir ++ String.singleton c ++ raw).toList = dir.toList ++ c :: raw.toList := by simp
  rw [ofClient, hchars, baseChars_append hc]
  rfl

/-- No file is kept under one of the two names that stand for directories. -/
theorem ofClient_ne_dots (raw : String) : ofClient raw ≠ "." ∧ ofClient raw ≠ ".." := by
  unfold ofClient
  simp only
  split
  · exact ⟨by decide, by decide⟩
  · next hbase =>
    rw [not_or, not_or] at hbase
    exact hbase.2

/-- What is kept of a name is kept again. -/
theorem ofClient_ofClient (raw : String) : ofClient (ofClient raw) = ofClient raw :=
  ofClient_of_isPlain (isPlain_ofClient raw) (ofClient_ne_dots raw).1 (ofClient_ne_dots raw).2

/-! ## The extension -/

theorem extension_of_notMem (h : '.' ∉ name.toList) : extension name = "" := by
  have hall : (name.toList.reverse.takeWhile (· != '.')) = name.toList.reverse := by
    rw [List.takeWhile_eq_self_iff]
    intro c hc
    rw [bne_iff_ne]
    rintro rfl
    exact h (List.mem_reverse.mp hc)
  rw [extension, hall, List.length_reverse]
  exact if_pos (Nat.le_succ _)

/-- What follows the last dot is the extension, unless nothing stands before this dot. -/
theorem extension_of_last_dot (hname : name.toList = before ++ '.' :: after) (h : '.' ∉ after) :
    extension name = if before = [] then "" else Text.lower (String.ofList after) := by
  have hall : ∀ c ∈ after.reverse, (c != '.') = true := by
    intro c hc
    rw [bne_iff_ne]
    rintro rfl
    exact h (List.mem_reverse.mp hc)
  have htail : (name.toList.reverse.takeWhile (· != '.')) = after.reverse := by
    rw [hname, List.reverse_append, List.reverse_cons, List.append_assoc, List.takeWhile_append_of_pos hall]
    simp
  have hlength : name.toList.length ≤ after.reverse.length + 1 ↔ before = [] := by
    rw [hname, List.length_append, List.length_cons, List.length_reverse, ← List.length_eq_zero_iff]
    omega
  simp only [extension, htail, hlength, List.reverse_reverse]

/-- The extension as it is found in the bytes of a name; none if a character would be cut in two. -/
def extensionInBytes? (name : String) : Option String :=
  match Text.lastDot? name.toList with
  | none => some ""
  | some 0 => some ""
  | some k => (Text.dropBytes? name (k + 1)).map Text.lower

/-- No character is cut in two, and what is found is the extension. -/
theorem extensionInBytes?_eq (name : String) : extensionInBytes? name = some (extension name) := by
  rcases Text.notMem_or_last_dot name.toList with hnone | ⟨before, after, hname, hafter⟩
  · rw [extensionInBytes?, Text.lastDot?_of_notMem hnone, extension_of_notMem hnone]
  · rw [extensionInBytes?, hname, Text.lastDot?_append before hafter, extension_of_last_dot hname hafter]
    cases before with
    | nil => rfl
    | cons c rest =>
      have hsplit : name = String.ofList (c :: rest) ++ "." ++ String.ofList after := by
        apply String.toList_inj.mp
        simp [hname]
      have hk : (String.ofList (c :: rest) ++ ".").utf8ByteSize = (String.ofList (c :: rest)).utf8ByteSize + 1 :=
        String.utf8ByteSize_append
      have hpos : (String.ofList (c :: rest)).utf8ByteSize ≠ 0 := by
        have hc := c.utf8Size_pos
        rw [Bytes.utf8ByteSize_ofList_cons]
        omega
      have hcut : Text.dropBytes? name ((String.ofList (c :: rest)).utf8ByteSize + 1) = some (String.ofList after) := by
        rw [hsplit, ← hk]
        exact Text.dropBytes?_append _ _
      split
      · next h => cases h
      · next h => exact absurd (Option.some.inj h) hpos
      · next k _ h =>
        rw [← Option.some.inj h, hcut]
        rfl

/-- A name without a dot, with a leading dot only, or with a dot at its end. -/
def LacksExtension (name : String) : Prop :=
  '.' ∉ name.toList ∨ (∃ t, name = "." ++ t ∧ '.' ∉ t.toList) ∨ ∃ s, name = s ++ "."

/-- A name that goes on behind its last dot and does not begin with it. -/
def HasExtension (name t : String) : Prop :=
  t ≠ "" ∧ '.' ∉ t.toList ∧ ∃ s, s ≠ "" ∧ name = s ++ "." ++ t

theorem LacksExtension.extension_eq (h : LacksExtension name) : extension name = "" := by
  rcases h with hnone | ⟨t, rfl, ht⟩ | ⟨s, rfl⟩
  · exact extension_of_notMem hnone
  · have hname : ("." ++ t).toList = [] ++ '.' :: t.toList := by simp
    rw [extension_of_last_dot hname ht]
    exact if_pos rfl
  · have hname : (s ++ ".").toList = s.toList ++ '.' :: [] := by simp
    rw [extension_of_last_dot hname List.not_mem_nil, Text.lower_eq_empty_iff.mpr rfl, ite_self]

theorem HasExtension.extension_eq {t : String} (h : HasExtension name t) : extension name = Text.lower t := by
  obtain ⟨-, ht, s, hs, rfl⟩ := h
  have hname : (s ++ "." ++ t).toList = s.toList ++ '.' :: t.toList := by simp
  have hne : s.toList ≠ [] := fun hnil => hs (String.toList_inj.mp hnil)
  rw [extension_of_last_dot hname ht, if_neg hne, String.ofList_toList]

theorem lacks_or_has_extension (name : String) : LacksExtension name ∨ ∃ t, HasExtension name t := by
  rcases Text.notMem_or_last_dot name.toList with hnone | ⟨before, after, hname, hafter⟩
  · exact Or.inl (Or.inl hnone)
  · have hsplit : name = String.ofList before ++ "." ++ String.ofList after := by
      apply String.toList_inj.mp
      simp [hname]
    cases before with
    | nil =>
      refine Or.inl (Or.inr (Or.inl ⟨String.ofList after, ?_, ?_⟩))
      · simpa using hsplit
      · rwa [String.toList_ofList]
    | cons c rest =>
      cases after with
      | nil =>
        refine Or.inl (Or.inr (Or.inr ⟨String.ofList (c :: rest), ?_⟩))
        simpa using hsplit
      | cons e tail =>
        refine Or.inr ⟨String.ofList (e :: tail), ?_, ?_, String.ofList (c :: rest), ?_, hsplit⟩
        · simp
        · rwa [String.toList_ofList]
        · simp

/-- The extension is empty exactly for the names that lack one. -/
theorem extension_eq_empty_iff : extension name = "" ↔ LacksExtension name := by
  constructor
  · intro hempty
    rcases lacks_or_has_extension name with hlacks | ⟨t, ht⟩
    · exact hlacks
    · rw [ht.extension_eq, Text.lower_eq_empty_iff] at hempty
      exact absurd hempty ht.1
  · exact LacksExtension.extension_eq

/-- What holds of the name a file is kept under when a client calls it `raw`. -/
structure KeptSafely (raw : String) : Prop where
  ne_empty : ofClient raw ≠ ""
  trimmed : Text.trim (ofClient raw) = ofClient raw
  noSlash : '/' ∉ (ofClient raw).toList
  noBackslash : '\\' ∉ (ofClient raw).toList
  ne_dot : ofClient raw ≠ "."
  ne_dots : ofClient raw ≠ ".."
  /-- The name is kept as it is when it is given again. -/
  again : ofClient (ofClient raw) = ofClient raw
  /-- It does not depend on the directories that the client puts before it. -/
  anywhere : ∀ dir, ofClient (dir ++ "/" ++ raw) = ofClient raw ∧ ofClient (dir ++ "\\" ++ raw) = ofClient raw
  /-- To find the extension no character is cut in two. -/
  inBytes : extensionInBytes? (ofClient raw) = some (extension (ofClient raw))
  /-- The extension is empty exactly for the names that lack one. -/
  extension_iff : extension (ofClient raw) = "" ↔ LacksExtension (ofClient raw)
  /-- Otherwise it is what follows the last dot, in small letters. -/
  extension_eq : LacksExtension (ofClient raw) ∨
    ∃ t, HasExtension (ofClient raw) t ∧ extension (ofClient raw) = Text.lower t

/-- Whatever a client calls a file, it is kept under a safe name. -/
theorem client_names_are_safe (raw : String) : KeptSafely raw := by
  have hplain := isPlain_ofClient raw
  obtain ⟨hdot, hdots⟩ := ofClient_ne_dots raw
  constructor
  case ne_empty => exact hplain.ne_empty
  case trimmed => exact hplain.trimmed
  case noSlash => exact fun hslash => absurd (hplain.noSeparator _ hslash) (by decide)
  case noBackslash => exact fun hslash => absurd (hplain.noSeparator _ hslash) (by decide)
  case ne_dot => exact hdot
  case ne_dots => exact hdots
  case again => exact ofClient_ofClient raw
  case anywhere => exact fun dir => ⟨ofClient_append (c := '/') rfl dir raw, ofClient_append (c := '\\') rfl dir raw⟩
  case inBytes => exact extensionInBytes?_eq _
  case extension_iff => exact extension_eq_empty_iff
  case extension_eq =>
    rcases lacks_or_has_extension (ofClient raw) with hlacks | ⟨t, ht⟩
    · exact Or.inl hlacks
    · exact Or.inr ⟨t, ht, ht.extension_eq⟩

/-- A path that ends in two dots once it is trimmed. -/
example : ofClient "C:\\Users\\me/.. " = untitled := by decide

end Name

end FileDepot
