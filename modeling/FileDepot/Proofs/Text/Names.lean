import FileDepot.Error
import Mathlib.Data.List.DropRight
import Mathlib.Data.List.TakeWhile

/-!
# Display names

What the rule for display names lets pass, and what the names are like under which the files of clients are kept.
The rule and the choice of a name keep to the same form but for one point: only the rule looks at the length.
Beside them stands the stored form of references to folders.
-/

namespace FileDepot

/-- A text is what its encoding encodes. -/
theorem Bytes.text?_ofText (s : String) : text? (ofText s) = some s := by
  simp only [text?, ofText, String.fromUTF8?, Array.toArray_toList]
  exact dif_pos s.isValidUTF8

namespace Text

/-- Trimming takes white space away at the one end and then at the other. -/
theorem trimChars_eq (cs : List Char) : trimChars cs = (cs.dropWhile isBlank).rdropWhile isBlank := rfl

theorem trimChars_sublist (cs : List Char) : (trimChars cs).Sublist cs := by
  rw [trimChars_eq]
  exact (List.rdropWhile_prefix isBlank _).sublist.trans (List.dropWhile_sublist isBlank)

/-- What has been trimmed begins with no white space. -/
theorem dropWhile_trimChars (cs : List Char) : (trimChars cs).dropWhile isBlank = trimChars cs := by
  rw [List.dropWhile_eq_self_iff]
  intro hpos
  have hbegins : trimChars cs <+: cs.dropWhile isBlank := List.rdropWhile_prefix isBlank _
  have hlt : 0 < (cs.dropWhile isBlank).length := Nat.lt_of_lt_of_le hpos hbegins.length_le
  rw [hbegins.getElem hpos]
  exact List.dropWhile_get_zero_not isBlank cs hlt

theorem trimChars_trimChars (cs : List Char) : trimChars (trimChars cs) = trimChars cs := by
  rw [trimChars_eq (trimChars cs), dropWhile_trimChars]
  exact List.rdropWhile_idempotent isBlank (cs.dropWhile isBlank)

@[simp] theorem trim_trim (s : String) : trim (trim s) = trim s := by
  simp only [trim, String.toList_ofList, trimChars_trimChars]

/-- Trimming adds no characters. -/
theorem mem_of_mem_trim {s : String} {c : Char} (h : c ∈ (trim s).toList) : c ∈ s.toList := by
  rw [trim, String.toList_ofList] at h
  exact (trimChars_sublist s.toList).subset h

theorem length_trim_le (s : String) : (trim s).length ≤ s.length := by
  rw [trim, String.length_ofList, ← String.length_toList]
  exact (trimChars_sublist s.toList).length_le

theorem mem_dropWhile_of_not_blank {cs : List Char} {c : Char} (hc : c ∈ cs) (hb : isBlank c = false) :
    c ∈ cs.dropWhile isBlank := by
  rw [← List.takeWhile_append_dropWhile (p := isBlank) (l := cs)] at hc
  rcases List.mem_append.mp hc with hc | hc
  · rw [List.mem_takeWhile_imp hc] at hb
    cases hb
  · exact hc

/-- Trimming takes only white space away. -/
theorem mem_trim_of_not_blank {s : String} {c : Char} (hc : c ∈ s.toList) (hb : isBlank c = false) :
    c ∈ (trim s).toList := by
  rw [trim, String.toList_ofList, trimChars, List.mem_reverse]
  exact mem_dropWhile_of_not_blank (List.mem_reverse.mpr (mem_dropWhile_of_not_blank hc hb)) hb

end Text

namespace FolderRef

theorem normalize_eq_trim_or (ref : String) : normalize ref = Text.trim ref ∨ normalize ref = "" := by
  unfold normalize
  simp only
  split
  · exact Or.inr rfl
  · exact Or.inl rfl

/-- What is normal stays as it is. -/
@[simp] theorem normalize_normalize (ref : String) : normalize (normalize ref) = normalize ref := by
  by_cases hroot : Text.trim ref = rootFolderId
  · have hempty : normalize ref = "" := if_pos hroot
    rw [hempty]
    decide
  · have htrim : normalize ref = Text.trim ref := if_neg hroot
    rw [htrim, normalize, Text.trim_trim]
    exact if_neg hroot

/-- What clients are shown of a stored parent stands for that parent. -/
theorem normalize_forClient {parent : String} (h : normalize parent = parent) :
    normalize (forClient parent) = parent := by
  unfold forClient
  split
  · next htop =>
    rw [htop]
    decide
  · exact h

end FolderRef

namespace Name

/-- What every name in the depot has to be, however long it is: not empty, trimmed, and a single component of a
    path. -/
structure IsPlain (name : String) : Prop where
  ne_empty : name ≠ ""
  trimmed : Text.trim name = name
  noSeparator : ∀ c ∈ name.toList, Text.isSeparator c = false

variable {text name : String}

/-- What the rule lets pass, and as what. -/
theorem check_eq_ok_iff :
    check text = .ok name ↔ Text.trim text = name ∧ IsPlain name ∧ name.length ≤ maxLength := by
  unfold check
  simp only
  split
  · next hempty =>
    refine iff_of_false (by simp) ?_
    rintro ⟨rfl, hplain, -⟩
    exact hplain.ne_empty (String.isEmpty_iff.mp hempty)
  · next hempty =>
    split
    · next hlong =>
      refine iff_of_false (by simp) ?_
      rintro ⟨rfl, -, hle⟩
      omega
    · next hlong =>
      split
      · next hany =>
        refine iff_of_false (by simp) ?_
        rintro ⟨rfl, hplain, -⟩
        obtain ⟨c, hc, hsep⟩ := List.any_eq_true.mp hany
        rw [hplain.noSeparator c hc] at hsep
        cases hsep
      · next hany =>
        rw [Except.ok.injEq]
        refine ⟨fun heq => ?_, fun h => h.1⟩
        subst heq
        refine ⟨rfl, ⟨fun he => hempty (String.isEmpty_iff.mpr he), Text.trim_trim text, ?_⟩, Nat.le_of_not_lt hlong⟩
        intro c hc
        by_contra hsep
        exact hany (List.any_eq_true.mpr ⟨c, hc, by simpa using hsep⟩)

/-- A name passes the rule as it is if it is plain and not too long. -/
theorem check_eq_self_iff : check name = .ok name ↔ IsPlain name ∧ name.length ≤ maxLength := by
  rw [check_eq_ok_iff]
  exact ⟨fun h => h.2, fun h => ⟨h.1.trimmed, h⟩⟩

theorem IsPlain.check_of_long (h : IsPlain name) (hlong : maxLength < name.length) :
    check name = .error .tooLong := by
  have hempty : ¬ name.isEmpty = true := fun he => h.ne_empty (String.isEmpty_iff.mp he)
  simp only [check, h.trimmed, if_neg hempty, if_pos hlong]

/-- What has passed the rule passes it again. -/
theorem check_of_check (h : check text = .ok name) : check name = .ok name :=
  check_eq_self_iff.mpr (check_eq_ok_iff.mp h).2

theorem check_of_require (h : require text = .ok name) : check name = .ok name := by
  unfold require at h
  split at h
  · next found hfound =>
    cases h
    exact check_of_check hfound
  · cases h

theorem noSeparator_baseChars (cs : List Char) : ∀ c ∈ baseChars cs, Text.isSeparator c = false := by
  intro c hc
  rw [baseChars, List.mem_reverse] at hc
  simpa using List.mem_takeWhile_imp hc

/-- The name under which a file of a client is kept is plain, whatever the client calls it. -/
theorem isPlain_ofClient (raw : String) : IsPlain (ofClient raw) := by
  unfold ofClient
  simp only
  split
  · have hany : untitled.toList.any Text.isSeparator = false := by decide
    refine ⟨by decide, by decide, fun c hc => ?_⟩
    simpa using List.any_eq_false.mp hany c hc
  · next hbase =>
    rw [not_or] at hbase
    refine ⟨hbase.1, Text.trim_trim _, fun c hc => ?_⟩
    have hmem := Text.mem_of_mem_trim hc
    rw [String.toList_ofList] at hmem
    exact noSeparator_baseChars raw.toList c hmem

theorem baseChars_of_noSeparator {cs : List Char} (h : ∀ c ∈ cs, Text.isSeparator c = false) :
    baseChars cs = cs := by
  have hall : (cs.reverse.takeWhile fun c => !Text.isSeparator c) = cs.reverse := by
    rw [List.takeWhile_eq_self_iff]
    intro c hc
    simp [h c (List.mem_reverse.mp hc)]
  rw [baseChars, hall, List.reverse_reverse]

/-- A plain name is kept as it is, but for the two that stand for directories. -/
theorem ofClient_of_isPlain (h : IsPlain name) (hdot : name ≠ ".") (hdots : name ≠ "..") :
    ofClient name = name := by
  have hbase : ¬ (name = "" ∨ name = "." ∨ name = "..") := by
    simp [h.ne_empty, hdot, hdots]
  simp only [ofClient, baseChars_of_noSeparator h.noSeparator, String.ofList_toList, h.trimmed, if_neg hbase]

/-- So it passes the rule unless it is too long. -/
theorem check_ofClient_iff (raw : String) :
    check (ofClient raw) = .ok (ofClient raw) ↔ (ofClient raw).length ≤ maxLength := by
  rw [check_eq_self_iff]
  exact ⟨fun h => h.2, fun h => ⟨isPlain_ofClient raw, h⟩⟩

end Name

end FileDepot
