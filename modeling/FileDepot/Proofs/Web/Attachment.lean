import FileDepot.Proofs.Sniff.Rules
import FileDepot.Proofs.Text.Percent
import FileDepot.Proofs.Web.Identity
import FileDepot.Proofs.Web.Names

/-!
# Names on their way to clients

What a client reads in the header that a download comes with. Whatever the name of a file is, the header can be
sent, says nothing but the name, and has the whole of it. The other headers of downloads can be sent as well, as
the types of files are told from their contents.
-/

namespace FileDepot

open BlobPath Database Depot

/-! ## Header values -/

namespace HeaderValue

/-- Whether no byte of a text is a control of ASCII. -/
def IsClean (text : String) : Prop := ∀ b ∈ Bytes.ofText text, 0x20 ≤ b ∧ b ≠ 0x7F

/-- Whether a character is no control of ASCII. -/
def IsCleanChar (c : Char) : Prop := 32 ≤ c.toNat ∧ c.toNat ≠ 127

instance (c : Char) : Decidable (IsCleanChar c) := inferInstanceAs (Decidable (_ ∧ _))

variable {text : String}

theorem isClean_of_chars (h : ∀ c ∈ text.toList, IsCleanChar c) : IsClean text := by
  intro b hb
  rw [Bytes.ofText_eq, List.mem_flatMap] at hb
  obtain ⟨c, hc, hb⟩ := hb
  rw [UInt8.le_iff_toNat_le, ne_eq, ← UInt8.toNat_inj]
  by_cases hascii : c.toNat < 128
  · rw [Bytes.utf8EncodeChar_of_lt hascii, List.mem_singleton] at hb
    have hvalue : b.toNat = c.toNat := by
      rw [hb, Nat.toUInt8, UInt8.toNat_ofNat', Nat.mod_eq_of_lt (by omega)]
    rw [hvalue]
    exact h c hc
  · have hbig := Bytes.le_of_mem_utf8EncodeChar (Nat.le_of_not_lt hascii) hb
    have hspace : (0x20 : UInt8).toNat = 32 := rfl
    have hdel : (0x7F : UInt8).toNat = 127 := rfl
    omega

theorem IsClean.isLegal (h : IsClean text) : isLegal text = true := by
  rw [HeaderValue.isLegal, List.all_eq_true]
  intro b hb
  simp [isLegalByte, h b hb]

/-- A number can be a header value. -/
theorem isLegal_toString (n : Int) : isLegal (toString n) = true := by
  refine IsClean.isLegal (isClean_of_chars fun c hc => ?_)
  rcases isNumeral_toString n c hc with hdigit | rfl
  · have hrange : 48 ≤ c.toNat ∧ c.toNat ≤ 57 := by
      simpa [Char.isDigit, UInt32.le_iff_toNat_le] using hdigit
    simp only [IsCleanChar]
    omega
  · decide

end HeaderValue

open HeaderValue

/-- A type that is told from a content can be a header value. -/
theorem Sniff.IsDetected.isLegal {mimeType : String} (h : Sniff.IsDetected mimeType) :
    HeaderValue.isLegal mimeType = true := by
  obtain ⟨content, rfl⟩ := h
  have hall : ∀ t ∈ Sniff.rules.map Sniff.Rule.mimeType, HeaderValue.isLegal t = true := by decide +kernel
  exact hall _ (Sniff.decides_classify (content.take Sniff.windowLength)).mem

/-! ## The name in the header -/

namespace Attachment

variable {value name quoted quoted' : String} {extended? extended?' : Option String}

/-- What follows the name between quotes. -/
def ending (extended? : Option String) : String := extended?.elim "" ("; filename*=UTF-8''" ++ ·)

/-- What is to be read in the header of a download: a name between quotes and, after it, an encoded one or
    none. -/
structure Reads (value quoted : String) (extended? : Option String) : Prop where
  value_eq : value = "attachment; filename=\"" ++ (quoted ++ ("\"" ++ ending extended?))
  noQuote : '"' ∉ quoted.toList
  noBackslash : '\\' ∉ quoted.toList
  encoded : ∀ extended ∈ extended?, Percent.IsEncoded extended.toList

/-- The name under which a client saves a download: the encoded one if there is one. -/
def savedName? (quoted : String) : Option String → Option String
  | none => some quoted
  | some extended => (Percent.decode (Bytes.ofText extended)).text?

theorem ending_none : ending none = "" := Option.elim_none _ _

theorem ending_some (extended : String) : ending (some extended) = "; filename*=UTF-8''" ++ extended :=
  Option.elim_some _ _ _

theorem ending_inj (h : ending extended? = ending extended?') : extended? = extended?' := by
  have hne : ∀ extended : String, "; filename*=UTF-8''" ++ extended ≠ "" := by
    intro extended heq
    have hlength := congrArg String.length heq
    rw [String.length_append] at hlength
    have hsome : "; filename*=UTF-8''".length = 19 := rfl
    have hnone : "".length = 0 := rfl
    omega
  cases extended? with
  | none =>
    cases extended?' with
    | none => rfl
    | some extended =>
      rw [ending_none, ending_some] at h
      exact absurd h.symm (hne extended)
  | some extended =>
    rw [ending_some] at h
    cases extended?' with
    | none =>
      rw [ending_none] at h
      exact absurd h (hne extended)
    | some extended' =>
      rw [ending_some] at h
      rw [(String.append_right_inj _).mp h]

/-- There is only one way to read a header. -/
theorem Reads.unique (h : Reads value quoted extended?) (h' : Reads value quoted' extended?') :
    quoted' = quoted ∧ extended?' = extended? := by
  have hcut : ∀ {quoted extended?}, Reads value quoted extended? →
      RequestHead.cutAt? '"' (quoted ++ ("\"" ++ ending extended?)) = some (quoted, ending extended?) := by
    intro quoted extended? h
    refine RequestHead.cutAt?_eq_some_iff.mpr ⟨h.noQuote, ?_⟩
    rw [String.toList_append, String.toList_append]
    rfl
  have hrest := (String.append_right_inj _).mp (h.value_eq.symm.trans h'.value_eq)
  have hcut' := hcut h'
  rw [← hrest, hcut h] at hcut'
  obtain ⟨hquoted, hending⟩ := Prod.mk.inj (Option.some.inj hcut')
  exact ⟨hquoted.symm, ending_inj hending.symm⟩

theorem isPlain_iff : isPlain name = true ↔ ∀ c ∈ name.toList, c.toNat < 128 ∧ isHarmful c = false := by
  simp [isPlain]

theorem isHarmful_eq_false_iff {c : Char} :
    isHarmful c = false ↔ Text.isControl c = false ∧ c ≠ '"' ∧ c ≠ '\\' := by
  simp [isHarmful, and_assoc]

theorem isCleanChar_of_isControl {c : Char} (h : Text.isControl c = false) : IsCleanChar c := by
  simp only [Text.isControl, Bool.or_eq_false_iff, Bool.and_eq_false_iff, decide_eq_false_iff_not] at h
  simp only [IsCleanChar]
  omega

/-- What is sent instead of a name that cannot stand between quotes can stand there. -/
theorem isHarmful_softened {c : Char} (h : c ∈ (softened name).toList) : isHarmful c = false := by
  rw [softened, String.toList_ofList, List.mem_map] at h
  obtain ⟨d, hd, rfl⟩ := h
  have hcontrol : Text.isControl d = false := by simpa using (List.mem_filter.mp hd).2
  split
  · decide
  · next hsign =>
    simp only [Bool.or_eq_true, beq_iff_eq, not_or] at hsign
    exact isHarmful_eq_false_iff.mpr ⟨hcontrol, hsign⟩

/-- What is harmless stands between the quotes as it is. -/
theorem reads_of_harmless (hvalue : value = "attachment; filename=\"" ++ (quoted ++ ("\"" ++ ending extended?)))
    (hquoted : ∀ c ∈ quoted.toList, isHarmful c = false)
    (hencoded : ∀ extended ∈ extended?, Percent.IsEncoded extended.toList) :
    Reads value quoted extended? ∧ ∀ c ∈ value.toList, IsCleanChar c := by
  refine ⟨⟨hvalue, fun hc => ?_, fun hc => ?_, hencoded⟩, fun c hc => ?_⟩
  · exact (isHarmful_eq_false_iff.mp (hquoted _ hc)).2.1 rfl
  · exact (isHarmful_eq_false_iff.mp (hquoted _ hc)).2.2 rfl
  · have hbefore : ∀ c ∈ "attachment; filename=\"".toList, IsCleanChar c :=
      List.all_iff_forall_prop.mp (by decide)
    have hquote : ∀ c ∈ "\"".toList, IsCleanChar c := List.all_iff_forall_prop.mp (by decide)
    have hmark : ∀ c ∈ "; filename*=UTF-8''".toList, IsCleanChar c := List.all_iff_forall_prop.mp (by decide)
    rw [hvalue, String.toList_append, String.toList_append, String.toList_append, List.mem_append,
      List.mem_append, List.mem_append] at hc
    rcases hc with hc | hc | hc | hc
    · exact hbefore c hc
    · exact isCleanChar_of_isControl (isHarmful_eq_false_iff.mp (hquoted c hc)).1
    · exact hquote c hc
    · cases extended? with
      | none =>
        rw [ending_none, String.toList_empty] at hc
        exact (List.not_mem_nil hc).elim
      | some extended =>
        rw [ending_some, String.toList_append, List.mem_append] at hc
        rcases hc with hc | hc
        · exact hmark c hc
        · obtain ⟨hlow, hhigh⟩ := (hencoded extended rfl).printable c hc
          exact ⟨hlow, Nat.ne_of_lt hhigh⟩

/-- The header of a download can be read, and a client reads the name of the file in it. -/
theorem reads_disposition (name : String) : ∃ quoted extended?,
    (Reads (disposition name) quoted extended? ∧ ∀ c ∈ (disposition name).toList, IsCleanChar c) ∧
      savedName? quoted extended? = some name := by
  by_cases hplain : isPlain name = true
  · have hvalue : disposition name = "attachment; filename=\"" ++ (name ++ ("\"" ++ ending none)) := by
      rw [disposition, if_pos hplain, ending_none, String.append_empty, String.append_assoc]
    have hreads := reads_of_harmless hvalue (fun c hc => (isPlain_iff.mp hplain c hc).2)
      fun extended h => by cases h
    exact ⟨name, none, hreads, rfl⟩
  · have hvalue : disposition name =
        "attachment; filename=\"" ++ (softened name ++ ("\"" ++ ending (some (Percent.encode name)))) := by
      have hmark : "\"; filename*=UTF-8''" = "\"" ++ "; filename*=UTF-8''" := by decide
      rw [disposition, if_neg hplain, ending_some, hmark]
      simp only [String.append_assoc]
    have hreads := reads_of_harmless hvalue (fun c hc => isHarmful_softened hc) (by
      rintro extended ⟨⟩
      exact Percent.isEncoded_encode name)
    refine ⟨softened name, some (Percent.encode name), hreads, ?_⟩
    rw [savedName?, Percent.decode_encode, Bytes.text?_ofText]

end Attachment

/-! ## The types of files -/

theorem Service.Reached.isSniffed {s : Service} (h : s.Reached) : s.depot.IsSniffed :=
  h.carried Upload.carries_isSniffed fun _ _ _ hdetected => hdetected

/-! ## Downloads -/

namespace Exchange

theorem isLegal_fileHeaders {f : File} (h : Sniff.IsDetected f.mimeType) :
    ∀ header ∈ fileHeaders f, isLegal header.2 = true := by
  obtain ⟨quoted, extended?, ⟨-, hclean⟩, -⟩ := Attachment.reads_disposition f.name
  simp only [fileHeaders, List.forall_mem_cons]
  exact ⟨h.isLegal, (isClean_of_chars hclean).isLegal, isLegal_toString f.size, by decide +kernel,
    fun header hh => (List.not_mem_nil hh).elim⟩

/-- A finished file can be downloaded. -/
theorem download_of_mem {d : Depot} (hp : d.Proper) (hs : d.IsSniffed) {f : File} (hf : f ∈ d.db.fileRows)
    (hc : f.state = .complete) : ∃ content, d.blobs.get? (ofIds f.ownerId f.id) = some (.blob content) ∧
      download d f.ownerId f.id = ⟨200, fileHeaders f, .content content⟩ := by
  obtain ⟨hid, content, hg⟩ := hp.contentful f hf hc
  refine ⟨content, hg, ?_⟩
  rw [download, openDownload_of_mem hp.orderly hf hc hid hg]
  exact if_pos (List.all_eq_true.mpr (isLegal_fileHeaders (hs f hf)))

end Exchange

namespace Service

/-- Names reach clients whole. Whatever the name of a file is, the header that a download of it comes with has no
    controls and can be sent; it can be read in one way only, which gives the name back; and so files with
    different names have different headers. And whatever has happened to a service, every finished file can be
    downloaded with these headers. -/
theorem downloads_carry_their_names :
    (∀ name, IsClean (Attachment.disposition name) ∧ isLegal (Attachment.disposition name) = true ∧
        ∃ quoted extended?, Attachment.Reads (Attachment.disposition name) quoted extended? ∧
          Attachment.savedName? quoted extended? = some name ∧
          ∀ quoted' extended?', Attachment.Reads (Attachment.disposition name) quoted' extended?' →
            quoted' = quoted ∧ extended?' = extended?) ∧
      (∀ name name', Attachment.disposition name = Attachment.disposition name' → name = name') ∧
      ∀ s : Service, s.Reached → ∀ f ∈ s.depot.db.fileRows, f.state = .complete →
        ∃ content, s.depot.blobs.get? (ofIds f.ownerId f.id) = some (.blob content) ∧
          Exchange.download s.depot f.ownerId f.id =
            ⟨200, [("content-type", f.mimeType), ("content-disposition", Attachment.disposition f.name),
              ("content-length", toString f.size), ("cache-control", "no-cache")], .content content⟩ := by
  refine ⟨fun name => ?_, fun name name' heq => ?_, fun s h f hf hc =>
    Exchange.download_of_mem h.proper h.isSniffed hf hc⟩
  · obtain ⟨quoted, extended?, ⟨hreads, hclean⟩, hsaved⟩ := Attachment.reads_disposition name
    exact ⟨isClean_of_chars hclean, (isClean_of_chars hclean).isLegal, quoted, extended?, hreads, hsaved,
      fun _ _ h => hreads.unique h⟩
  · obtain ⟨quoted, extended?, ⟨hreads, -⟩, hsaved⟩ := Attachment.reads_disposition name
    obtain ⟨quoted', extended?', ⟨hreads', -⟩, hsaved'⟩ := Attachment.reads_disposition name'
    rw [heq] at hreads
    obtain ⟨rfl, rfl⟩ := hreads'.unique hreads
    exact Option.some.inj (hsaved.symm.trans hsaved')

/-- A file whose name is not plain is uploaded, and downloaded with the encoded name. -/
theorem downloads_carry_their_names_of_cafe :
    (named (Bytes.ofText "café")).Reached ∧
      ∃ f ∈ (named (Bytes.ofText "café")).depot.db.fileRows, f.state = .complete ∧
        ∃ content, Exchange.download (named (Bytes.ofText "café")).depot f.ownerId f.id =
          ⟨200, [("content-type", "text/plain; charset=utf-8"),
            ("content-disposition", "attachment; filename=\"café\"; filename*=UTF-8''caf%C3%A9"),
            ("content-length", "2"), ("cache-control", "no-cache")], .content content⟩ := by
  have hreached := reached_named (Bytes.ofText "café")
  have hrows : (named (Bytes.ofText "café")).depot.db.fileRows =
      [⟨"f", "café", "", "text/plain; charset=utf-8", 2, .complete, "", 1, "2026"⟩] := by decide +kernel
  have hmem := hrows ▸ List.mem_singleton_self _
  obtain ⟨content, -, hdownload⟩ := downloads_carry_their_names.2.2 _ hreached _ hmem rfl
  have hdisposition : Attachment.disposition "café" =
      "attachment; filename=\"café\"; filename*=UTF-8''caf%C3%A9" := by decide +kernel
  have hsize : toString (2 : Int) = "2" := by decide +kernel
  rw [hdisposition, hsize] at hdownload
  exact ⟨hreached, _, hmem, rfl, content, hdownload⟩

end Service

end FileDepot
