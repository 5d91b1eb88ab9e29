-- SUMMARY: A file and its bytes give one document, unless the name of the file says something else than the bytes.
import ObjectGraph.Source
import ObjectGraph.Proofs.Document.Renumbering
import Mathlib.Data.List.TakeWhile

/-! # Sources

A file is taken for compressed by its name, bytes by how they start. No text starts
like compressed bytes (`Text.not_magic_prefix_of_decode?`), and what does not start so
is not decompressed (`Gzip.magic_prefix_of_decompress?`). So a file that can be loaded
has a name that agrees with its bytes, and then both ways read one text
(`Source.textOfFile_eq_ok_iff`) and give one document, but for the numbers of symbols
and callables (`Document.ofFile_iff_ofBytes`).
-/

namespace ObjectGraph

/-! ## Compressed bytes -/

namespace Gzip

variable {bytes rest content : List UInt8}

theorem isGzip_iff : isGzip bytes = true ↔ magic <+: bytes := List.isPrefixOf_iff_prefix

theorem prefix_of_split? {count : Nat} {taken : List UInt8} (h : split? count bytes = some (taken, rest)) :
    taken <+: bytes := by
  unfold split? at h
  split at h
  · cases h
    exact List.take_prefix ..
  · cases h

theorem magic_prefix_of_skipHeader? (h : skipHeader? bytes = some rest) : magic <+: bytes := by
  unfold skipHeader? at h
  obtain ⟨⟨fixed, _⟩, hfixed, h⟩ := Option.bind_eq_some_iff.1 h
  obtain ⟨flags, -, h⟩ := Option.bind_eq_some_iff.1 h
  extract_lets at h
  split at h
  · cases h
  · rename_i hvalid
    have hmagic : isGzip fixed = true := by
      simp only [Bool.or_eq_true, not_or, Bool.not_eq_eq_eq_not, Bool.not_true, Bool.not_eq_false] at hvalid
      exact hvalid.1.1.1.1
    exact (isGzip_iff.1 hmagic).trans (prefix_of_split? hfixed)

theorem magic_prefix_of_decompress? (h : decompress? bytes = some content) : magic <+: bytes := by
  obtain ⟨_, hmember, -⟩ := Option.map_eq_some_iff.1 h
  obtain ⟨rest, hheader, -⟩ := Option.bind_eq_some_iff.1 hmember
  exact magic_prefix_of_skipHeader? hheader

end Gzip

/-! ## Texts -/

namespace Text

theorem decodeOnto_ascii (done : List Char) {a : UInt8} (rest : List UInt8) (h : a.toNat < 0x80) :
    decodeOnto done (a :: rest) = decodeOnto (Char.ofNat a.toNat :: done) rest := by
  rw [decodeOnto.eq_def]
  simp only [if_pos h]

/-- No character starts with a continuation byte. -/
theorem decodeOnto_continuation (done : List Char) {a : UInt8} (rest : List UInt8) (h : a.toNat / 0x40 = 2) :
    decodeOnto done (a :: rest) = none := by
  have hlow : ¬ a.toNat < 0x80 := by omega
  have htwo : ¬ (0xc0 ≤ a.toNat ∧ a.toNat < 0xe0) := by omega
  have hthree : ¬ (0xe0 ≤ a.toNat ∧ a.toNat < 0xf0) := by omega
  have hfour : ¬ (0xf0 ≤ a.toNat ∧ a.toNat < 0xf8) := by omega
  rw [decodeOnto.eq_def]
  simp only [if_neg hlow, if_neg htwo, if_neg hthree, if_neg hfour]
  repeat' split <;> try rfl

theorem not_magic_prefix_of_decode? {bytes : List UInt8} {text : String} (h : decode? bytes = some text) :
    ¬ Gzip.magic <+: bytes := by
  rintro ⟨rest, rfl⟩
  have hnone : decodeOnto [] (Gzip.magic ++ rest) = none := by
    change decodeOnto [] (0x1f :: 0x8b :: rest) = none
    rw [decodeOnto_ascii _ _ (by decide), decodeOnto_continuation _ _ (by decide)]
  rw [decode?, hnone] at h
  cases h

end Text

/-! ## Names -/

namespace Source

/-- The last part of the name ends in a point and the extension, and does not start there. -/
def HasExtension (name ext : String) : Prop :=
  '.' ∉ ext.toList ∧ ∃ stem, stem ≠ [] ∧ baseName name.toList = stem ++ '.' :: ext.toList

theorem takeWhile_point {before : List Char} (h : '.' ∉ before) (rest : List Char) :
    (before ++ '.' :: rest).takeWhile (· != '.') = before := by
  have hall : ∀ c ∈ before, (c != '.') = true := by
    intro c hc
    exact bne_iff_ne.2 fun heq => h (heq ▸ hc)
  rw [List.takeWhile_append_of_pos hall, List.takeWhile_cons_of_neg (by decide), List.append_nil]

/-- What follows the last point, if that is not the first character. -/
theorem afterPoint_eq_iff {base tail : List Char} :
    (base.reverse.takeWhile (· != '.')).reverse = tail ∧ tail.length + 1 < base.length ↔
      '.' ∉ tail ∧ ∃ stem, stem ≠ [] ∧ base = stem ++ '.' :: tail := by
  constructor
  · rintro ⟨rfl, hlength⟩
    by_cases hpoint : '.' ∈ base.reverse
    · obtain ⟨before, rest, hsplit, hbefore⟩ := List.eq_append_cons_of_mem hpoint
      rw [hsplit, takeWhile_point hbefore] at hlength ⊢
      have hbase : base = rest.reverse ++ '.' :: before.reverse := by
        rw [← List.reverse_reverse base, hsplit, List.reverse_append, List.reverse_cons, List.append_assoc,
          List.singleton_append]
      refine ⟨fun h => hbefore (List.mem_reverse.1 h), rest.reverse, fun hnil => ?_, hbase⟩
      rw [hbase, hnil, List.nil_append, List.length_cons] at hlength
      exact absurd hlength (Nat.lt_irrefl _)
    · have hall : base.reverse.takeWhile (· != '.') = base.reverse :=
        List.takeWhile_eq_self_iff.2 fun c hc => bne_iff_ne.2 fun heq => hpoint (heq ▸ hc)
      rw [hall, List.reverse_reverse] at hlength
      omega
  · rintro ⟨hpoint, stem, hstem, rfl⟩
    have hlength := List.length_pos_iff.2 hstem
    constructor
    · rw [List.reverse_append, List.reverse_cons, List.append_assoc, List.singleton_append,
        takeWhile_point (fun h => hpoint (List.mem_reverse.1 h)), List.reverse_reverse]
    · rw [List.length_append, List.length_cons]
      omega

/-- The extension of a name, unless it is empty. -/
theorem extension?_eq_some_iff {name ext : String} (hext : ext ≠ "") :
    extension? name = some ext ↔ HasExtension name ext := by
  rw [HasExtension, ← afterPoint_eq_iff]
  simp only [extension?]
  generalize baseName name.toList = base
  have hof (tail : List Char) : String.ofList tail = ext ↔ tail = ext.toList := by
    rw [← String.toList_inj, String.toList_ofList]
  split
  · rename_i hnone
    refine iff_of_false nofun ?_
    rintro ⟨htail, hlength⟩
    rcases hnone with rfl | hshort
    · exact hext (String.toList_eq_nil_iff.1 htail.symm)
    · rw [htail] at hshort
      omega
  · rename_i hsome
    obtain ⟨-, hlong⟩ := not_or.1 hsome
    rw [Option.some_inj, hof]
    refine ⟨fun htail => ⟨htail, ?_⟩, fun h => h.1⟩
    rw [htail] at hlong
    omega

theorem isGzipName_iff {name : String} : isGzipName name = true ↔ HasExtension name "gz" := by
  rw [isGzipName, beq_iff_eq]
  exact extension?_eq_some_iff (by decide)

/-! ## Texts of files and of bytes -/

variable {name : String} {bytes : List UInt8} {text : String}

theorem magic_prefix_of_decompressed? (h : decompressed? bytes = some text) : Gzip.magic <+: bytes := by
  obtain ⟨content, hcontent, -⟩ := Option.bind_eq_some_iff.1 h
  exact Gzip.magic_prefix_of_decompress? hcontent

/-- Bytes can be read as a text if they can be read in one of the two ways. -/
theorem textOfBytes_eq_ok_iff : textOfBytes bytes = .ok text ↔
    decompressed? bytes = some text ∨ Text.decode? bytes = some text := by
  unfold textOfBytes
  split
  · rename_i hgzip
    have hplain : Text.decode? bytes ≠ some text := fun h =>
      Text.not_magic_prefix_of_decode? h (Gzip.isGzip_iff.1 hgzip)
    cases decompressed? bytes <;> simp [hplain]
  · rename_i hgzip
    have hpacked : decompressed? bytes ≠ some text := fun h =>
      hgzip (Gzip.isGzip_iff.2 (magic_prefix_of_decompressed? h))
    cases Text.decode? bytes <;> simp [hpacked]

/-- A file is read in the way that its name says. -/
theorem textOfFile_cases : textOfFile name (some bytes) = .ok text ↔
    HasExtension name "gz" ∧ decompressed? bytes = some text ∨
      ¬ HasExtension name "gz" ∧ Text.decode? bytes = some text := by
  rw [← isGzipName_iff]
  unfold textOfFile
  split
  · rename_i hname
    dsimp only
    cases decompressed? bytes <;> simp [hname]
  · rename_i hname
    rw [Option.bind_some]
    cases Text.decode? bytes <;> simp [hname]

/-- A file can be read as a text if its bytes can, and if its name agrees with them. -/
theorem textOfFile_eq_ok_iff : textOfFile name (some bytes) = .ok text ↔
    textOfBytes bytes = .ok text ∧ (HasExtension name "gz" ↔ Gzip.magic <+: bytes) := by
  rw [textOfFile_cases, textOfBytes_eq_ok_iff]
  constructor
  · rintro (⟨hname, htext⟩ | ⟨hname, htext⟩)
    · exact ⟨.inl htext, iff_of_true hname (magic_prefix_of_decompressed? htext)⟩
    · exact ⟨.inr htext, iff_of_false hname (Text.not_magic_prefix_of_decode? htext)⟩
  · rintro ⟨htext | htext, hagrees⟩
    · exact .inl ⟨hagrees.2 (magic_prefix_of_decompressed? htext), htext⟩
    · exact .inr ⟨fun hname => Text.not_magic_prefix_of_decode? htext (hagrees.1 hname), htext⟩

end Source

/-! ## Documents -/

namespace Document

variable {text : String} {s t : Supply} {d : Document}

/-- A text gives a document whatever numbers are the next, and always the same one. -/
theorem ofText_sameButNumbers (h : ofText text s = .ok (d, t)) (s' : Supply) :
    ∃ d' t', ofText text s' = .ok (d', t') ∧ d.SameButNumbers d' := by
  simp only [ofText, parse?] at h ⊢
  cases hparse : Yaml.parse? text with
  | none =>
    rw [hparse] at h
    cases h
  | some v =>
    rw [hparse] at h
    obtain rfl : (ofYaml v s).1 = d := congrArg Prod.fst (Except.ok.inj h)
    exact ⟨_, _, rfl, sameButNumbers_ofYaml v s s'⟩

theorem ofBytes_eq_ok_iff {bytes : List UInt8} : ofBytes bytes s = .ok (d, t) ↔
    ∃ text, Source.textOfBytes bytes = .ok text ∧ ofText text s = .ok (d, t) := by
  unfold ofBytes
  cases Source.textOfBytes bytes with
  | error e => exact iff_of_false nofun nofun
  | ok text => simp [bind, Except.bind]

theorem ofFile_eq_ok_iff {name : String} {bytes : Option (List UInt8)} : ofFile name bytes s = .ok (d, t) ↔
    ∃ text, Source.textOfFile name bytes = .ok text ∧ ofText text s = .ok (d, t) := by
  unfold ofFile
  cases Source.textOfFile name bytes with
  | error e => exact iff_of_false nofun nofun
  | ok text => simp [bind, Except.bind]

theorem SameButNumbers.symm {d d' : Document} (h : d.SameButNumbers d') : d'.SameButNumbers d := by
  obtain ⟨counted, s, s', hd, hd'⟩ := h
  exact ⟨counted, s', s, hd', hd⟩

/-- A file gives the document of its bytes, or fails where its name does not agree with them. -/
theorem ofFile_iff_ofBytes (name : String) (bytes : List UInt8) (s s' : Supply) :
    (∀ d t, ofFile name (some bytes) s = .ok (d, t) →
      ∃ d' t', ofBytes bytes s' = .ok (d', t') ∧ d.SameButNumbers d') ∧
    ∀ d' t', ofBytes bytes s' = .ok (d', t') →
      ((∃ d t, ofFile name (some bytes) s = .ok (d, t) ∧ d.SameButNumbers d') ↔
        (Source.HasExtension name "gz" ↔ [0x1f, 0x8b] <+: bytes)) := by
  constructor
  · intro d t hfile
    obtain ⟨text, htext, hdocument⟩ := ofFile_eq_ok_iff.1 hfile
    obtain ⟨d', t', hdocument', hsame⟩ := ofText_sameButNumbers hdocument s'
    exact ⟨d', t', ofBytes_eq_ok_iff.2 ⟨text, (Source.textOfFile_eq_ok_iff.1 htext).1, hdocument'⟩, hsame⟩
  · intro d' t' hbytes
    constructor
    · rintro ⟨d, t, hfile, -⟩
      obtain ⟨text, htext, -⟩ := ofFile_eq_ok_iff.1 hfile
      exact (Source.textOfFile_eq_ok_iff.1 htext).2
    · intro hagrees
      obtain ⟨text, htext, hdocument'⟩ := ofBytes_eq_ok_iff.1 hbytes
      obtain ⟨d, t, hdocument, hsame⟩ := ofText_sameButNumbers hdocument' s
      exact ⟨d, t, ofFile_eq_ok_iff.2 ⟨text, Source.textOfFile_eq_ok_iff.2 ⟨htext, hagrees⟩, hdocument⟩, hsame.symm⟩

/-- A plain text is loaded under one name, and not under that of a compressed file. -/
theorem ofFile_iff_ofBytes_plain :
    let loaded : Document := ⟨.empty, .string "a"⟩
    ofBytes [0x61] .initial = .ok (loaded, .initial) ∧
      (∃ d t, ofFile "a.yaml" (some [0x61]) .initial = .ok (d, t) ∧ d.SameButNumbers loaded) ∧
      ¬ ∃ d t, ofFile "a.yaml.gz" (some [0x61]) .initial = .ok (d, t) ∧ d.SameButNumbers loaded := by
  intro loaded
  have hbytes : ofBytes [0x61] .initial = .ok (loaded, .initial) := rfl
  have hplain : ¬ [0x1f, 0x8b] <+: ([0x61] : List UInt8) := by decide
  have hname : ¬ Source.HasExtension "a.yaml" "gz" := fun h =>
    absurd (Source.isGzipName_iff.2 h) (by decide +kernel)
  have hgzip : Source.HasExtension "a.yaml.gz" "gz" := Source.isGzipName_iff.1 (by decide +kernel)
  refine ⟨hbytes, ?_, fun hfile => ?_⟩
  · exact ((ofFile_iff_ofBytes "a.yaml" [0x61] .initial .initial).2 _ _ hbytes).2 (iff_of_false hname hplain)
  · exact hplain ((((ofFile_iff_ofBytes "a.yaml.gz" [0x61] .initial .initial).2 _ _ hbytes).1 hfile).1 hgzip)

end Document

end ObjectGraph
