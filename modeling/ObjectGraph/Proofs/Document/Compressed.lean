-- SUMMARY: Of several compressed members only the first one is loaded.
import ObjectGraph.Proofs.Document.Sources
import ObjectGraph.Proofs.Gzip.Members

/-! # Compressed documents

Compressed data may be a series of members, and is then the text of their contents put
together. Loading reads the first member only, whether from bytes or from a file, so it
loses the text of all the others (`Document.ofBytes_series`): it gives the document of the
whole text if all members but the first one are empty.
-/

namespace ObjectGraph

/-! ## Texts put together -/

namespace Text

/-- After bytes that are read to their end, the reader goes on with what it has read. -/
theorem decodeOnto_append (done : List Char) (bytes tail : List UInt8) {cs : List Char}
    (h : decodeOnto done bytes = some cs) : decodeOnto done (bytes ++ tail) = decodeOnto cs.reverse tail := by
  fun_induction decodeOnto done bytes
  case case1 done =>
    cases h
    rw [List.reverse_reverse]
    rfl
  -- a character of one, two, three or four bytes
  case case2 ih | case5 ih | case9 ih | case13 ih =>
    rw [← ih h]
    clear ih h
    conv =>
      lhs
      rw [decodeOnto.eq_def]
    simp +zetaDelta only [List.cons_append, *, if_true, if_false, and_self]
  all_goals cases h

/-- What was read before stays in front. -/
theorem decodeOnto_append_done (done before : List Char) (bytes : List UInt8) :
    decodeOnto (done ++ before) bytes = (decodeOnto done bytes).map (before.reverse ++ ·) := by
  fun_induction decodeOnto done bytes
  case case1 done => rw [decodeOnto, Option.map_some, List.reverse_append]
  case case2 ih | case5 ih | case9 ih | case13 ih =>
    refine Eq.trans ?_ ih
    clear ih
    conv =>
      lhs
      rw [decodeOnto.eq_def]
    simp +zetaDelta only [List.cons_append, *, if_true, if_false, and_self]
  all_goals
    rw [decodeOnto.eq_def]
    simp +zetaDelta only [*, if_true, if_false, and_self, Option.map_none]

/-- Bytes after a text are read by themselves. -/
theorem decode?_append {bytes : List UInt8} {text : String} (h : decode? bytes = some text)
    (tail : List UInt8) : decode? (bytes ++ tail) = (decode? tail).map (text ++ ·) := by
  obtain ⟨cs, hcs, rfl⟩ := Option.map_eq_some_iff.1 h
  have htail : decodeOnto cs.reverse tail = (decodeOnto [] tail).map (cs ++ ·) := by
    have hdone := decodeOnto_append_done [] cs.reverse tail
    rwa [List.nil_append, List.reverse_reverse] at hdone
  rw [decode?, decodeOnto_append [] bytes tail hcs, htail, decode?, Option.map_map, Option.map_map]
  congr 1
  funext rest
  exact String.ofList_append

theorem length_le_of_decodeOnto {done cs : List Char} {bytes : List UInt8} (h : decodeOnto done bytes = some cs) :
    done.length ≤ cs.length ∧ (bytes ≠ [] → done.length < cs.length) := by
  fun_induction decodeOnto done bytes
  case case1 done =>
    cases h
    simp
  case case2 ih | case5 ih | case9 ih | case13 ih =>
    have hlength := (ih h).1
    rw [List.length_cons] at hlength
    exact ⟨Nat.le_of_succ_le hlength, fun _ => hlength⟩
  all_goals cases h

theorem decode?_eq_some_empty_iff {bytes : List UInt8} : decode? bytes = some "" ↔ bytes = [] := by
  constructor
  · intro h
    by_contra hne
    obtain ⟨cs, hcs, hempty⟩ := Option.map_eq_some_iff.1 h
    obtain rfl : cs = [] := by simpa using congrArg String.toList hempty
    exact Nat.lt_irrefl _ ((length_le_of_decodeOnto hcs).2 hne)
  · rintro rfl
    rfl

end Text

/-! ## Texts of series -/

namespace Source

variable {bytes first : List UInt8} {later : List (List UInt8)} {name text : String}

theorem decompressed?_series (h : Gzip.Series bytes (first :: later)) :
    decompressed? bytes = Text.decode? first := by
  rw [decompressed?, h.decompress?_eq, Option.bind_some]

theorem textOfBytes_series (h : Gzip.Series bytes (first :: later)) :
    textOfBytes bytes = (Text.decode? first).elim (.error .corruptedInput) .ok := by
  have hmagic := Gzip.magic_prefix_of_decompress? h.decompress?_eq
  rw [textOfBytes, if_pos (Gzip.isGzip_iff.2 hmagic), decompressed?_series h]
  cases Text.decode? first <;> rfl

theorem textOfFile_series (h : Gzip.Series bytes (first :: later)) (hname : HasExtension name "gz") :
    textOfFile name (some bytes) = (Text.decode? first).elim (.error .corruptedFile) .ok := by
  rw [textOfFile, if_pos (isGzipName_iff.2 hname)]
  simp only [decompressed?_series h]
  cases Text.decode? first <;> rfl

/-- The first member is the text of all members if the others are empty. -/
theorem decode?_first_iff (htext : Text.decode? (first :: later).flatten = some text) :
    Text.decode? first = some text ↔ ∀ content ∈ later, content = [] := by
  rw [← List.flatten_eq_nil_iff]
  rw [List.flatten_cons] at htext
  constructor
  · intro hfirst
    rw [Text.decode?_append hfirst] at htext
    obtain ⟨lost, hlost, hsame⟩ := Option.map_eq_some_iff.1 htext
    obtain rfl : lost = "" := String.append_eq_left_iff.1 hsame
    exact Text.decode?_eq_some_empty_iff.1 hlost
  · intro hlater
    rwa [hlater, List.append_nil] at htext

end Source

/-! ## Documents of series -/

namespace Document

variable {bytes first : List UInt8} {later : List (List UInt8)} {name text : String} {s : Supply}

theorem ofBytes_of_text (h : Source.textOfBytes bytes = .ok text) : ofBytes bytes s = ofText text s := by
  rw [ofBytes, h]
  rfl

theorem ofFile_of_text (h : Source.textOfFile name (some bytes) = .ok text) :
    ofFile name (some bytes) s = ofText text s := by
  rw [ofFile, h]
  rfl

/-- A series is loaded like any plain bytes with the text of its first member. -/
theorem ofBytes_series (h : Gzip.Series bytes (first :: later)) (hname : Source.HasExtension name "gz")
    (hfirst : Text.decode? first = some text) {plain : List UInt8} (hplain : Text.decode? plain = some text)
    (s : Supply) : ofBytes bytes s = ofBytes plain s ∧ ofFile name (some bytes) s = ofBytes plain s := by
  rw [ofBytes_of_text (Source.textOfBytes_eq_ok_iff.2 (.inr hplain))]
  constructor
  · apply ofBytes_of_text
    rw [Source.textOfBytes_series h, hfirst, Option.elim_some]
  · apply ofFile_of_text
    rw [Source.textOfFile_series h hname, hfirst, Option.elim_some]

/-- Of a series of members, as bytes or in a file with the extension of compressed ones, only
the first one is loaded, like its plain content. What is read is the text of all members
exactly if the later ones are empty, and then the series is loaded like that text; else the
text of the later ones is lost. -/
theorem loads_first_member (h : Gzip.Series bytes (first :: later)) (hname : Source.HasExtension name "gz")
    (s : Supply) :
    (∀ start, Text.decode? first = some start →
      ofBytes bytes s = ofBytes first s ∧ ofFile name (some bytes) s = ofBytes first s) ∧
    (Text.decode? first = none →
      ofBytes bytes s = .error .corruptedInput ∧ ofFile name (some bytes) s = .error .corruptedFile) ∧
    ∀ whole, Text.decode? (first :: later).flatten = some whole →
      (Source.textOfBytes bytes = .ok whole ↔ ∀ content ∈ later, content = []) ∧
      (Source.textOfFile name (some bytes) = .ok whole ↔ ∀ content ∈ later, content = []) ∧
      ((∀ content ∈ later, content = []) →
        ofBytes bytes s = ofBytes (first :: later).flatten s ∧
          ofFile name (some bytes) s = ofBytes (first :: later).flatten s) ∧
      ∀ start, Text.decode? first = some start →
        ∃ lost, Text.decode? later.flatten = some lost ∧ whole = start ++ lost := by
  have hbytes := Source.textOfBytes_series h
  have hfile := Source.textOfFile_series h hname
  refine ⟨fun start hstart => ofBytes_series h hname hstart hstart s, fun hnone => ?_, fun whole hwhole => ?_⟩
  · rw [hnone] at hbytes hfile
    rw [ofBytes, ofFile, hbytes, hfile]
    exact ⟨rfl, rfl⟩
  · have hiff := Source.decode?_first_iff hwhole
    refine ⟨?_, ?_, fun hlater => ofBytes_series h hname (hiff.2 hlater) hwhole s, fun start hstart => ?_⟩
    · rw [hbytes, ← hiff]
      cases Text.decode? first <;> simp
    · rw [hfile, ← hiff]
      cases Text.decode? first <;> simp
    · rw [List.flatten_cons, Text.decode?_append hstart] at hwhole
      obtain ⟨lost, hlost, heq⟩ := Option.map_eq_some_iff.1 hwhole
      exact ⟨lost, hlost, heq.symm⟩

/-- The line `- 1`, and the member that it is the content of. -/
def lineOne : List UInt8 := [0x2d, 0x20, 0x31, 0x0a]

def memberOne : List UInt8 :=
  [0x1f, 0x8b, 8, 0, 0, 0, 0, 0, 4, 3, 1, 4, 0, 0xfb, 0xff] ++ lineOne ++ [0xb3, 0x00, 0xd9, 0x6d, 4, 0, 0, 0]

/-- The line `- 2`, and the member that it is the content of. -/
def lineTwo : List UInt8 := [0x2d, 0x20, 0x32, 0x0a]

def memberTwo : List UInt8 :=
  [0x1f, 0x8b, 8, 0, 0, 0, 0, 0, 4, 3, 1, 4, 0, 0xfb, 0xff] ++ lineTwo ++ [0x70, 0x53, 0xf4, 0x46, 4, 0, 0, 0]

theorem series_lines : Gzip.Series (memberOne ++ memberTwo) [lineOne, lineTwo] := by
  have hone : Gzip.member? memberOne = some (lineOne, []) := by decide +kernel
  have htwo : Gzip.member? memberTwo = some (lineTwo, []) := by decide +kernel
  have hseries := Gzip.Series.cons hone (.cons htwo .nil)
  rwa [List.append_nil] at hseries

theorem loads_first_member_lines :
    (Gzip.Series (memberOne ++ memberTwo) [lineOne, lineTwo] ∧ Source.HasExtension "numbers.yaml.gz" "gz") ∧
    Text.decode? lineOne = some "- 1\n" ∧
    ofBytes (memberOne ++ memberTwo) .initial = ofBytes lineOne .initial ∧
    ofFile "numbers.yaml.gz" (some (memberOne ++ memberTwo)) .initial = ofBytes lineOne .initial := by
  have hname : Source.HasExtension "numbers.yaml.gz" "gz" := Source.isGzipName_iff.1 (by decide +kernel)
  have hline : Text.decode? lineOne = some "- 1\n" := by decide +kernel
  obtain ⟨hfirst, -⟩ := loads_first_member series_lines hname .initial
  exact ⟨⟨series_lines, hname⟩, hline, hfirst _ hline⟩

/-- The items of the first sequence, if a document was loaded. -/
def firstItems? (loaded : Except LoadError (Document × Supply)) : Option (List Value) :=
  loaded.toOption.bind fun (d, _) => d.graph.sequence? ⟨0⟩

/-- The number in the second member is not in the document, although the two lines are a text
that is loaded with both numbers. -/
theorem loses_second_member :
    let bytes := memberOne ++ memberTwo
    (Gzip.Series bytes [lineOne, lineTwo] ∧ Source.HasExtension "numbers.yaml.gz" "gz" ∧
      Text.decode? [lineOne, lineTwo].flatten = some "- 1\n- 2\n") ∧
    (firstItems? (ofText "- 1\n- 2\n" .initial) = some [.number (.integer 1), .number (.integer 2)] ∧
      firstItems? (ofBytes bytes .initial) = some [.number (.integer 1)]) ∧
    ofBytes bytes .initial ≠ ofText "- 1\n- 2\n" .initial ∧
    ofFile "numbers.yaml.gz" (some bytes) .initial ≠ ofText "- 1\n- 2\n" .initial := by
  intro bytes
  have hname : Source.HasExtension "numbers.yaml.gz" "gz" := Source.isGzipName_iff.1 (by decide +kernel)
  have hboth : firstItems? (ofText "- 1\n- 2\n" .initial) = some [.number (.integer 1), .number (.integer 2)] := by
    decide +kernel
  have hbytes : firstItems? (ofBytes bytes .initial) = some [.number (.integer 1)] := by decide +kernel
  have hfile : firstItems? (ofFile "numbers.yaml.gz" (some bytes) .initial) = some [.number (.integer 1)] := by
    decide +kernel
  refine ⟨⟨series_lines, hname, by decide +kernel⟩, ⟨hboth, hbytes⟩, fun heq => ?_, fun heq => ?_⟩
  · rw [heq, hboth] at hbytes
    cases hbytes
  · rw [heq, hboth] at hfile
    cases hfile

end Document

end ObjectGraph
