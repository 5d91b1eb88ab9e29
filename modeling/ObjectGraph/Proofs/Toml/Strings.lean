-- SUMMARY: TOML strings read back: each form gives the string that was written in it.
import ObjectGraph.Toml.Quoted
import Mathlib.Tactic.SplitIfs

/-! # Written strings

Each of the four forms is read back to the string that was written in it
(`Toml.readString_writeString`). What is at stake is where a string ends: no mark
within it may count as the one that closes it.
-/

namespace ObjectGraph

namespace Toml

/-! ## Runs of marks -/

theorem longestRun_mono (mark : Char) (s : List Char) {m n : Nat} (h : m ≤ n) :
    longestRun mark m s ≤ longestRun mark n s := by
  induction s generalizing m n with
  | nil => exact h
  | cons c rest ih =>
    unfold longestRun
    split
    · exact ih (Nat.succ_le_succ h)
    · omega

theorem le_longestRun (mark : Char) (n : Nat) (s : List Char) : n ≤ longestRun mark n s := by
  induction s generalizing n with
  | nil => exact Nat.le_refl n
  | cons c rest ih =>
    unfold longestRun
    split
    · exact Nat.le_of_succ_le (ih (n + 1))
    · omega

theorem longestRun_tail (mark c : Char) (n : Nat) (s : List Char) :
    longestRun mark 0 s ≤ longestRun mark n (c :: s) := by
  rw [longestRun]
  split
  · exact longestRun_mono mark s (Nat.zero_le (n + 1))
  · exact Nat.le_max_right n _

theorem not_mem_of_longestRun {mark : Char} {s : List Char} (h : longestRun mark 0 s = 0) :
    mark ∉ s := by
  induction s with
  | nil => exact List.not_mem_nil
  | cons c rest ih =>
    unfold longestRun at h
    split at h
    · have hone : 1 ≤ longestRun mark (0 + 1) rest := le_longestRun mark 1 rest
      omega
    · rename_i hc
      have hrest : mark ∉ rest := ih (by omega)
      simp [Ne.symm hc, hrest]

/-- A text with no run of three marks, and three marks after it: where three marks follow
each other, one or none of them belongs to the text. -/
theorem text_of_marks {mark : Char} {s rest : List Char} (hrun : longestRun mark 1 s ≤ 2)
    (hmarks : [mark, mark] <+: s ++ mark :: mark :: mark :: rest) : s = [] ∨ s = [mark] := by
  match s, hrun, hmarks with
  | [], _, _ => exact .inl rfl
  | [c], _, hmarks =>
    obtain rfl : mark = c := by simpa using hmarks
    exact .inr rfl
  | c :: d :: s, hrun, hmarks =>
    exfalso
    obtain ⟨rfl, rfl⟩ : mark = c ∧ mark = d := by simpa using hmarks
    simp only [longestRun, ↓reduceIte] at hrun
    have hthree : 3 ≤ longestRun mark (1 + 1 + 1) s := le_longestRun mark 3 s
    omega

/-! ## Characters that stand for themselves -/

theorem ne_return_of_isText {c : Char} (hc : isText c = true ∨ c = '\n') : c ≠ '\r' := by
  rintro rfl
  exact absurd hc (by decide)

theorem readBasic_plain {c : Char} (hc : isText c = true) (hslash : c ≠ '\\') (hquote : c ≠ '"')
    (rest : List Char) : readBasic (c :: rest) = push c (readBasic rest) := by
  rw [readBasic.eq_def]
  split <;> simp_all

theorem readLiteral_plain {c : Char} (hc : isText c = true) (hmark : c ≠ '\'') (rest : List Char) :
    readLiteral (c :: rest) = push c (readLiteral rest) := by
  rw [readLiteral.eq_def]
  split <;> simp_all

/-- Quotation marks among the characters, unless three of them follow each other. -/
theorem readLongBasic_plain {c : Char} {rest : List Char} (hc : isText c = true ∨ c = '\n')
    (hslash : c ≠ '\\') (hmarks : ¬ ['"', '"', '"'] <+: c :: rest) :
    readLongBasic false (c :: rest) = push c (readLongBasic false rest) := by
  have hreturn := ne_return_of_isText hc
  -- the last form that the reader knows is that of any other character
  have hplain : ((isText c && c != '\\') || c = '\n') = true := by simpa [hslash] using hc
  rw [readLongBasic.eq_def]
  split
  case h_9 =>
    rename_i heq
    obtain ⟨rfl, rfl⟩ := List.cons.inj heq
    exact if_pos hplain
  all_goals simp_all

theorem readLongLiteral_plain {c : Char} {rest : List Char} (hc : isText c = true ∨ c = '\n')
    (hmarks : ¬ ['\'', '\'', '\''] <+: c :: rest) :
    readLongLiteral (c :: rest) = push c (readLongLiteral rest) := by
  have hreturn := ne_return_of_isText hc
  have hplain : (isText c || c = '\n') = true := by simpa using hc
  rw [readLongLiteral.eq_def]
  split
  case h_6 =>
    rename_i heq
    obtain ⟨rfl, rfl⟩ := List.cons.inj heq
    exact if_pos hplain
  all_goals simp_all

/-! ## Escapes -/

/-- Control characters have four digits that denote them. -/
theorem hexUpper_of_isControl {c : Char} (hc : isControl c = true) :
    ∃ x y z w, (Text.hexUpper 4 c.toNat).toList = [x, y, z, w] ∧ Text.hexChar? [x, y, z, w] = some c := by
  have hall : ∀ n ∈ List.range 0x20 ++ [0x7f], (Text.hexUpper 4 n).toList.length = 4 ∧
      Text.hexChar? (Text.hexUpper 4 n).toList = some (Char.ofNat n) := by
    decide +kernel
  have hmem : c.toNat ∈ List.range 0x20 ++ [0x7f] := by
    simp only [isControl, Bool.or_eq_true, Bool.and_eq_true, decide_eq_true_eq] at hc
    simp only [List.mem_append, List.mem_range, List.mem_singleton]
    exact hc.imp (fun h => h.1.1) id
  obtain ⟨hlength, hchar⟩ := hall _ hmem
  rw [Char.ofNat_toNat] at hchar
  match htext : (Text.hexUpper 4 c.toNat).toList, hlength, hchar with
  | [x, y, z, w], _, hchar => exact ⟨x, y, z, w, rfl, hchar⟩

/-- The reader of text between quotation marks, one or three of them. -/
def readEscaped (isLong : Bool) : Reader (List Char) :=
  if isLong then readLongBasic false else readBasic

theorem readEscaped_plain {isLong : Bool} {c : Char} (hc : isText c = true ∨ isLong = true ∧ c = '\n')
    (hslash : c ≠ '\\') (hquote : c ≠ '"') (rest : List Char) :
    readEscaped isLong (c :: rest) = push c (readEscaped isLong rest) := by
  cases isLong with
  | false =>
    have htext : isText c = true := hc.resolve_right fun h => Bool.false_ne_true h.1
    exact readBasic_plain htext hslash hquote rest
  | true =>
    have hmarks : ¬ ['"', '"', '"'] <+: c :: rest := fun h => hquote (List.cons_prefix_cons.1 h).1.symm
    exact readLongBasic_plain (hc.imp_right And.right) hslash hmarks

/-- Each character comes back from the text that stands for it. -/
theorem readEscaped_escapeChar (isLong : Bool) {c : Char} (hquote : c ≠ '"') (rest : List Char) :
    readEscaped isLong (escapeChar isLong c ++ rest) = push c (readEscaped isLong rest) := by
  unfold escapeChar
  split_ifs with hb ht hn hlong hf hr hslash hcontrol
  · subst hb; cases isLong <;> rfl
  · subst ht; cases isLong <;> rfl
  · subst hn; exact readEscaped_plain (.inr ⟨hlong, rfl⟩) (by decide) hquote rest
  · subst hn; cases isLong <;> rfl
  · subst hf; cases isLong <;> rfl
  · subst hr; cases isLong <;> rfl
  · subst hslash; cases isLong <;> rfl
  · obtain ⟨x, y, z, w, htext, hchar⟩ := hexUpper_of_isControl hcontrol
    have hread : readEscaped isLong ('\\' :: 'u' :: [x, y, z, w] ++ rest) =
        (Text.hexChar? [x, y, z, w]).bind fun c => push c (readEscaped isLong rest) := by
      cases isLong <;> rfl
    rw [htext, hread, hchar]
    rfl
  · exact readEscaped_plain (.inl (by simp [isText, hcontrol, hn])) hslash hquote rest

theorem readEscaped_quote (isLong : Bool) (rest : List Char) :
    readEscaped isLong ('\\' :: '"' :: rest) = push '"' (readEscaped isLong rest) := by
  cases isLong <;> rfl

/-! ## Text between single marks -/

theorem readBasic_escape (s rest : List Char) :
    readBasic (escape false 0 s ++ '"' :: rest) = some (s, rest) := by
  change readEscaped false _ = _
  induction s with
  | nil => rfl
  | cons c s ih =>
    by_cases hc : c = '"'
    · subst hc
      change readEscaped false ('\\' :: '"' :: (escape false 0 s ++ '"' :: rest)) = _
      rw [readEscaped_quote, ih]
      rfl
    · rw [escape, if_neg hc, List.append_assoc, readEscaped_escapeChar false hc, ih]
      rfl

theorem readLiteral_text {s : List Char} (htext : ∀ c ∈ s, isText c = true) (hmark : '\'' ∉ s)
    (rest : List Char) : readLiteral (s ++ '\'' :: rest) = some (s, rest) := by
  induction s with
  | nil => rfl
  | cons c s ih =>
    obtain ⟨hc, hs⟩ := List.forall_mem_cons.1 htext
    rw [List.mem_cons, not_or] at hmark
    rw [List.cons_append, readLiteral_plain hc (Ne.symm hmark.1), ih hs hmark.2]
    rfl

/-! ## Text between triple marks -/

theorem escapeChar_head (isLong : Bool) {c : Char} (hquote : c ≠ '"') :
    ∃ e text, escapeChar isLong c = e :: text ∧ e ≠ '"' ∧ e ≠ '\r' ∧ (e = '\n' → c = '\n') := by
  unfold escapeChar
  split_ifs
  all_goals exact ⟨_, _, rfl, by simp_all⟩

/-- Only two raw quotation marks may stand in front of a character of a long string, and
none in other strings. -/
theorem escape_head (isLong : Bool) (quotes : Nat) {c : Char}
    (h : isLong = false ∨ c ≠ '"' ∨ 2 ≤ quotes) (s : List Char) :
    ∃ e text, escape isLong quotes (c :: s) = e :: text ∧ e ≠ '"' := by
  rw [escape]
  split_ifs with hc hraw
  · exact absurd h (by simp [hc, hraw.1, hraw.2])
  · exact ⟨_, _, rfl, by decide⟩
  · obtain ⟨e, text, htext, he, -⟩ := escapeChar_head isLong hc
    exact ⟨e, text ++ escape isLong 0 s, by rw [htext, List.cons_append], he⟩

/-- After a quotation mark that stands for itself, three more can only follow where the
string ends. -/
theorem string_of_marks {quotes : Nat} (hquotes : 0 < quotes) {s rest : List Char}
    (hmarks : ['"', '"'] <+: escape true quotes s ++ '"' :: '"' :: '"' :: rest) :
    s = [] ∨ s = ['"'] ∧ quotes < 2 := by
  match s with
  | [] => exact .inl rfl
  | c :: s =>
    by_cases h : c ≠ '"' ∨ 2 ≤ quotes
    · obtain ⟨e, text, htext, he⟩ := escape_head true quotes (.inr h) s
      rw [htext] at hmarks
      exact absurd (List.cons_prefix_cons.1 hmarks).1.symm he
    · obtain ⟨rfl, hlow⟩ : c = '"' ∧ quotes < 2 := by simpa using h
      refine .inr ⟨?_, hlow⟩
      match s with
      | [] => rfl
      | d :: s =>
        obtain ⟨e, text, htext, he⟩ :=
          escape_head true (quotes + 1) (c := d) (.inr (.inr (Nat.succ_le_succ hquotes))) s
        rw [escape, if_pos rfl, if_pos ⟨rfl, hlow⟩, htext] at hmarks
        exact absurd (List.cons_prefix_cons.1 (List.cons_prefix_cons.1 hmarks).2).1.symm he

/-- The marks that close the string are the first three in a row, or come after one or two of
its own. -/
theorem readLongBasic_escape {quotes : Nat} (hquotes : quotes ≤ 2) (s rest : List Char) :
    readLongBasic false (escape true quotes s ++ '"' :: '"' :: '"' :: '\n' :: rest) =
      some (s, '\n' :: rest) := by
  induction s generalizing quotes with
  | nil => rfl
  | cons c s ih =>
    rw [escape]
    split_ifs with hc hraw
    · subst hc
      -- a mark that stands for itself, with the end of the string after it or not
      by_cases hmarks : ['"', '"'] <+: escape true (quotes + 1) s ++ '"' :: '"' :: '"' :: '\n' :: rest
      · obtain rfl | ⟨rfl, hlow⟩ := string_of_marks (Nat.succ_pos quotes) hmarks
        · rfl
        · rw [escape, if_pos rfl, if_pos ⟨rfl, hlow⟩]
          rfl
      · have hthree : ¬ ['"', '"', '"'] <+:
            '"' :: (escape true (quotes + 1) s ++ '"' :: '"' :: '"' :: '\n' :: rest) :=
          fun h => hmarks (List.cons_prefix_cons.1 h).2
        rw [List.cons_append, readLongBasic_plain (.inl rfl) (by decide) hthree, ih hraw.2]
        rfl
    · subst hc
      change readEscaped true ('\\' :: '"' :: (escape true 0 s ++ _)) = _
      rw [readEscaped_quote]
      exact congrArg (push '"') (ih (Nat.zero_le 2))
    · change readEscaped true _ = _
      rw [List.append_assoc, readEscaped_escapeChar true hc]
      exact congrArg (push c) (ih (Nat.zero_le 2))

theorem readLongLiteral_text {s : List Char} (htext : ∀ c ∈ s, isText c = true ∨ c = '\n')
    (hrun : longestRun '\'' 0 s ≤ 2) (rest : List Char) :
    readLongLiteral (s ++ '\'' :: '\'' :: '\'' :: '\n' :: rest) = some (s, '\n' :: rest) := by
  induction s with
  | nil => rfl
  | cons c s ih =>
    obtain ⟨hc, hs⟩ := List.forall_mem_cons.1 htext
    have hrest : longestRun '\'' 0 s ≤ 2 := Nat.le_trans (longestRun_tail '\'' c 0 s) hrun
    by_cases hmarks : ['\'', '\'', '\''] <+: c :: (s ++ '\'' :: '\'' :: '\'' :: '\n' :: rest)
    · obtain ⟨hmark, hafter⟩ := List.cons_prefix_cons.1 hmarks
      subst hmark
      rw [longestRun, if_pos rfl] at hrun
      obtain rfl | rfl := text_of_marks hrun hafter
      · rfl
      · rfl
    · rw [List.cons_append, readLongLiteral_plain hc hmarks, ih hs hrest]
      rfl

/-! ## The form of a string -/

/-- What the form of a string has found out about it. -/
theorem formOf_spec (s : List Char) :
    match formOf s with
    | .basic => True
    | .literal => (∀ c ∈ s, isText c = true) ∧ '\'' ∉ s
    | .longBasic => True
    | .longLiteral => (∀ c ∈ s, isText c = true ∨ c = '\n') ∧ longestRun '\'' 0 s ≤ 2 := by
  have htext : s.any isControl = false → ∀ c ∈ s, isText c = true ∨ c = '\n' := by
    intro hcontrol c hc
    rw [List.any_eq_false] at hcontrol
    by_cases hline : c = '\n'
    · exact .inr hline
    · exact .inl (by simp [isText, hcontrol c hc, hline])
  unfold formOf
  extract_lets isLong hasControl hasSlash quotes apostrophes
  split_ifs with hbasic hliteral hlongBasic hlongLiteral hlong
  · trivial
  · obtain ⟨⟨hcontrol, hrun⟩, hline⟩ : (hasControl = false ∧ apostrophes = 0) ∧ '\n' ∉ s := by
      simpa [isLong] using hliteral
    refine ⟨fun c hc => (htext hcontrol c hc).resolve_right ?_, not_mem_of_longestRun hrun⟩
    rintro rfl
    exact hline hc
  · trivial
  · obtain ⟨hcontrol, hrun⟩ : hasControl = false ∧ apostrophes ≤ 2 := by simpa using hlongLiteral
    exact ⟨htext hcontrol, hrun⟩
  · trivial
  · trivial

/-! ## The start of a string -/

theorem dropLineEnd_of_head {c : Char} (hline : c ≠ '\n') (hreturn : c ≠ '\r') (rest : List Char) :
    dropLineEnd (c :: rest) = c :: rest := by
  unfold dropLineEnd
  split <;> simp_all

theorem dropLineEnd_escape {s : List Char} (hline : '\n' ∉ s) (rest : List Char) :
    dropLineEnd (escape true 0 s ++ '"' :: rest) = escape true 0 s ++ '"' :: rest := by
  match s with
  | [] => rfl
  | c :: s =>
    by_cases hc : c = '"'
    · subst hc
      rfl
    · obtain ⟨e, text, htext, -, hreturn, hnext⟩ := escapeChar_head true hc
      have he : e ≠ '\n' := fun h => hline (hnext h ▸ List.mem_cons_self)
      rw [escape, if_neg hc, htext]
      exact dropLineEnd_of_head he hreturn _

theorem readString_basic {c : Char} (hquote : c ≠ '"') (rest : List Char) :
    readString ('"' :: c :: rest) = readBasic (c :: rest) := by
  unfold readString
  split <;> simp_all

theorem readString_literal {c : Char} (hmark : c ≠ '\'') (rest : List Char) :
    readString ('\'' :: c :: rest) = readLiteral (c :: rest) := by
  unfold readString
  split <;> simp_all

/-! ## Forms -/

theorem readString_writeAs_basic (s rest : List Char) :
    readString (writeAs .basic s ++ '\n' :: rest) = some (s, '\n' :: rest) := by
  have hread := readBasic_escape s ('\n' :: rest)
  simp only [writeAs, List.append_assoc, List.cons_append, List.nil_append]
  match s with
  | [] => rfl
  | c :: s =>
    obtain ⟨e, text, htext, he⟩ := escape_head false 0 (c := c) (.inl rfl) s
    rw [htext, List.cons_append] at hread ⊢
    rw [readString_basic he, hread]

theorem readString_writeAs_literal {s : List Char} (htext : ∀ c ∈ s, isText c = true)
    (hmark : '\'' ∉ s) (rest : List Char) :
    readString (writeAs .literal s ++ '\n' :: rest) = some (s, '\n' :: rest) := by
  have hread := readLiteral_text htext hmark ('\n' :: rest)
  simp only [writeAs, List.append_assoc, List.cons_append, List.nil_append]
  match s with
  | [] => rfl
  | c :: s =>
    have hc : c ≠ '\'' := fun h => hmark (h ▸ List.mem_cons_self)
    rw [List.cons_append] at hread ⊢
    rw [readString_literal hc, hread]

theorem readString_writeAs_longBasic (s rest : List Char) :
    readString (writeAs .longBasic s ++ '\n' :: rest) = some (s, '\n' :: rest) := by
  have hread := readLongBasic_escape (Nat.zero_le 2) s rest
  simp only [writeAs, List.append_assoc, List.cons_append, List.nil_append, List.contains_iff_mem]
  change readLongBasic false (dropLineEnd _) = _
  split_ifs with hline
  · exact hread
  · rw [List.nil_append, dropLineEnd_escape hline, hread]

theorem readString_writeAs_longLiteral {s : List Char}
    (htext : ∀ c ∈ s, isText c = true ∨ c = '\n') (hrun : longestRun '\'' 0 s ≤ 2) (rest : List Char) :
    readString (writeAs .longLiteral s ++ '\n' :: rest) = some (s, '\n' :: rest) := by
  have hread := readLongLiteral_text htext hrun rest
  simp only [writeAs, List.append_assoc, List.cons_append, List.nil_append, List.contains_iff_mem]
  change readLongLiteral (dropLineEnd _) = _
  split_ifs with hline
  · exact hread
  · have hstart : dropLineEnd (s ++ '\'' :: '\'' :: '\'' :: '\n' :: rest) =
        s ++ '\'' :: '\'' :: '\'' :: '\n' :: rest := by
      match s with
      | [] => rfl
      | c :: s =>
        have hc : c ≠ '\n' := fun h => hline (h ▸ List.mem_cons_self)
        exact dropLineEnd_of_head hc (ne_return_of_isText (htext c List.mem_cons_self)) _
    rw [List.nil_append, hstart, hread]

/-- A string is read back from its text, with the end of the line after it. -/
theorem readString_writeString (s rest : List Char) :
    readString (writeString s ++ '\n' :: rest) = some (s, '\n' :: rest) := by
  have hspec := formOf_spec s
  unfold writeString
  match hform : formOf s, hspec with
  | .basic, _ => exact readString_writeAs_basic s rest
  | .literal, ⟨htext, hmark⟩ => exact readString_writeAs_literal htext hmark rest
  | .longBasic, _ => exact readString_writeAs_longBasic s rest
  | .longLiteral, ⟨htext, hrun⟩ => exact readString_writeAs_longLiteral htext hrun rest

end Toml

end ObjectGraph
