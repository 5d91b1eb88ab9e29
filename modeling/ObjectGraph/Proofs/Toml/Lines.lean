-- SUMMARY: Lines of assignments read back: the table of a document has the keys and values that were written.
import ObjectGraph.Proofs.Toml.Strings
import ObjectGraph.Toml.Document

/-! # Written lines

A document of lines, each of which assigns a value to a bare key, makes a table of
these keys and values (`Toml.parse?_lines`). A value is a string, a boolean or a
number of digits; a reader of values has to see that digits are no date, no time
and no fraction.
-/

namespace ObjectGraph

namespace Toml

/-! ## Digits of a number -/

theorem isDigit_of_mem_digits {n : Nat} {c : Char} (hc : c ∈ Nat.toDigits 10 n) : c.isDigit = true :=
  Nat.isDigit_of_mem_toDigits (by decide) (by decide) hc

theorem ne_of_isDigit {c d : Char} (hc : c.isDigit = true) (hd : d.isDigit = false) : c ≠ d := by
  rintro rfl
  exact absurd hc (by simp [hd])

theorem digitValue?_of_isDigit {c : Char} (hc : c.isDigit = true) :
    digitValue? 10 c = some (c.toNat - '0'.toNat) := by
  have hlow : c.toNat - '0'.toNat < 10 := by
    have hle : c.toNat ≤ 57 := by
      simp only [Char.isDigit, Bool.and_eq_true, decide_eq_true_eq] at hc
      exact hc.2
    change c.toNat - 48 < 10
    omega
  simp only [digitValue?, hc, if_true, Option.filter, hlow, decide_true]

theorem readDigits?_toDigits (n : Nat) : readDigits? 10 (Nat.toDigits 10 n) = some n := by
  have hfold : ∀ (ds : List Char) (m : Nat), (∀ c ∈ ds, c.isDigit = true) →
      ds.foldlM (fun m c => (digitValue? 10 c).map (m * 10 + ·)) m = some (Nat.ofDigitChars 10 ds m) := by
    intro ds
    induction ds with
    | nil => exact fun m _ => rfl
    | cons c ds ih =>
      intro m hds
      obtain ⟨hc, hds⟩ := List.forall_mem_cons.1 hds
      rw [List.foldlM_cons, digitValue?_of_isDigit hc]
      simp only [Option.map_some, Option.bind_eq_bind, Option.bind_some]
      rw [ih _ hds, Nat.ofDigitChars_cons, Nat.mul_comm]
  rw [readDigits?, if_neg (by simp [Nat.toDigits_ne_nil]), hfold _ 0 fun _ => isDigit_of_mem_digits,
    Nat.ofDigitChars_ten_toDigits]

/-- The digits of a number other than zero start with another digit. -/
theorem toDigits_head {n : Nat} (hn : 0 < n) : ∃ c ds, Nat.toDigits 10 n = c :: ds ∧ c ≠ '0' := by
  induction n using Nat.strongRecOn with
  | ind n ih =>
    by_cases hlow : n < 10
    · have hall : ∀ m < 10, 0 < m → Nat.digitChar m ≠ '0' := by decide
      exact ⟨_, [], Nat.toDigits_of_lt_base hlow, hall n hlow hn⟩
    · obtain ⟨c, ds, hds, hc⟩ := ih (n / 10) (by omega) (by omega)
      refine ⟨c, ds ++ [(n % 10).digitChar], ?_, hc⟩
      rw [Nat.toDigits_of_base_le (by decide) (by omega), hds, List.cons_append]

theorem digitTail_digits {ds : List Char} (hds : ∀ c ∈ ds, c.isDigit = true) (rest : List Char) :
    digitTail Char.isDigit (ds ++ '\n' :: rest) = (ds, '\n' :: rest) := by
  induction ds with
  | nil => rfl
  | cons c ds ih =>
    obtain ⟨hc, hds⟩ := List.forall_mem_cons.1 hds
    have hne : c ≠ '_' := ne_of_isDigit hc rfl
    rw [List.cons_append, digitTail.eq_def]
    split <;> simp_all

theorem readWhole_toDigits (n : Nat) (rest : List Char) :
    readWhole (Nat.toDigits 10 n ++ '\n' :: rest) = some (Nat.toDigits 10 n, '\n' :: rest) := by
  obtain rfl | hn := Nat.eq_zero_or_pos n
  · rfl
  · have hdigits : ∀ c ∈ Nat.toDigits 10 n, c.isDigit = true := fun _ => isDigit_of_mem_digits
    obtain ⟨c, ds, hds, hc⟩ := toDigits_head hn
    rw [hds] at hdigits ⊢
    obtain ⟨hdigit, hdigits⟩ := List.forall_mem_cons.1 hdigits
    have hwhole : readWhole (c :: (ds ++ '\n' :: rest)) = readRun Char.isDigit (c :: (ds ++ '\n' :: rest)) := by
      unfold readWhole
      split <;> simp_all
    rw [List.cons_append, hwhole, readRun, if_pos hdigit, digitTail_digits hdigits]

/-! ## Digits are no date and no time -/

theorem readField_eq_some {width low high n : Nat} {cs after : List Char}
    (h : readField width low high cs = some (n, after)) :
    (cs.take width).all Char.isDigit = true ∧ after = cs.drop width := by
  simp only [readField] at h
  split at h
  · simp at h
  · rename_i hdigits
    simp only [Bool.or_eq_true, not_or, Bool.not_eq_true, Bool.not_eq_false'] at hdigits
    simp only [Option.bind_eq_bind, Option.bind_eq_some_iff, Option.ite_none_right_eq_some,
      Option.some.injEq, Prod.mk.injEq] at h
    obtain ⟨m, -, -, -, hafter⟩ := h
    exact ⟨hdigits.2, hafter.symm⟩

/-- Where digits reach up to the end of the line, what follows the first of them is a digit
or the end of the line, and no mark. -/
theorem readMark_of_readField {mark : Char} {ds rest after : List Char} {width low high n : Nat}
    (hmark : mark.isDigit = false) (hline : mark ≠ '\n') (hds : ∀ c ∈ ds, c.isDigit = true)
    (h : readField width low high (ds ++ '\n' :: rest) = some (n, after)) :
    readMark mark after = none := by
  obtain ⟨hdigits, rfl⟩ := readField_eq_some h
  have hwidth : width ≤ ds.length := by
    refine Nat.le_of_not_lt fun hwidth => ?_
    have hmem : '\n' ∈ (ds ++ '\n' :: rest).take width := by
      rw [List.take_append, List.mem_append]
      refine .inr ?_
      obtain ⟨k, hk⟩ : ∃ k, width - ds.length = k + 1 := ⟨width - ds.length - 1, by omega⟩
      rw [hk]
      exact List.mem_cons_self
    exact absurd (List.all_eq_true.1 hdigits _ hmem) (by decide)
  rw [List.drop_append_of_le_length hwidth]
  match hdrop : ds.drop width with
  | [] => exact if_neg (Ne.symm hline)
  | c :: cs =>
    have hc : c.isDigit = true := hds c (List.mem_of_mem_drop (hdrop ▸ List.mem_cons_self))
    exact if_neg (ne_of_isDigit hc hmark)

theorem readMoment_digits {ds : List Char} (hds : ∀ c ∈ ds, c.isDigit = true) (rest : List Char) :
    readMoment (ds ++ '\n' :: rest) = none := by
  have hdate : skipDate (ds ++ '\n' :: rest) = none := by
    unfold skipDate
    match hyear : readField 4 0 9999 (ds ++ '\n' :: rest) with
    | none => rfl
    | some (year, after) =>
      have hmark : readMark '-' after = none := readMark_of_readField (by decide) (by decide) hds hyear
      simp only [Option.bind_eq_bind, Option.bind_some, hmark, Option.bind_none]
  have htime : skipTime (ds ++ '\n' :: rest) = none := by
    unfold skipTime
    match hhour : readField 2 0 23 (ds ++ '\n' :: rest) with
    | none => rfl
    | some (hour, after) =>
      have hmark : readMark ':' after = none := readMark_of_readField (by decide) (by decide) hds hhour
      simp only [Option.bind_eq_bind, Option.bind_some, hmark, Option.bind_none]
  simp only [readMoment, hdate, htime, Option.bind_eq_bind, Option.bind_none]

/-! ## Numbers -/

theorem readSign_digit {c : Char} (hc : c.isDigit = true) (rest : List Char) :
    readSign (c :: rest) = ([], c :: rest) := by
  unfold readSign
  split <;> simp_all

theorem readDecimal_whole {c : Char} {ds rest : List Char} (hc : c.isDigit = true)
    (hwhole : readWhole (c :: ds ++ '\n' :: rest) = some (c :: ds, '\n' :: rest)) :
    readDecimal (c :: ds ++ '\n' :: rest) = none := by
  have hfraction : readPart (· = '.') false ('\n' :: rest) = some ([], '\n' :: rest) := rfl
  have hexponent : readPart (fun c => c = 'e' || c = 'E') true ('\n' :: rest) = some ([], '\n' :: rest) := rfl
  rw [List.cons_append] at hwhole ⊢
  simp only [readDecimal, readSign_digit hc, hwhole, Option.bind_eq_bind, Option.bind_some, hfraction,
    hexponent, List.isEmpty_nil, Bool.and_self, if_true, Option.bind_none]

theorem readSpecial_digit {c : Char} (hc : c.isDigit = true) (rest : List Char) :
    readSpecial (c :: rest) = none := by
  simp only [readSpecial, readSign_digit hc]
  split <;> simp_all

theorem readInteger_whole {c : Char} {ds rest : List Char} {n : Nat} (hds : ∀ d ∈ c :: ds, d.isDigit = true)
    (hwhole : readWhole (c :: ds ++ '\n' :: rest) = some (c :: ds, '\n' :: rest))
    (hvalue : readDigits? 10 (c :: ds) = some n) (hn : (n : Int) ≤ Int64.maxValue.toInt) :
    readInteger (c :: ds ++ '\n' :: rest) = some (.integer n, '\n' :: rest) := by
  obtain ⟨hc, hds⟩ := List.forall_mem_cons.1 hds
  have hsecond : ∀ d after, ds ++ '\n' :: rest = d :: after → d.isDigit = true ∨ d = '\n' := by
    intro d after h
    match ds, h with
    | [], h => exact .inr (List.cons.inj h).1.symm
    | e :: ds, h => exact .inl (hds d ((List.cons.inj h).1 ▸ List.mem_cons_self))
  rw [List.cons_append] at hwhole ⊢
  unfold readInteger
  split
  case h_4 => simp [readSign_digit hc, hwhole, hvalue, integer?, hn]
  all_goals
    rename_i heq
    exact absurd (hsecond _ _ (List.cons.inj heq).2) (by decide)

theorem readNumber_toDigits {n : Nat} (hn : (n : Int) ≤ Int64.maxValue.toInt) (rest : List Char) :
    readNumber (Nat.toDigits 10 n ++ '\n' :: rest) = some (.integer n, '\n' :: rest) := by
  have hdigits : ∀ c ∈ Nat.toDigits 10 n, c.isDigit = true := fun _ => isDigit_of_mem_digits
  have hmoment := readMoment_digits hdigits rest
  have hwhole := readWhole_toDigits n rest
  have hvalue := readDigits?_toDigits n
  match hds : Nat.toDigits 10 n with
  | [] => exact absurd hds Nat.toDigits_ne_nil
  | c :: ds =>
    rw [hds] at hdigits hmoment hwhole hvalue
    have hc : c.isDigit = true := hdigits c List.mem_cons_self
    simp only [readNumber, hmoment, readDecimal_whole hc hwhole, Option.orElse_none]
    rw [List.cons_append, readSpecial_digit hc, Option.orElse_none, ← List.cons_append]
    exact readInteger_whole hdigits hwhole hvalue hn

/-! ## Values -/

/-- A value that holds no others is read without regard to depth. -/
theorem readValue_scalar {c : Char} (harray : c ≠ '[') (htable : c ≠ '\x7b') (depth : Nat)
    (rest : List Char) : readValue depth (c :: rest) = readScalar (c :: rest) := by
  match depth with
  | 0 => rfl
  | depth + 1 =>
    unfold readValue
    split <;> simp_all

/-- A text that stands for a value between the mark of an assignment and the end of the line. -/
def Spells (text : List Char) (v : Toml) : Prop :=
  (∃ c cs, text = c :: cs ∧ isSpace c = false) ∧
    ∀ rest, readValue maxDepth (text ++ '\n' :: rest) = some (v, '\n' :: rest)

theorem spells_string (s : List Char) : Spells (writeString s) (.string (String.ofList s)) := by
  obtain ⟨c, cs, htext, hc⟩ : ∃ c cs, writeString s = c :: cs ∧ (c = '"' ∨ c = '\'') := by
    unfold writeString writeAs
    match formOf s with
    | .basic => exact ⟨_, _, rfl, .inl rfl⟩
    | .literal => exact ⟨_, _, rfl, .inr rfl⟩
    | .longBasic => exact ⟨_, _, rfl, .inl rfl⟩
    | .longLiteral => exact ⟨_, _, rfl, .inr rfl⟩
  refine ⟨⟨c, cs, htext, by obtain rfl | rfl := hc <;> rfl⟩, fun rest => ?_⟩
  have hread := readString_writeString s rest
  rw [htext, List.cons_append] at hread ⊢
  obtain rfl | rfl := hc
  · rw [readValue_scalar (by decide) (by decide), readScalar, hread]
    rfl
  · rw [readValue_scalar (by decide) (by decide), readScalar, hread]
    rfl

theorem readScalar_digit {c : Char} (hc : c.isDigit = true) (rest : List Char) :
    readScalar (c :: rest) = readNumber (c :: rest) := by
  unfold readScalar
  split <;> simp_all

theorem spells_integer {n : Nat} (hn : (n : Int) ≤ Int64.maxValue.toInt) :
    Spells (Nat.toDigits 10 n) (.integer n) := by
  have hread := readNumber_toDigits hn
  match hds : Nat.toDigits 10 n with
  | [] => exact absurd hds Nat.toDigits_ne_nil
  | c :: ds =>
    have hc : c.isDigit = true := isDigit_of_mem_digits (hds ▸ List.mem_cons_self)
    have hne (d : Char) : d.isDigit = false → c ≠ d := ne_of_isDigit hc
    rw [hds] at hread
    refine ⟨⟨c, ds, rfl, by simp [isSpace, hne]⟩, fun rest => ?_⟩
    rw [List.cons_append, readValue_scalar (hne _ rfl) (hne _ rfl), readScalar_digit hc]
    exact hread rest

theorem spells_boolean (b : Bool) : Spells (if b then "true" else "false").toList (.boolean b) := by
  cases b with
  | false => exact ⟨⟨'f', _, rfl, rfl⟩, fun rest => rfl⟩
  | true => exact ⟨⟨'t', _, rfl, rfl⟩, fun rest => rfl⟩

/-! ## Keys -/

/-- Keys that stand in a line without marks. -/
def IsBare (key : String) : Prop := key ≠ "" ∧ ∀ c ∈ key.toList, isKeyChar c = true

theorem IsBare.exists_head {key : String} (hkey : IsBare key) :
    ∃ c cs, key.toList = c :: cs ∧ ∀ d, isKeyChar d = false → c ≠ d := by
  match hcs : key.toList with
  | [] => exact absurd (String.toList_eq_nil_iff.1 hcs) hkey.1
  | c :: cs =>
    refine ⟨c, cs, rfl, ?_⟩
    rintro d hd rfl
    exact absurd (hkey.2 c (hcs ▸ List.mem_cons_self)) (by simp [hd])

theorem dropWhile_isSpace_bare {c : Char} (hc : ∀ d, isKeyChar d = false → c ≠ d) (rest : List Char) :
    (c :: rest).dropWhile isSpace = c :: rest := by
  rw [List.dropWhile_cons_of_neg]
  simp [isSpace, hc ' ' (by decide), hc '\t' (by decide)]

theorem readKey_bare {key : String} (hkey : IsBare key) (rest : List Char) :
    readKey (key.toList ++ ' ' :: rest) = some (key, ' ' :: rest) := by
  have htake : (key.toList ++ ' ' :: rest).takeWhile isKeyChar = key.toList := by
    rw [List.takeWhile_append_of_pos hkey.2, List.takeWhile_cons_of_neg (by decide), List.append_nil]
  have hdrop : (key.toList ++ ' ' :: rest).dropWhile isKeyChar = ' ' :: rest := by
    rw [List.dropWhile_append_of_pos hkey.2, List.dropWhile_cons_of_neg (by decide)]
  obtain ⟨c, cs, hcs, hc⟩ := hkey.exists_head
  rw [readKey.eq_def]
  split
  case h_3 =>
    simp only [htake, hdrop, String.ofList_toList]
    rw [if_neg (by simp [hcs])]
  all_goals
    rename_i heq
    rw [hcs] at heq
    exact absurd (List.cons.inj heq).1 (hc _ (by decide))

theorem readPath_bare {key : String} (hkey : IsBare key) (rest : List Char) :
    readPath (key.toList ++ ' ' :: '=' :: rest) = some ([key], '=' :: rest) := by
  have hstart : (key.toList ++ ' ' :: '=' :: rest).dropWhile isSpace = key.toList ++ ' ' :: '=' :: rest := by
    obtain ⟨c, cs, hcs, hc⟩ := hkey.exists_head
    rw [hcs]
    exact dropWhile_isSpace_bare hc _
  have hmark : (' ' :: '=' :: rest).dropWhile isSpace = '=' :: rest := by
    rw [List.dropWhile_cons_of_pos rfl, List.dropWhile_cons_of_neg (by decide)]
  simp [readPath, readKeys, hstart, readKey_bare hkey, hmark, maxDepth]

/-! ## Lines -/

/-- A key, and a value with its text. -/
structure Line where
  key : String
  text : List Char
  value : Toml

namespace Line

def write (l : Line) : List Char := l.key.toList ++ " = ".toList ++ l.text ++ ['\n']

structure Legible (l : Line) : Prop where
  isBare : IsBare l.key
  spells : Spells l.text l.value

end Line

theorem readAssignment_line {l : Line} (hl : l.Legible) (rest : List Char) :
    readAssignment (readValue maxDepth) (l.write ++ rest) = some (([l.key], l.value), '\n' :: rest) := by
  obtain ⟨⟨c, cs, htext, hc⟩, hread⟩ := hl.spells
  have hspace : (' ' :: (l.text ++ '\n' :: rest)).dropWhile isSpace = l.text ++ '\n' :: rest := by
    rw [List.dropWhile_cons_of_pos rfl, htext, List.cons_append, List.dropWhile_cons_of_neg (by simp [hc])]
  have hwrite : l.write ++ rest = l.key.toList ++ ' ' :: '=' :: ' ' :: (l.text ++ '\n' :: rest) := by
    simp [Line.write]
  rw [hwrite]
  simp [readAssignment, readPath_bare hl.isBare, readMark, hspace, hread]

theorem readStatements_line {l : Line} (hl : l.Legible) (fuel : Nat) (rest : List Char) :
    readStatements (fuel + 1) (l.write ++ rest) =
      (readStatements fuel rest).map (.assignment [l.key] l.value :: ·) := by
  have hread := readAssignment_line hl rest
  have hend : readLineEnd ('\n' :: rest) = some rest := rfl
  obtain ⟨c, cs, hcs, hc⟩ := hl.isBare.exists_head
  obtain ⟨more, hwrite⟩ : ∃ more, l.write ++ rest = c :: more := by simp [Line.write, hcs]
  rw [hwrite] at hread ⊢
  rw [readStatements, dropWhile_isSpace_bare hc]
  split
  case h_6 =>
    simp only [hread, hend, Option.bind_eq_bind, Option.bind_some]
    cases readStatements fuel rest <;> rfl
  all_goals
    rename_i heq
    first
    | exact absurd heq (List.cons_ne_nil c more)
    | exact absurd (List.cons.inj heq).1 (hc _ (by decide))

theorem readStatements_lines {ls : List Line} (hls : ∀ l ∈ ls, l.Legible) {fuel : Nat} (hfuel : ls.length < fuel) :
    readStatements fuel (ls.flatMap Line.write) = some (ls.map fun l => .assignment [l.key] l.value) := by
  induction ls generalizing fuel with
  | nil =>
    obtain ⟨fuel, rfl⟩ := Nat.exists_eq_succ_of_ne_zero (Nat.ne_of_gt hfuel)
    rfl
  | cons l ls ih =>
    obtain ⟨fuel, rfl⟩ := Nat.exists_eq_succ_of_ne_zero (Nat.ne_of_gt (Nat.zero_lt_of_lt hfuel))
    obtain ⟨hl, hls⟩ := List.forall_mem_cons.1 hls
    rw [List.flatMap_cons, Nat.succ_eq_add_one, readStatements_line hl, ih hls (Nat.lt_of_succ_lt_succ hfuel)]
    rfl

/-! ## Tables -/

theorem sections_assignments (as : List (List String × Toml)) :
    sections (as.map fun a => .assignment a.1 a.2) = [⟨none, as⟩] := by
  induction as with
  | nil => rfl
  | cons a as ih => rw [List.map_cons, sections, ih]

theorem assign_new {kind : TableKind} {entries : List (String × Toml)} {key : String}
    (hnew : entries.lookup key = none) (v : Toml) :
    assign (.table kind entries) [key] v = some (.table kind (entries ++ [(key, v)])) := by
  simp [assign, changeAt, hnew]

theorem assignAll_cons (t : Toml) (path : List String) (v : Toml) (as : List (List String × Toml)) :
    assignAll t ((path, v) :: as) = (assign t path v).bind (assignAll · as) := rfl

theorem assignAll_new (kind : TableKind) (entries more : List (String × Toml))
    (hkeys : ((entries ++ more).map Prod.fst).Nodup) :
    assignAll (.table kind entries) (more.map fun e => ([e.1], e.2)) =
      some (.table kind (entries ++ more)) := by
  induction more generalizing entries with
  | nil =>
    rw [List.append_nil]
    rfl
  | cons e more ih =>
    have hnew : entries.lookup e.1 = none := by
      rw [List.map_append, List.map_cons, List.nodup_append] at hkeys
      rw [List.lookup_eq_none_iff]
      intro old hold
      have hne : old.1 ≠ e.1 := hkeys.2.2 _ (List.mem_map_of_mem hold) _ List.mem_cons_self
      exact bne_iff_ne.2 hne.symm
    rw [List.append_cons] at hkeys ⊢
    rw [List.map_cons, assignAll_cons, assign_new hnew, Option.bind_some]
    exact ih _ hkeys

/-! ## Documents -/

theorem length_le_flatMap_write (ls : List Line) : ls.length ≤ (ls.flatMap Line.write).length := by
  induction ls with
  | nil => exact Nat.le_refl 0
  | cons l ls ih =>
    have hl : 0 < l.write.length := by rw [Line.write, List.length_append]; exact Nat.succ_pos _
    rw [List.flatMap_cons, List.length_append, List.length_cons]
    omega

theorem dropMark_lines {ls : List Line} (hls : ∀ l ∈ ls, l.Legible) :
    dropMark (ls.flatMap Line.write) = ls.flatMap Line.write := by
  match ls with
  | [] => rfl
  | l :: ls =>
    obtain ⟨c, cs, hcs, hc⟩ := (hls l List.mem_cons_self).isBare.exists_head
    have hmark : c ≠ '\ufeff' := hc _ (by decide)
    rw [List.flatMap_cons, Line.write, hcs]
    unfold dropMark
    split <;> simp_all

/-- Lines with keys of their own make a table of these keys and values. -/
theorem parse?_lines {ls : List Line} (hls : ∀ l ∈ ls, l.Legible) (hkeys : (ls.map Line.key).Nodup) :
    parse? (String.ofList (ls.flatMap Line.write)) =
      some (.table .headed (ls.map fun l => (l.key, l.value))) := by
  have hstatements := readStatements_lines hls (Nat.lt_succ_of_le (length_le_flatMap_write ls))
  have hsections : sections (ls.map fun l => .assignment [l.key] l.value) =
      [⟨none, ls.map fun l => ([l.key], l.value)⟩] := by
    have h := sections_assignments (ls.map fun l => ([l.key], l.value))
    rw [List.map_map] at h
    exact h
  have hassign : assignAll (.table .headed []) (ls.map fun l => ([l.key], l.value)) =
      some (.table .headed (ls.map fun l => (l.key, l.value))) := by
    have h := assignAll_new .headed [] (ls.map fun l => (l.key, l.value))
    rw [List.nil_append, List.map_map, List.map_map] at h
    exact h hkeys
  rw [parse?, String.toList_ofList, dropMark_lines hls]
  simp only [hstatements, Option.bind_eq_bind, Option.bind_some, hsections, List.foldlM_cons,
    List.foldlM_nil, addSection, hassign]
  rfl

end Toml

end ObjectGraph
