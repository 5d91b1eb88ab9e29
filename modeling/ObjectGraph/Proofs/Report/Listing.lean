-- SUMMARY: A listing has one line per hit, and one more for each line break in the texts that it shows.
import ObjectGraph.Report.Basic
import Mathlib

/-! # Listings line by line

A listing ends the row of each hit with a line break. The rows take over texts of the
graph as they are: names, keys, descriptions and strings (`Hit.texts`). So it has a line
for each hit exactly if no text that it shows breaks (`Report.listing_line_per_hit`), and a string
of two lines is shown on two (`Report.listing_splits_string`).
-/

namespace ObjectGraph

/-! ## Lines of a text -/

namespace Text

def lineBreaks (s : String) : Nat := s.toList.count '\n'

/-- What stands before, between and after the line breaks. -/
def lines (s : String) : List (List Char) := s.toList.splitOn '\n'

@[simp] theorem lineBreaks_append (s t : String) : lineBreaks (s ++ t) = lineBreaks s + lineBreaks t := by
  simp [lineBreaks]

@[simp] theorem lineBreaks_ofList (cs : List Char) : lineBreaks (String.ofList cs) = cs.count '\n' := by
  simp [lineBreaks]

theorem lineBreaks_eq_zero_iff {s : String} : lineBreaks s = 0 ↔ '\n' ∉ s.toList := List.count_eq_zero

theorem lines_eq_singleton {s : String} (h : lineBreaks s = 0) : lines s = [s.toList] :=
  List.splitOn_eq_singleton (lineBreaks_eq_zero_iff.1 h)

theorem lines_append_break (s t : String) : lines (s ++ "\n" ++ t) = lines s ++ lines t := by
  simp only [lines, String.toList_append, List.append_assoc]
  exact List.splitOn_append_cons_self ..

theorem length_lines (s : String) : (lines s).length = lineBreaks s + 1 := by
  simp only [lines, lineBreaks]
  induction s.toList with
  | nil => rfl
  | cons c cs ih =>
    rw [List.splitOn_cons_eq_if_modifyHead, List.count_cons]
    split
    · rw [List.length_cons, ih]
    · rw [List.length_modifyHead, ih, Nat.add_zero]

/-! ### Numbers -/

theorem newline_notMem_toDigits (n : Nat) : '\n' ∉ Nat.toDigits 10 n := fun h =>
  absurd (Nat.isDigit_of_mem_toDigits (by decide) (by decide) h) (by decide)

theorem lineBreaks_nat (n : Nat) : lineBreaks (toString n) = 0 := by
  rw [Nat.toString_eq_repr, Nat.repr_eq_ofList_toDigits, lineBreaks_ofList]
  exact List.count_eq_zero.2 (newline_notMem_toDigits n)

theorem lineBreaks_int (n : Int) : lineBreaks (toString n) = 0 := by
  cases n with
  | ofNat n => exact lineBreaks_nat n
  | negSucc n =>
    change lineBreaks ("-" ++ toString (n + 1)) = 0
    rw [lineBreaks_append, lineBreaks_nat]
    rfl

end Text

open Text

theorem NumberLayout.lineBreaks_writeDecimal (d : Decimal) : lineBreaks (plain.writeDecimal d) = 0 := by
  have hdigits := newline_notMem_toDigits d.digits
  have htake (n : Nat) : '\n' ∉ (Nat.toDigits 10 d.digits).take n := fun h => hdigits (List.mem_of_mem_take h)
  have hdrop (n : Nat) : '\n' ∉ (Nat.toDigits 10 d.digits).drop n := fun h => hdigits (List.mem_of_mem_drop h)
  have hzeros (n : Nat) : '\n' ∉ List.replicate n '0' := by simp [List.mem_replicate]
  rw [lineBreaks_eq_zero_iff]
  simp only [writeDecimal, plain, if_true, Bool.false_eq_true, if_false]
  split
  · decide
  · split
    · simp [hdigits, hzeros]
    · split
      · simp [htake, hdrop]
      · simp [hdigits, hzeros]

theorem NumberLayout.lineBreaks_write (x : Binary64) : lineBreaks (plain.write x) = 0 := by
  have hminus : lineBreaks (if x.sign then "-" else "") = 0 := by split <;> rfl
  simp only [write]
  split
  · rfl
  · split
    · rw [lineBreaks_append, hminus]
      rfl
    · rw [lineBreaks_append, hminus, lineBreaks_writeDecimal]

theorem Number.lineBreaks_display (n : Number) : lineBreaks n.display = 0 := by
  cases n with
  | integer n => exact lineBreaks_int n.toInt
  | float x => exact NumberLayout.lineBreaks_write x

/-! ## What the rows take over -/

/-- The text of the graph that a step shows. -/
def Step.text : Step → String
  | .field name => name
  | .index _ => ""
  | .symbol description => description
  | .entry key _ => key

/-- The text of the graph that the preview of a value shows. -/
def Graph.shownText (g : Graph) : Value → String
  | .string s => s
  | .symbol s => s.label
  | .callable c => c.name
  | .node id => ((g.node? id).bind Container.className).getD ""
  | _ => ""

/-- The texts of the graph that are shown for a hit. -/
def Hit.texts (g : Graph) (h : Hit) : List String := h.path.map Step.text ++ [g.shownText h.value]

namespace Path

theorem count_quoted (text : List Char) : (quoted text).count '\n' = text.count '\n' := by
  have hchar : ∀ c, (quoteChar c).count '\n' = [c].count '\n' := by
    intro c
    unfold quoteChar
    split
    · rename_i hc
      rcases hc with rfl | rfl <;> rfl
    · rfl
  have hchars : (text.flatMap quoteChar).count '\n' = text.count '\n' := by
    induction text with
    | nil => rfl
    | cons c text ih =>
      rw [List.flatMap_cons, List.count_append, hchar, ih, ← List.count_append, List.singleton_append]
  simp [quoted, hchars]

theorem count_writeSymbol (description : List Char) :
    (writeSymbol description).count '\n' = description.count '\n' := by
  unfold writeSymbol
  split <;> simp [count_quoted]

theorem count_writeStep {separator : List Char} (h : '\n' ∉ separator) (step : Step) :
    (writeStep separator step).count '\n' = lineBreaks step.text := by
  have hseparator : separator.count '\n' = 0 := List.count_eq_zero.2 h
  cases step with
  | field name =>
    simp only [writeStep]
    split <;> simp [count_quoted, hseparator, Step.text, lineBreaks]
  | index n => simp [writeStep, List.count_eq_zero.2 (newline_notMem_toDigits n), Step.text, lineBreaks]
  | symbol description => simp [writeStep, count_writeSymbol, Step.text, lineBreaks]
  | entry key isSymbol =>
    cases isSymbol <;> simp [writeStep, count_quoted, count_writeSymbol, hseparator, Step.text, lineBreaks]

theorem lineBreaks_write (p : Path) : lineBreaks p.write = (p.map fun step => lineBreaks step.text).sum := by
  rw [write, lineBreaks_ofList]
  cases p with
  | nil => rfl
  | cons step rest =>
    have hlater (step : Step) : (writeStep ['.'] step).count '\n' = lineBreaks step.text :=
      count_writeStep (by decide) step
    rw [writeChars, List.count_append, count_writeStep (by decide), List.count_flatMap, List.map_cons,
      List.sum_cons]
    simp only [Function.comp_def, hlater]

end Path

namespace Graph

/-- The preview of a value has the line breaks of the text that it takes over. -/
theorem lineBreaks_preview (g : Graph) (v : Value) :
    lineBreaks (g.preview v) = lineBreaks (g.shownText v) := by
  cases v with
  | number n => exact n.lineBreaks_display
  | node id =>
    have hnat (n : Nat) : List.count '\n' (toString n).toList = 0 := lineBreaks_nat n
    simp only [preview, shownText]
    split
    · split <;> simp_all [Container.className, lineBreaks]
    all_goals simp_all [Container.className, lineBreaks, Value.display]
  | boolean b => cases b <;> simp [preview, shownText, Value.display, lineBreaks]
  | _ => simp [preview, shownText, Value.display, Symbol.display, lineBreaks]

end Graph

namespace Report

theorem lineBreaks_padRight (width : Nat) (s : String) : lineBreaks (padRight width s) = lineBreaks s := by
  simp [padRight, List.count_replicate]

theorem lineBreaks_typeName (h : Hit) : lineBreaks h.typeName = 0 := by
  unfold Hit.typeName
  cases h.value <;> simp [Value.typeName, lineBreaks]

theorem lineBreaks_label (path : Path) :
    lineBreaks (label path) = (path.map fun step => lineBreaks step.text).sum := by
  unfold label
  split
  · rename_i hempty
    rw [List.isEmpty_iff.1 hempty]
    rfl
  · exact path.lineBreaks_write

/-- A line of a listing without the break that ends it. -/
def row (g : Graph) (showTypes : Bool) (width : Nat) (h : Hit) : String :=
  padRight width (label h.path) ++ "  " ++
    (if showTypes then padRight typeColumn h.typeName ++ "  " else "") ++ g.preview h.value

/-- The rows of a listing, as wide as the longest label. -/
def rows (g : Graph) (hits : List Hit) (showTypes : Bool) : List String :=
  hits.map (row g showTypes ((hits.map fun h => (label h.path).length).foldl max 0))

theorem listing_eq (g : Graph) (hits : List Hit) (showTypes : Bool) :
    listing g hits showTypes = String.join ((rows g hits showTypes).map (· ++ "\n")) := by
  rw [listing, rows, List.map_map]
  rfl

theorem lineBreaks_row (g : Graph) (showTypes : Bool) (width : Nat) (h : Hit) :
    lineBreaks (row g showTypes width h) = ((h.texts g).map lineBreaks).sum := by
  have hblanks : lineBreaks "  " = 0 := rfl
  have htypes : lineBreaks (if showTypes then padRight typeColumn h.typeName ++ "  " else "") = 0 := by
    split
    · rw [lineBreaks_append, lineBreaks_padRight, lineBreaks_typeName, hblanks]
    · rfl
  rw [row, lineBreaks_append, lineBreaks_append, lineBreaks_append, lineBreaks_padRight, lineBreaks_label,
    hblanks, htypes, g.lineBreaks_preview, Hit.texts, List.map_append, List.sum_append, List.map_map]
  simp [Function.comp_def]

/-- The listing has the lines of its rows, one row after the other, and ends with a break. -/
theorem lines_listing (g : Graph) (hits : List Hit) (showTypes : Bool) :
    lines (listing g hits showTypes) = (rows g hits showTypes).flatMap lines ++ [[]] := by
  rw [listing_eq]
  induction rows g hits showTypes with
  | nil => rfl
  | cons row rest ih =>
    rw [List.map_cons, String.join_cons, lines_append_break, ih, List.flatMap_cons, List.append_assoc]

theorem lineBreaks_listing (g : Graph) (hits : List Hit) (showTypes : Bool) :
    lineBreaks (listing g hits showTypes) =
      hits.length + ((hits.flatMap (Hit.texts g)).map lineBreaks).sum := by
  rw [listing_eq, rows]
  generalize (hits.map fun h => (label h.path).length).foldl max 0 = width
  induction hits with
  | nil => rfl
  | cons h rest ih =>
    have hbreak : lineBreaks "\n" = 1 := rfl
    rw [List.map_cons, List.map_cons, String.join_cons, lineBreaks_append, lineBreaks_append, lineBreaks_row,
      ih, hbreak, List.flatMap_cons, List.map_append, List.sum_append, List.length_cons]
    omega

/-- A listing has a line break for each hit, and those of the texts that it shows. So if
no text breaks, its lines are its rows, one for each hit, and otherwise there are more. -/
theorem listing_line_per_hit (g : Graph) (hits : List Hit) (showTypes : Bool) :
    let out := listing g hits showTypes
    let unbroken := ∀ h ∈ hits, ∀ text ∈ h.texts g, '\n' ∉ text.toList
    lineBreaks out = hits.length + ((hits.flatMap (Hit.texts g)).map lineBreaks).sum ∧
    (lineBreaks out = hits.length ↔ unbroken) ∧
    (lines out = (rows g hits showTypes).map String.toList ++ [[]] ↔ unbroken) := by
  intro out unbroken
  have hcount := lineBreaks_listing g hits showTypes
  have hbreaks : lineBreaks out = hits.length ↔ unbroken := by
    rw [hcount, Nat.add_eq_left, List.sum_eq_zero_iff_forall_eq_nat, List.forall_mem_map,
      List.forall_mem_flatMap]
    simp only [lineBreaks_eq_zero_iff, unbroken]
  refine ⟨hcount, hbreaks, fun hlines => ?_, fun hunbroken => ?_⟩
  · have hlength := congrArg List.length hlines
    rw [length_lines, List.length_append, List.length_map, rows, List.length_map,
      List.length_singleton] at hlength
    exact hbreaks.1 (Nat.add_right_cancel hlength)
  · have hrow : ∀ row ∈ rows g hits showTypes, lines row = [row.toList] := by
      intro row hrow
      obtain ⟨h, hh, rfl⟩ := List.mem_map.1 hrow
      refine lines_eq_singleton ?_
      rw [lineBreaks_row, List.sum_eq_zero_iff_forall_eq_nat, List.forall_mem_map]
      exact fun text htext => lineBreaks_eq_zero_iff.2 (hunbroken h hh text htext)
    rw [lines_listing, List.flatMap_congr hrow, List.map_eq_flatMap]

/-- A record with a string of two lines. -/
def verse : Graph :=
  { Graph.empty with
    nodes := #[.record ⟨none, [(.name "a", ⟨.stored (.string "x\ny"), true⟩)], by decide⟩] }

/-- A string that breaks makes two lines of one hit. -/
theorem listing_splits_string :
    let hits := (verse.search (.node ⟨0⟩) (.plain .type (.exact (.string "string"))) []).hits
    hits.length = 1 ∧
    listing verse hits true = "a  string     \"x\ny\"\n" ∧ lineBreaks (listing verse hits true) = 2 ∧
    listing verse hits false = "a  \"x\ny\"\n" ∧ lineBreaks (listing verse hits false) = 2 := by
  intro hits
  have hhits : hits = [⟨[.field "a"], [0], .string "x\ny", .type⟩] := by
    unfold hits
    cbv
  rw [hhits]
  refine ⟨rfl, ?_, ?_, ?_, ?_⟩
  all_goals cbv

end Report

end ObjectGraph
