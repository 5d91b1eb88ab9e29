-- SUMMARY: Saved settings load again, and a file that cannot take new settings keeps its own.
import ObjectGraph.Proofs.Toml.Lines
import ObjectGraph.Settings

/-! # Saved settings

What is saved is what loads (`Settings.load_save`). Since settings that do not load are
replaced by default ones without a word, the texts of all fields have to be read back.
-/

namespace ObjectGraph

namespace Settings

/-! ## The text of a file -/

/-- The lines of a settings file. -/
def lines (s : Settings) : List Toml.Line :=
  [⟨"default_mode", Toml.writeString s.defaultMode.toList, .string s.defaultMode⟩,
    ⟨"max_depth", Nat.toDigits 10 s.maxDepth, .integer s.maxDepth⟩,
    ⟨"max_results", Nat.toDigits 10 s.maxResults, .integer s.maxResults⟩,
    ⟨"output", Toml.writeString s.output.toList, .string s.output⟩,
    ⟨"show_types", (if s.showTypes then "true" else "false").toList, .boolean s.showTypes⟩]

/-- Numbers that a file can hold. -/
def Fits (s : Settings) : Prop := s.maxDepth ≤ maxNumber ∧ s.maxResults ≤ maxNumber

theorem write?_of_fits {s : Settings} (hs : s.Fits) :
    s.write? = some (String.ofList (s.lines.flatMap Toml.Line.write)) := by
  have hnot : ¬ (maxNumber < s.maxDepth ∨ maxNumber < s.maxResults) := by
    rw [not_or, Nat.not_lt, Nat.not_lt]
    exact hs
  rw [write?, if_neg hnot]
  simp [lines, Toml.Line.write, line]

theorem write?_of_not_fits {s : Settings} (hs : ¬ s.Fits) : s.write? = none := by
  have hover : maxNumber < s.maxDepth ∨ maxNumber < s.maxResults := by
    unfold Fits at hs
    omega
  rw [write?, if_pos hover]

/-- The lines of settings are legible, whatever their strings hold. -/
theorem legible_lines {s : Settings} (hs : s.Fits) : ∀ l ∈ s.lines, l.Legible := by
  have hbare : ∀ key ∈ ["default_mode", "max_depth", "max_results", "output", "show_types"],
      key ≠ "" ∧ key.toList.all Toml.isKeyChar = true := by
    decide +kernel
  have hnumber : ∀ n ≤ maxNumber, (n : Int) ≤ Int64.maxValue.toInt := fun n hn => Int.ofNat_le.2 hn
  have hstring : ∀ text : String, Toml.Spells (Toml.writeString text.toList) (.string text) := by
    intro text
    have h := Toml.spells_string text.toList
    rwa [String.ofList_toList] at h
  intro l hl
  obtain ⟨hne, hall⟩ := hbare l.key (List.mem_map_of_mem (f := Toml.Line.key) hl)
  refine ⟨⟨hne, List.all_eq_true.1 hall⟩, ?_⟩
  simp only [lines, List.mem_cons, List.not_mem_nil, or_false] at hl
  obtain rfl | rfl | rfl | rfl | rfl := hl
  · exact hstring s.defaultMode
  · exact Toml.spells_integer (hnumber s.maxDepth hs.1)
  · exact Toml.spells_integer (hnumber s.maxResults hs.2)
  · exact hstring s.output
  · exact Toml.spells_boolean s.showTypes

/-! ## Fields -/

theorem ofToml?_lines (s : Settings) (kind : TableKind) :
    ofToml? (.table kind (s.lines.map fun l => (l.key, l.value))) = some s := by
  simp [ofToml?, lines, field?, text?, count?, flag?, List.lookup_cons]

/-! ## Files -/

theorem load_of_write? {s : Settings} (hs : s.Fits) : load s.write? = s := by
  have hkeys : (s.lines.map Toml.Line.key).Nodup := by
    change ["default_mode", "max_depth", "max_results", "output", "show_types"].Nodup
    decide
  have hparse := Toml.parse?_lines (legible_lines hs) hkeys
  rw [load, write?_of_fits hs, Option.bind_some, hparse, Option.bind_some, ofToml?_lines, Option.getD_some]

/-- Settings with numbers up to 63 bits are saved, and load as they were. Others are not
saved, and the file and what it loads stay as they were. -/
theorem load_save (s : Settings) (file : Option String) :
    (s.maxDepth ≤ maxNumber ∧ s.maxResults ≤ maxNumber →
      (∃ text, s.write? = some text ∧ s.save file = some text) ∧ load (s.save file) = s) ∧
    (maxNumber < s.maxDepth ∨ maxNumber < s.maxResults →
      s.write? = none ∧ s.save file = file ∧ load (s.save file) = load file) := by
  refine ⟨fun hs => ?_, fun hover => ?_⟩
  · have hfits : s.Fits := hs
    have hwrite := write?_of_fits hfits
    have hsave : s.save file = s.write? := by rw [save, hwrite]; rfl
    exact ⟨⟨_, hwrite, by rw [hsave, hwrite]⟩, by rw [hsave, load_of_write? hfits]⟩
  · have hnot : ¬ s.Fits := fun hs => by
      have hdepth := hs.1
      have hresults := hs.2
      omega
    have hwrite := write?_of_not_fits hnot
    have hsave : s.save file = file := by rw [save, hwrite]; rfl
    exact ⟨hwrite, hsave, by rw [hsave]⟩

/-- A mode with all kinds of marks, a line end and a control character. -/
def marked : Settings := ⟨"'''\"\"\"\\\n\x01 = [a]", maxNumber, 0, "", false⟩

theorem load_save_marked :
    load (marked.save none) = marked ∧ (⟨"all", maxNumber + 1, 0, "text", true⟩ : Settings).save none = none :=
  ⟨((load_save marked none).1 (by decide)).2,
    ((load_save ⟨"all", maxNumber + 1, 0, "text", true⟩ none).2 (by decide)).2.1⟩

end Settings

end ObjectGraph
