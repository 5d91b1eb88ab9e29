-- SUMMARY: The object for a record has one member for each text of its visible keys, so fields are lost only under keys that are written alike.
import ObjectGraph.Proofs.Report.Expansion

/-! # Members of records

The keys of a record are distinct, but the members of its object are named by the
texts of the keys, and different keys may have one text (`Key.Namesakes`): a name
may read like a symbol, and symbols are written by their labels. The object has a
member for each text, with the value of the last visible field of that text. So
there is a member for each visible key if and only if no two of these keys are
namesakes (`Report.members_of_expanded`).
-/

namespace ObjectGraph

/-! ## Keys that are written alike -/

namespace Symbol

theorem display_inj {s t : Symbol} : s.display = t.display ↔ s.label = t.label := by
  rw [display, display, String.append_left_inj, String.append_right_inj]

end Symbol

namespace Key

/-- The keys are different, but they have one text. -/
inductive Namesakes : Key → Key → Prop
  | nameSymbol (s : Symbol) : Namesakes (.name s.display) (.symbol s)
  | symbolName (s : Symbol) : Namesakes (.symbol s) (.name s.display)
  | symbols {s t : Symbol} : (s == t) = false → s.label = t.label → Namesakes (.symbol s) (.symbol t)

theorem namesakes_iff {a b : Key} : a.Namesakes b ↔ (a == b) = false ∧ a.display = b.display := by
  constructor
  · rintro (s | s | ⟨hne, hlabel⟩)
    · exact ⟨rfl, rfl⟩
    · exact ⟨rfl, rfl⟩
    · exact ⟨hne, Symbol.display_inj.2 hlabel⟩
  · rintro ⟨hne, hdisplay⟩
    match a, b with
    | .name s, .name t => exact absurd hdisplay (ne_of_beq_false hne)
    | .name _, .symbol t =>
      obtain rfl : _ = t.display := hdisplay
      exact .nameSymbol t
    | .symbol s, .name _ =>
      obtain rfl : s.display = _ := hdisplay
      exact .symbolName s
    | .symbol s, .symbol t => exact .symbols hne (Symbol.display_inj.1 hdisplay)

instance : DecidableRel Namesakes := fun _ _ => decidable_of_iff _ namesakes_iff.symm

end Key

/-- Of the elements with a property, one is the last. -/
theorem exists_last {α : Type} {P : α → Prop} {l : List α} (h : ∃ x ∈ l, P x) :
    ∃ before last after, l = before ++ last :: after ∧ P last ∧ ∀ later ∈ after, ¬ P later := by
  induction l with
  | nil => exact absurd h (by simp)
  | cons head rest ih =>
    by_cases hlater : ∃ x ∈ rest, P x
    · obtain ⟨before, last, after, rfl, hlast⟩ := ih hlater
      exact ⟨head :: before, last, after, rfl, hlast⟩
    · obtain ⟨x, hx, hP⟩ := h
      have hnone : ∀ later ∈ rest, ¬ P later := fun later hmem hP => hlater ⟨later, hmem, hP⟩
      rcases List.mem_cons.1 hx with rfl | hrest
      · exact ⟨[], x, rest, rfl, hP, hnone⟩
      · exact absurd hP (hnone x hrest)

namespace Record

/-- No two visible keys are written alike. -/
def DistinctTexts (r : Record) : Prop := r.visibleKeys.Pairwise fun a b => ¬ a.Namesakes b

instance : DecidablePred DistinctTexts := fun r => inferInstanceAs (Decidable (r.visibleKeys.Pairwise _))

variable {r : Record}

theorem distinctTexts_iff : r.DistinctTexts ↔ (r.visibleKeys.map Key.display).Nodup := by
  have hdistinct : DistinctKeys r.visibleKeys := r.distinct.sublist (List.filter_sublist.map _)
  rw [DistinctTexts, List.Nodup, List.pairwise_map]
  constructor
  · exact hdistinct.imp₂ fun a b hne hsakes htext => hsakes (Key.namesakes_iff.2 ⟨hne, htext⟩)
  · exact List.Pairwise.imp fun htext hsakes => htext (Key.namesakes_iff.1 hsakes).2

/-- For each visible key, one field of its text is shown. -/
theorem exists_shows {key : Key} (hkey : key ∈ r.visibleKeys) :
    ∃ last p, r.Shows last p ∧ last.display = key.display := by
  obtain ⟨⟨key, p⟩, hfield, rfl⟩ := List.mem_map.1 hkey
  obtain ⟨hmem, hvisible⟩ := List.mem_filter.1 hfield
  obtain ⟨before, ⟨last, p⟩, after, hfields, ⟨hshown, htext⟩, hlast⟩ :=
    exists_last (P := fun field => field.2.visible = true ∧ field.1.display = key.display)
      ⟨_, hmem, hvisible, rfl⟩
  refine ⟨last, p, ⟨hshown, before, after, hfields, fun later hafter hvisible => ?_⟩, htext⟩
  exact fun heq => hlast later hafter ⟨hvisible, heq.trans htext⟩

end Record

/-! ## The object for a record -/

namespace Report

variable {g : Graph} {root : Value} {places : List Json.Place} {enclosing : List NodeId} {id : NodeId}
  {r : Record}

/-- The visible fields, named by the texts of their keys. -/
def shownFields (value : Value → Json) (r : Record) : List (String × Json) :=
  (r.fields.filter (·.2.visible)).map fun (key, p) => (key.display, fieldJson value p)

theorem names_shownFields (value : Value → Json) :
    (shownFields value r).map Prod.fst = r.visibleKeys.map Key.display := by
  rw [shownFields, Record.visibleKeys, List.map_map, List.map_map]
  rfl

/-- The members of the object for a record. -/
def recordMembers (value : Value → Json) (r : Record) : List (String × Json) :=
  Json.sortMembers (shownFields value r)

theorem containerJson_record (value : Value → Json) :
    containerJson value (.record r) = .object (recordMembers value r) := rfl

/-- Each text of a visible key names one member. -/
theorem names_recordMembers (value : Value → Json) :
    ((recordMembers value r).map Prod.fst).Perm (r.visibleKeys.map Key.display).dedup := by
  have hnodup : ((recordMembers value r).map Prod.fst).Nodup :=
    (Json.sorted_sortMembers _).imp ne_of_lt
  refine (List.perm_ext_iff_of_nodup hnodup (List.nodup_dedup _)).2 fun name => ?_
  rw [recordMembers, Json.mem_names_sortMembers, names_shownFields, List.mem_dedup]

theorem length_recordMembers_eq_iff (value : Value → Json) :
    (recordMembers value r).length = r.visibleKeys.length ↔ r.DistinctTexts := by
  have hlength : (recordMembers value r).length = (r.visibleKeys.map Key.display).dedup.length := by
    rw [← (names_recordMembers value).length_eq, List.length_map]
  have hkeys : r.visibleKeys.length = (r.visibleKeys.map Key.display).length := (List.length_map _).symm
  rw [hlength, hkeys, Record.distinctTexts_iff]
  constructor
  · intro heq
    exact List.dedup_eq_self.1 ((List.dedup_sublist _).eq_of_length heq)
  · intro hnodup
    rw [hnodup.dedup]

theorem perm_recordMembers (value : Value → Json) (h : r.DistinctTexts) :
    (recordMembers value r).Perm (shownFields value r) := by
  refine Json.perm_sortMembers ?_
  rw [names_shownFields]
  exact Record.distinctTexts_iff.1 h

/-- Where a record is written in full, it becomes an object with one member for each
text of a visible key, which holds the last visible field of that text. There is a
member for each visible key if and only if no two of these keys are written alike, and
then the members are all the visible fields. -/
theorem members_of_expanded (h : Occurs g root places enclosing (.node id)) (hnew : id ∉ enclosing)
    (hnode : g.node? id = some (.record r)) :
    ∃ members, (valueJson g [] root).at? places = some (.object members) ∧
      (members.map Prod.fst).Perm (r.visibleKeys.map Key.display).dedup ∧
      (∀ key ∈ r.visibleKeys, ∃ last p, r.Shows last p ∧ last.display = key.display ∧
        members.lookup key.display = some (fieldJson (valueJson g (id :: enclosing)) p)) ∧
      (members.length = r.visibleKeys.length ↔ r.DistinctTexts) ∧
      (r.DistinctTexts → members.Perm (shownFields (valueJson g (id :: enclosing)) r)) := by
  refine ⟨recordMembers (valueJson g (id :: enclosing)) r, ?_, names_recordMembers _, fun key hkey => ?_,
    length_recordMembers_eq_iff _, perm_recordMembers _⟩
  · rw [h.at?_valueJson, valueJson_node hnew hnode, containerJson_record]
  · obtain ⟨last, p, hshows, htext⟩ := Record.exists_shows hkey
    obtain ⟨members, hjson, hlookup⟩ := lookup_containerJson (valueJson g (id :: enclosing)) hshows
    obtain rfl := Json.object.inj hjson
    exact ⟨last, p, hshows, htext, htext ▸ hlookup⟩

/-- A name, a symbol, and a hidden namesake of the symbol. -/
def badge : Record :=
  ⟨none, [(.name "id", ⟨.stored .null, true⟩), (.symbol ⟨0, some "id"⟩, ⟨.stored (.boolean true), true⟩),
    (.name "Symbol(id)", ⟨.stored .null, false⟩)], by decide⟩

/-- A sequence of one record. -/
def badges : Graph := { Graph.empty with nodes := #[.sequence [.node ⟨1⟩], .record badge] }

/-- The hidden field does not take the place of the symbol. -/
theorem members_of_expanded_badge :
    (Occurs badges (.node ⟨0⟩) [.item 0] [⟨0⟩] (.node ⟨1⟩) ∧ (⟨1⟩ : NodeId) ∉ [(⟨0⟩ : NodeId)] ∧
      badges.node? ⟨1⟩ = some (.record badge)) ∧
    ∃ members, (valueJson badges [] (.node ⟨0⟩)).at? [.item 0] = some (.object members) ∧
      members.length = 2 ∧ members.Perm [("id", .null), ("Symbol(id)", .boolean true)] := by
  have hoccurs : Occurs badges (.node ⟨0⟩) [.item 0] [⟨0⟩] (.node ⟨1⟩) :=
    .part .root (by decide) rfl (.item rfl)
  have htexts : badge.DistinctTexts := by decide
  obtain ⟨members, hat, -, -, hlength, hperm⟩ :=
    members_of_expanded hoccurs (by decide) (r := badge) rfl
  refine ⟨⟨hoccurs, by decide, rfl⟩, members, hat, hlength.2 htexts, ?_⟩
  have hshown : shownFields (valueJson badges [⟨1⟩, ⟨0⟩]) badge =
      [("id", .null), ("Symbol(id)", .boolean true)] := by cbv
  exact hshown ▸ hperm htexts

end Report

namespace Document

/-- A symbol, and a string that reads like it. -/
def doubles : Yaml :=
  .mapping [(.tagged Yaml.symbolTag (.string "id"), .integer 7), (.string "Symbol(id)", .integer 8)]

/-- Of two visible keys that are namesakes, one has no member. -/
theorem valueJson_one_member_of_two :
    let doc := (ofYaml doubles .initial).1
    ∃ r members, doc.root = .node ⟨0⟩ ∧ doc.graph.node? ⟨0⟩ = some (.record r) ∧
      r.visibleKeys = [.symbol ⟨0, some "id"⟩, .name "Symbol(id)"] ∧
      Report.valueJson doc.graph [] doc.root = .object members ∧
      members = [("Symbol(id)", .integer 8)] ∧ members.length ≠ r.visibleKeys.length := by
  refine ⟨_, [("Symbol(id)", .integer 8)], rfl, rfl, rfl, ?_, rfl, by decide⟩
  cbv

end Document

end ObjectGraph
