-- SUMMARY: JSON shows every occurrence of a container in full, except inside itself.
import ObjectGraph.Proofs.Report.Writer

/-! # Expansion

What is written for a value at some place of the text depends on the containers
around that place only (`Report.Occurs`): a container inside itself is marked, and
every other one is shown in full, wherever else it was written before
(`Report.write_shows_occurrences`). Fields are written under the text of their
keys, so of fields with one text the last one is shown (`Document.valueJson_loses_field`).
-/

namespace ObjectGraph

/-! ## Members -/

namespace Json

theorem lookup_member (name other : String) (value : Json) (rest : List (String × Json)) :
    List.lookup other ((name, value) :: rest) = if other = name then some value else rest.lookup other := by
  rw [List.lookup_cons]
  by_cases h : other = name
  · simp [h]
  · simp [beq_false_of_ne h, h]

theorem lookup_insert (name other : String) (value : Json) (members : List (String × Json)) :
    (insert name value members).lookup other =
      if other = name then some value else members.lookup other := by
  induction members with
  | nil => exact lookup_member ..
  | cons member rest ih =>
    obtain ⟨n, v⟩ := member
    unfold insert
    split
    · exact lookup_member ..
    · split
      · rename_i hn
        subst hn
        rw [lookup_member, lookup_member]
        split <;> rfl
      · rename_i hn
        rw [lookup_member, ih, lookup_member]
        by_cases h : other = name
        · subst h
          rw [if_neg hn, if_pos rfl, if_pos rfl]
        · rw [if_neg h, if_neg h]

theorem mem_names_insert {name other : String} {value : Json} {members : List (String × Json)} :
    other ∈ (insert name value members).map Prod.fst ↔ other = name ∨ other ∈ members.map Prod.fst := by
  induction members with
  | nil => simp [insert]
  | cons member rest ih =>
    obtain ⟨n, v⟩ := member
    unfold insert
    split
    · simp
    · split
      · rename_i hn
        subst hn
        simp
      · rw [List.map_cons, List.mem_cons, ih, List.map_cons, List.mem_cons]
        exact or_left_comm

/-- The names increase from member to member, so each stands there once. -/
def Sorted (members : List (String × Json)) : Prop := (members.map Prod.fst).Pairwise (· < ·)

theorem Sorted.insert {members : List (String × Json)} (h : Sorted members) (name : String)
    (value : Json) : Sorted (Json.insert name value members) := by
  induction members with
  | nil => exact List.pairwise_singleton ..
  | cons member rest ih =>
    obtain ⟨n, v⟩ := member
    obtain ⟨hfirst, hrest⟩ := List.pairwise_cons.1 h
    unfold Json.insert
    split
    · rename_i hlt
      refine List.pairwise_cons.2 ⟨List.forall_mem_cons.2 ⟨hlt, fun other hother => ?_⟩, h⟩
      exact lt_trans hlt (hfirst other hother)
    · rename_i hle
      split
      · rename_i heq
        subst heq
        exact h
      · rename_i hne
        have hlt : n < name := lt_of_le_of_ne (not_lt.1 hle) (Ne.symm hne)
        refine List.pairwise_cons.2 ⟨fun other hother => ?_, ih hrest⟩
        rcases mem_names_insert.1 hother with rfl | hother
        · exact hlt
        · exact hfirst other hother

theorem sorted_foldl_insert {members sorted : List (String × Json)} (h : Sorted sorted) :
    Sorted (members.foldl (fun sorted (name, value) => insert name value sorted) sorted) := by
  induction members generalizing sorted with
  | nil => exact h
  | cons member rest ih => exact ih (h.insert member.1 member.2)

theorem sorted_sortMembers (members : List (String × Json)) : Sorted (sortMembers members) :=
  sorted_foldl_insert .nil

theorem mem_names_foldl_insert {name : String} {members sorted : List (String × Json)} :
    name ∈ (members.foldl (fun sorted (name, value) => insert name value sorted) sorted).map Prod.fst ↔
      name ∈ members.map Prod.fst ∨ name ∈ sorted.map Prod.fst := by
  induction members generalizing sorted with
  | nil => simp
  | cons member rest ih =>
    rw [List.foldl_cons, ih, mem_names_insert, List.map_cons, List.mem_cons]
    exact or_left_comm.trans or_assoc.symm

theorem mem_names_sortMembers {name : String} {members : List (String × Json)} :
    name ∈ (sortMembers members).map Prod.fst ↔ name ∈ members.map Prod.fst := by
  rw [sortMembers, mem_names_foldl_insert]
  simp

theorem lookup_foldl_insert_of_new {name : String} {members sorted : List (String × Json)}
    (hnew : name ∉ members.map Prod.fst) :
    (members.foldl (fun sorted (name, value) => insert name value sorted) sorted).lookup name =
      sorted.lookup name := by
  induction members generalizing sorted with
  | nil => rfl
  | cons member rest ih =>
    obtain ⟨hne, hrest⟩ := not_or.1 (mt List.mem_cons.2 hnew)
    rw [List.foldl_cons, ih hrest, lookup_insert, if_neg hne]

/-- Of the members of one name, the last one is kept. -/
theorem lookup_sortMembers (before : List (String × Json)) {name : String} (value : Json)
    {after : List (String × Json)} (hlast : name ∉ after.map Prod.fst) :
    (sortMembers (before ++ (name, value) :: after)).lookup name = some value := by
  rw [sortMembers, List.foldl_append, List.foldl_cons, lookup_foldl_insert_of_new hlast, lookup_insert,
    if_pos rfl]

/-! ## Places in a JSON value -/

/-- A member of an object, or an item of an array. -/
inductive Place where
  | member (name : String)
  | item (i : Nat)

/-- What stands at a place. -/
def child? (j : Json) : Place → Option Json
  | .member name => match j with
    | .object members => members.lookup name
    | _ => none
  | .item i => match j with
    | .array items => items[i]?
    | _ => none

/-- What stands at the end of a way of places. -/
def at? (j : Json) (places : List Place) : Option Json :=
  places.foldlM child? j

theorem at?_append (j : Json) (places more : List Place) :
    j.at? (places ++ more) = (j.at? places).bind (·.at? more) :=
  List.foldlM_append ..

end Json

/-! ## Occurrences -/

/-- The field is visible, and no visible field after it has a key of the same text. -/
def Record.Shows (r : Record) (key : Key) (p : Property) : Prop :=
  p.visible = true ∧ ∃ before after, r.fields = before ++ (key, p) :: after ∧
    ∀ field ∈ after, field.2.visible = true → field.1.display ≠ key.display

/-- The value is a part of the container, written at these places of its JSON. -/
inductive Container.Shows : Container → List Json.Place → Value → Prop
  | field {r : Record} {key : Key} {p : Property} {x : Value} : r.Shows key p → p.content = .stored x →
    Shows (.record r) [.member key.display] x
  | item {items : List Value} {i : Nat} {x : Value} : items[i]? = some x →
    Shows (.sequence items) [.item i] x
  | key {entries : List (Value × Value)} {i : Nat} {k x : Value} : entries[i]? = some (k, x) →
    Shows (.map entries) [.item i, .item 0] k
  | value {entries : List (Value × Value)} {i : Nat} {k x : Value} : entries[i]? = some (k, x) →
    Shows (.map entries) [.item i, .item 1] x

namespace Report

/-- Writing the root comes to this value, at these places of its JSON, while these
containers are being written, the innermost first. -/
inductive Occurs (g : Graph) (root : Value) : List Json.Place → List NodeId → Value → Prop
  | root : Occurs g root [] [] root
  | part {places more : List Json.Place} {enclosing : List NodeId} {id : NodeId} {c : Container}
    {x : Value} : Occurs g root places enclosing (.node id) → id ∉ enclosing →
    g.node? id = some c → c.Shows more x → Occurs g root (places ++ more) (id :: enclosing) x

/-- The JSON has a place for each part of the container: a member for each text of
a visible key, an item for each item, a pair for each entry. -/
def HasParts : Container → Json → Prop
  | .record r, .object members =>
    Json.Sorted members ∧
    (∀ name, name ∈ members.map Prod.fst ↔ ∃ key ∈ r.visibleKeys, key.display = name) ∧
    ∀ key p a, r.Shows key p → p.content = .computed a → members.lookup key.display = some getter
  | .sequence items, .array values => values.length = items.length
  | .map entries, .array values =>
    values.length = entries.length ∧ ∀ value ∈ values, ∃ k x, value = .array [k, x]
  | _, _ => False

/-- What is to be written for a value inside these containers. -/
def Shown (g : Graph) (enclosing : List NodeId) (j : Json) : Value → Prop
  | .node id =>
    match g.node? id with
    | some c => (j = circular ↔ id ∈ enclosing) ∧ (id ∉ enclosing → HasParts c j)
    | none => j = .null
  | v => j = scalarJson v

variable {g : Graph} {root x : Value} {places : List Json.Place} {enclosing : List NodeId} {c : Container}

theorem lookup_containerJson (value : Value → Json) {r : Record} {key : Key} {p : Property}
    (hshows : r.Shows key p) :
    ∃ members, containerJson value (.record r) = .object members ∧
      members.lookup key.display = some (fieldJson value p) := by
  obtain ⟨hvisible, before, after, hfields, hlast⟩ := hshows
  refine ⟨_, rfl, ?_⟩
  rw [hfields, List.filter_append, List.filter_cons_of_pos (by exact hvisible), List.map_append,
    List.map_cons]
  refine Json.lookup_sortMembers _ _ fun hmem => ?_
  rw [List.map_map] at hmem
  obtain ⟨field, hfield, hdisplay⟩ := List.mem_map.1 hmem
  obtain ⟨hafter, hshown⟩ := List.mem_filter.1 hfield
  exact hlast field hafter hshown hdisplay

/-- Each part of a container is written at its places. -/
theorem at?_containerJson (value : Value → Json) (h : c.Shows places x) :
    (containerJson value c).at? places = some (value x) := by
  cases h with
  | @field r key p _ hshows hcontent =>
    obtain ⟨members, hjson, hlookup⟩ := lookup_containerJson value hshows
    have hfield : fieldJson value p = value x := by rw [fieldJson, hcontent]
    rw [hjson]
    simp [Json.at?, Json.child?, hlookup, hfield]
  | item hitem => simp [containerJson, Json.at?, Json.child?, hitem]
  | key hentry => simp [containerJson, Json.at?, Json.child?, hentry]
  | value hentry => simp [containerJson, Json.at?, Json.child?, hentry]

theorem hasParts_containerJson (value : Value → Json) (c : Container) :
    HasParts c (containerJson value c) := by
  cases c with
  | record r =>
    refine ⟨Json.sorted_sortMembers _, fun name => ?_, fun key p a hshows hcontent => ?_⟩
    · rw [Json.mem_names_sortMembers]
      simp [Record.visibleKeys]
    · obtain ⟨members, hjson, hlookup⟩ := lookup_containerJson value hshows
      obtain rfl := Json.object.inj hjson
      rw [hlookup, fieldJson, hcontent]
  | sequence items => exact List.length_map ..
  | map entries =>
    refine ⟨List.length_map .., fun j hj => ?_⟩
    obtain ⟨entry, -, rfl⟩ := List.mem_map.1 hj
    exact ⟨_, _, rfl⟩

theorem containerJson_ne_circular (value : Value → Json) (c : Container) :
    containerJson value c ≠ circular := by
  cases c <;> simp [containerJson, circular]

/-- What is written for a value inside existing containers is what should be. -/
theorem shown_valueJson (henclosing : ∀ id ∈ enclosing, ∃ c, g.node? id = some c) (x : Value) :
    Shown g enclosing (valueJson g enclosing x) x := by
  cases hscalar : x.isScalar with
  | true =>
    rw [valueJson_scalar hscalar]
    cases x with
    | node id => cases hscalar
    | _ => rfl
  | false =>
    obtain ⟨id, rfl⟩ := exists_node_of_isScalar hscalar
    rw [Shown]
    split
    · rename_i c hnode
      refine ⟨⟨fun heq => ?_, valueJson_circular⟩, fun hnew => ?_⟩
      · by_contra hnew
        rw [valueJson_node hnew hnode] at heq
        exact containerJson_ne_circular _ c heq
      · rw [valueJson_node hnew hnode]
        exact hasParts_containerJson _ c
    · rename_i hnone
      refine valueJson_dangling (fun hmem => ?_) hnone
      obtain ⟨c, hnode⟩ := henclosing id hmem
      rw [hnone] at hnode
      cases hnode

theorem Occurs.exists_node (h : Occurs g root places enclosing x) :
    ∀ id ∈ enclosing, ∃ c, g.node? id = some c := by
  induction h with
  | root => exact List.forall_mem_nil _
  | part _ _ hnode _ ih => exact List.forall_mem_cons.2 ⟨⟨_, hnode⟩, ih⟩

/-- At its places, an occurrence is written as a value inside its containers. -/
theorem Occurs.at?_valueJson (h : Occurs g root places enclosing x) :
    (valueJson g [] root).at? places = some (valueJson g enclosing x) := by
  induction h with
  | root => rfl
  | part _ hnew hnode hshows ih =>
    rw [Json.at?_append, ih, valueJson_node hnew hnode]
    exact at?_containerJson _ hshows

/-- With a level for each container of the graph, the writer gives the JSON of a
value and leaves its set empty. In that JSON every occurrence of a container is
written in full, unless it is inside the same container; then it is marked. -/
theorem write_shows_occurrences (g : Graph) (root : Value) :
    (∀ n, (write g (g.size + n) root).run ∅ = some (valueJson g [] root, ∅)) ∧
    ∀ places enclosing x, Occurs g root places enclosing x →
      ∃ j, (valueJson g [] root).at? places = some j ∧ Shown g enclosing j x := by
  refine ⟨fun n => ?_, fun places enclosing x h => ⟨_, h.at?_valueJson, ?_⟩⟩
  · exact gives_write (Nat.le_trans g.unseen_nil_le (Nat.le_add_right ..)) root
  · exact shown_valueJson h.exists_node x

/-- A map with one sequence as key and as value, which holds the map. -/
def knot : Graph :=
  { Graph.empty with nodes := #[.map [(.node ⟨1⟩, .node ⟨1⟩)], .sequence [.node ⟨0⟩, .node ⟨7⟩]] }

/-- The sequence is written in full as a key and once more as a value. -/
theorem write_shows_occurrences_knot :
    (Occurs knot (.node ⟨0⟩) [.item 0, .item 1] [⟨0⟩] (.node ⟨1⟩) ∧
      Occurs knot (.node ⟨0⟩) [.item 0, .item 1, .item 0] [⟨1⟩, ⟨0⟩] (.node ⟨0⟩)) ∧
    ∃ values, (valueJson knot [] (.node ⟨0⟩)).at? [.item 0, .item 1] = some (.array values) ∧
      values.length = 2 ∧
      (valueJson knot [] (.node ⟨0⟩)).at? [.item 0, .item 1, .item 0] = some circular := by
  have hvalue : Occurs knot (.node ⟨0⟩) [.item 0, .item 1] [⟨0⟩] (.node ⟨1⟩) :=
    .part .root (by decide) rfl (.value rfl)
  have hinner : Occurs knot (.node ⟨0⟩) [.item 0, .item 1, .item 0] [⟨1⟩, ⟨0⟩] (.node ⟨0⟩) :=
    .part hvalue (by decide) rfl (.item rfl)
  obtain ⟨-, hshown⟩ := write_shows_occurrences knot (.node ⟨0⟩)
  obtain ⟨j, hj, -, hparts⟩ := hshown _ _ _ hvalue
  obtain ⟨j', hj', hcircular, -⟩ := hshown _ _ _ hinner
  obtain ⟨values, rfl, hlength⟩ : ∃ values, j = .array values ∧ values.length = 2 := by
    have hparts := hparts (by decide)
    cases j <;> try cases hparts
    exact ⟨_, rfl, hparts⟩
  exact ⟨⟨hvalue, hinner⟩, values, hj, hlength, hj'.trans (congrArg some (hcircular.2 (by decide)))⟩

end Report

namespace Document

/-- A string and a symbol that are written alike. -/
def namesakes : Yaml :=
  .mapping [(.string "Symbol(a)", .integer 1), (.tagged Yaml.symbolTag (.string "a"), .integer 2)]

/-- Of two visible fields whose keys have one text, the first is not written. -/
theorem valueJson_loses_field :
    let doc := (ofYaml namesakes .initial).1
    ∃ r, doc.root = .node ⟨0⟩ ∧ doc.graph.node? ⟨0⟩ = some (.record r) ∧
      r.fields = [(.name "Symbol(a)", ⟨.stored (.number (.integer 1)), true⟩),
        (.symbol ⟨0, some "a"⟩, ⟨.stored (.number (.integer 2)), true⟩)] ∧
      Report.valueJson doc.graph [] doc.root = .object [("Symbol(a)", .integer 2)] := by
  refine ⟨_, rfl, rfl, rfl, ?_⟩
  cbv

end Document

end ObjectGraph
