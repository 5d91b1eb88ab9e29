-- SUMMARY: Plain documents are written out as JSON value by value, with nothing lost, added or marked.
import ObjectGraph.Proofs.Document.Forest
import ObjectGraph.Proofs.Document.Loaded
import ObjectGraph.Report.Basic
import Mathlib

/-! # Plain documents as JSON

Some YAML values are JSON values: those without tags, whose mappings have distinct
string keys (`Yaml.IsJson`). Which JSON value they are does not depend on graphs
(`Yaml.Denotes`), and it is the one that is written for their document
(`Document.denotes_valueJson_root`). No container is taken for one that encloses it,
because a container refers to earlier ones only.
-/

namespace ObjectGraph

/-! ## Plain values -/

namespace Yaml

/-- The value has a counterpart in JSON: numbers that fit 64 bits or are finite,
no tags, and names for keys. -/
inductive IsJson : Yaml → Prop
  | null : IsJson .null
  | boolean (b : Bool) : IsJson (.boolean b)
  | integer {n : Int} : Int64.minValue.toInt ≤ n → n ≤ Int64.maxValue.toInt → IsJson (.integer n)
  | float {x : Binary64} : x.isFinite = true → IsJson (.float x)
  | string (s : String) : IsJson (.string s)
  | sequence {items : List Yaml} : (∀ item ∈ items, IsJson item) → IsJson (.sequence items)
  | mapping {members : List (String × Yaml)} : (members.map Prod.fst).Nodup →
    (∀ v ∈ members.map Prod.snd, IsJson v) → IsJson (ofMembers members)

/-- The two are the same value: items are in the same order, members in any order. -/
inductive Denotes : Yaml → Json → Prop
  | null : Denotes .null .null
  | boolean (b : Bool) : Denotes (.boolean b) (.boolean b)
  | integer (n : Int) : Denotes (.integer n) (.integer n)
  | float (x : Binary64) : Denotes (.float x) (.float x)
  | string (s : String) : Denotes (.string s) (.string s)
  | sequence {items : List Yaml} {values : List Json} : List.Forall₂ Denotes items values →
    Denotes (.sequence items) (.array values)
  | mapping {members : List (String × Yaml)} {values : List Json} {shown : List (String × Json)} :
    List.Forall₂ Denotes (members.map Prod.snd) values →
    shown.Perm ((members.map Prod.fst).zip values) → Denotes (ofMembers members) (.object shown)

end Yaml

/-! ## Sorting members -/

namespace Json

theorem perm_insert {name : String} {value : Json} {members : List (String × Json)}
    (hname : name ∉ members.map Prod.fst) :
    (insert name value members).Perm ((name, value) :: members) := by
  induction members with
  | nil => exact .refl _
  | cons member rest ih =>
    obtain ⟨n, v⟩ := member
    obtain ⟨hne, hrest⟩ := not_or.1 (mt List.mem_cons.2 hname)
    unfold insert
    split
    · exact .refl _
    · -- the names differ, so the member comes later
      exact ((ih hrest).cons _).trans (.swap ..)

theorem perm_foldl_insert {members sorted : List (String × Json)}
    (hnames : ((members ++ sorted).map Prod.fst).Nodup) :
    (members.foldl (fun sorted (name, value) => insert name value sorted) sorted).Perm
      (members ++ sorted) := by
  induction members generalizing sorted with
  | nil => exact .refl _
  | cons member rest ih =>
    obtain ⟨name, value⟩ := member
    have hnew : name ∉ sorted.map Prod.fst := fun hmem =>
      (List.nodup_cons.1 hnames).1 (List.map_append .. ▸ List.mem_append_right _ hmem)
    have hmoved : (rest ++ insert name value sorted).Perm ((name, value) :: (rest ++ sorted)) :=
      ((perm_insert hnew).append_left rest).trans List.perm_middle
    exact (ih ((hmoved.map Prod.fst).nodup_iff.2 hnames)).trans hmoved

/-- Members with distinct names are put in order, and none is lost. -/
theorem perm_sortMembers {members : List (String × Json)} (hnames : (members.map Prod.fst).Nodup) :
    (sortMembers members).Perm members := by
  rw [← List.append_nil members] at hnames
  exact (perm_foldl_insert hnames).trans (.of_eq (List.append_nil members))

end Json

/-! ## Writing values -/

namespace Report

/-- Where the value is a container, it is an earlier one than those that enclose it. -/
def EarlierThan (x : Value) (enclosing : List NodeId) : Prop :=
  ∀ id, x = .node id → ∀ outer ∈ enclosing, id.index < outer.index

variable {g : Graph} {id : NodeId} {c : Container} {enclosing : List NodeId} {x : Value}

theorem EarlierThan.not_mem (h : EarlierThan (.node id) enclosing) : id ∉ enclosing :=
  fun hmem => Nat.lt_irrefl _ (h id rfl id hmem)

/-- In a graph of containers that refer to earlier ones, this is so all the way down. -/
theorem EarlierThan.child (h : EarlierThan (.node id) enclosing) (hg : g.BottomUp)
    (hnode : g.node? id = some c) (hx : ∃ slot ∈ c.slots, slot.content = .stored x) :
    EarlierThan x (id :: enclosing) := by
  rintro ref rfl
  obtain ⟨slot, hslot, hcontent⟩ := hx
  have hbefore := hg id c hnode ref (Container.mem_references hslot hcontent)
  exact List.forall_mem_cons.2 ⟨hbefore, fun outer hout => Nat.lt_trans hbefore (h id rfl outer hout)⟩

theorem valueJson_scalar (hx : x.isScalar = true) : valueJson g enclosing x = scalarJson x := by
  rw [valueJson]
  rintro id rfl
  cases hx

theorem valueJson_node (hnew : id ∉ enclosing) (hnode : g.node? id = some c) :
    valueJson g enclosing (.node id) = containerJson (valueJson g (id :: enclosing)) c := by
  rw [valueJson, dif_neg (by simpa using hnew)]
  split
  · rename_i c' hnode'
    rw [Option.some.inj (hnode.symm.trans hnode')]
  · rename_i hnone
    rw [hnode] at hnone
    cases hnone

/-- A record of visible stored fields is an object of all of them. -/
theorem containerJson_storedFields (value : Value → Json) {r : Record} {keys : List Key}
    {values : List Value} (hfields : r.fields = Record.storedFields keys values) :
    containerJson value (.record r) =
      .object (Json.sortMembers ((keys.map Key.display).zip (values.map value))) := by
  have hvisible : (Record.storedFields keys values).filter (·.2.visible) =
      Record.storedFields keys values := by
    refine List.filter_eq_self.2 fun field hfield => ?_
    obtain ⟨pair, -, rfl⟩ := List.mem_map.1 hfield
    rfl
  rw [containerJson, hfields, hvisible, Record.storedFields, List.map_map, List.zip_map]
  rfl

end Report

/-! ## Plain documents -/

theorem Container.exists_slot_of_mem_sequence {x : Value} {values : List Value} (hx : x ∈ values) :
    ∃ slot ∈ (Container.sequence values).slots, slot.content = .stored x := by
  obtain ⟨i, hi, rfl⟩ := List.getElem_of_mem hx
  exact ⟨_, List.mem_mapIdx.2 ⟨i, hi, rfl⟩, rfl⟩

theorem Container.exists_slot_of_mem_storedFields {x : Value} {r : Record} {keys : List Key}
    {values : List Value} (hfields : r.fields = Record.storedFields keys values)
    (hlength : values.length ≤ keys.length) (hx : x ∈ values) :
    ∃ slot ∈ (Container.record r).slots, slot.content = .stored x := by
  rw [← List.map_snd_zip hlength] at hx
  obtain ⟨⟨key, x⟩, hpair, rfl⟩ := List.mem_map.1 hx
  have hfield : (key, ⟨.stored x, true⟩) ∈ r.fields := hfields ▸ List.mem_map.2 ⟨(key, x), hpair, rfl⟩
  exact ⟨_, List.mem_map.2 ⟨_, hfield, rfl⟩, rfl⟩

namespace Yaml

open Report

variable {g : Graph}

theorem AllLoaded.denotes {vs : List Yaml} {xs : List Value} (h : AllLoaded vs xs g)
    {value : Value → Json}
    (hvalue : ∀ v ∈ vs, ∀ x ∈ xs, v.LoadedAs none x g → v.Denotes (value x)) :
    List.Forall₂ Denotes vs (xs.map value) := by
  obtain ⟨hlength, hloaded⟩ := List.forall₂_iff_zip.1 h
  refine List.forall₂_map_right_iff.2 (List.forall₂_iff_zip.2 ⟨hlength, fun {v x} hpair => ?_⟩)
  obtain ⟨hv, hx⟩ := List.of_mem_zip hpair
  exact hvalue v hv x hx (hloaded hpair)

/-- What was loaded from a JSON value is written as that value. -/
theorem IsJson.denotes_of_loadedAs {v : Yaml} (hv : v.IsJson) (hg : g.BottomUp) {x : Value}
    (hx : v.LoadedAs none x g) {enclosing : List NodeId} (hearlier : EarlierThan x enclosing) :
    v.Denotes (valueJson g enclosing x) := by
  induction hv generalizing x enclosing with
  | null =>
    obtain ⟨d, rfl, -⟩ := hx
    rw [valueJson_scalar rfl]
    exact .null
  | boolean b =>
    obtain ⟨d, rfl, -⟩ := hx
    rw [valueJson_scalar rfl]
    exact .boolean b
  | @integer n hmin hmax =>
    obtain ⟨d, rfl, -⟩ := hx
    have hnumber : numberOf n = .integer (Int64.ofInt n) := if_pos ⟨hmin, hmax⟩
    have hvalue : scalarJson (.number (numberOf n)) = .integer n := by
      rw [hnumber, scalarJson, Int64.toInt_ofInt_of_le hmin (Int.lt_add_one_of_le hmax)]
    rw [valueJson_scalar rfl]
    exact hvalue ▸ .integer n
  | @float y hy =>
    obtain ⟨d, rfl, -⟩ := hx
    have hvalue : scalarJson (.number (.float y)) = .float y := if_pos hy
    rw [valueJson_scalar rfl]
    exact hvalue ▸ .float y
  | string s =>
    obtain ⟨d, rfl, -⟩ := hx
    rw [valueJson_scalar rfl]
    exact .string s
  | @sequence items _ ih =>
    obtain ⟨id, values, rfl, hnode, hitems⟩ := hx.sequence
    rw [valueJson_node hearlier.not_mem hnode]
    refine .sequence (hitems.denotes fun item hitem x hx hloaded => ?_)
    have hslot := Container.exists_slot_of_mem_sequence hx
    exact ih item hitem hloaded (hearlier.child hg hnode hslot)
  | @mapping members hnames _ ih =>
    obtain ⟨id, r, values, rfl, hnode, hfields, hvalues⟩ := hx.ofMembers hnames
    have hlength : values.length = members.length := by
      rw [← List.Forall₂.length_eq hvalues, List.length_map]
    have hshown : ((members.map Prod.fst).map Key.name).map Key.display = members.map Prod.fst := by
      rw [List.map_map]
      exact List.map_id _
    rw [valueJson_node hearlier.not_mem hnode, containerJson_storedFields _ hfields, hshown]
    refine .mapping (hvalues.denotes fun v hv x hx hloaded => ?_) (Json.perm_sortMembers ?_)
    · have hslot := Container.exists_slot_of_mem_storedFields hfields (by simp [hlength]) hx
      exact ih v hv hloaded (hearlier.child hg hnode hslot)
    · rw [List.map_fst_zip (by simp [hlength])]
      exact hnames

end Yaml

namespace Document

/-- A JSON value that is loaded and written out is the same value: no container in
it is marked as circular, no member is lost and no item moved. -/
theorem denotes_valueJson_root {v : Yaml} (hv : v.IsJson) (s : Supply) :
    v.Denotes (Report.valueJson (ofYaml v s).1.graph [] (ofYaml v s).1.root) := by
  have hloaded : v.LoadedAs none (ofYaml v s).1.root (ofYaml v s).1.graph := ⟨_, rfl, .refl⟩
  have houtermost : Report.EarlierThan (ofYaml v s).1.root [] := fun _ _ => List.forall_mem_nil _
  exact hv.denotes_of_loadedAs (bottomUp_ofYaml v s) hloaded houtermost

/-- Members that are not in order. -/
def unsorted : Yaml :=
  .ofMembers [("b", .sequence [.integer (-1), .null, .sequence []]),
    ("a", .ofMembers [("x", .boolean true)])]

theorem isJson_unsorted : unsorted.IsJson := by
  have hempty : (Yaml.sequence []).IsJson := .sequence (List.forall_mem_nil _)
  have hitems : (Yaml.sequence [.integer (-1), .null, .sequence []]).IsJson :=
    .sequence (List.forall_mem_cons.2 ⟨.integer (by decide) (by decide),
      List.forall_mem_cons.2 ⟨.null, List.forall_mem_singleton.2 hempty⟩⟩)
  have hinner : (Yaml.ofMembers [("x", .boolean true)]).IsJson :=
    .mapping (by decide) (List.forall_mem_singleton.2 (.boolean true))
  exact .mapping (by decide) (List.forall_mem_cons.2 ⟨hitems, List.forall_mem_singleton.2 hinner⟩)

theorem denotes_valueJson_root_unsorted :
    unsorted.IsJson ∧ unsorted.Denotes (.object [("a", .object [("x", .boolean true)]),
      ("b", .array [.integer (-1), .null, .array []])]) := by
  have hjson : Report.valueJson (ofYaml unsorted .initial).1.graph [] (ofYaml unsorted .initial).1.root =
      .object [("a", .object [("x", .boolean true)]),
        ("b", .array [.integer (-1), .null, .array []])] := by cbv
  refine ⟨isJson_unsorted, ?_⟩
  rw [← hjson]
  exact denotes_valueJson_root isJson_unsorted .initial

end Document

end ObjectGraph
