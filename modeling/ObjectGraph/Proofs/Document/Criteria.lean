-- SUMMARY: What the name of a class and the text of a scalar find at the places of a document.
import ObjectGraph.Proofs.Document.Forest
import ObjectGraph.Proofs.Document.Places
import ObjectGraph.Proofs.Document.Refetch
import ObjectGraph.Proofs.Search.Tree
import ObjectGraph.Search.Literal
import Mathlib

/-! # Criteria and places

A search by the name of a class finds every mapping that stands under the tag of that
name, unless the name is one of a kind of values (`Document.search_finds_instance_iff`).
A search by the text of a scalar finds every part that reads like the text, unless it
is a symbol: the symbol of the text is made apart from those of the document
(`Document.search_finds_scalar`).
-/

namespace ObjectGraph

open Yaml

/-- A walk to a container starts at one. -/
theorem Graph.Walk.isNullish_eq_false {g : Graph} {leads : Child → Value → Prop} {u : Value} {way : Way}
    {id : NodeId} (h : g.Walk leads u way (.node id)) : u.isNullish = false := by
  cases h with
  | here => rfl
  | cross => rfl

namespace Document

variable (v : Yaml) (s : Supply)

/-! ## Tests at a place -/

/-- The turns to a place are followed by a walk from the root to what was loaded for it. -/
theorem exists_walk_of_at {v : Yaml} {turns : List Turn} {w : Yaml} (hat : v.At turns w) :
    let doc := (ofYaml v s).1
    ∃ (way : Way) (part : Task), doc.graph.Walk Scope.everything.CanCross doc.root way part.run.1 ∧
      List.Forall₂ (Turn.LeadsTo doc.graph) turns way ∧
      part.value = w ∧ part.className = none ∧ part.Within s (Task.start v s).run.2 :=
  Task.exists_walk_of_at (Task.within_start v s) hat

/-- Without a bound on depth, every test that succeeds gives a hit. -/
theorem mem_search_of_succeeds {q : Query} (hdepth : q.maxDepth = 0) {log : ReadLog}
    (hlimit : (ofYaml v s).1.graph.LimitSuffices (ofYaml v s).1.root q log)
    (hroot : (ofYaml v s).1.root.isNullish = false) {h : Hit} {way : Way}
    (hsucceeds : h.Succeeds (ofYaml v s).1.graph q (ofYaml v s).1.root way) :
    h ∈ ((ofYaml v s).1.graph.search (ofYaml v s).1.root q log).hits := by
  rw [Graph.search_hits_of_limitSuffices hroot hlimit]
  exact (treeBelow_ofYaml v s).mem_allHits (steady_ofYaml v s) log hsucceeds (.inl hdepth)

/-! ## Classes -/

/-- The names of kinds of values: a search by one of them asks for no class. -/
def kindNames : List String := ["Array", "Sequence", "Map", "Function"]

/-- An instance of a class answers to the name of its class, unless that is the name of a kind. -/
theorem isInstance_ofName_iff {g : Graph} {id : NodeId} {r : Record} {name : String}
    (hnode : g.node? id = some (.record r)) (hclass : r.className = some name) :
    g.isInstance (.node id) (.ofName name) = true ↔ name ∉ kindNames := by
  have hself : g.isInstance (.node id) (.ofClass name) = true := by
    simp [Graph.isInstance, Graph.record?, hnode, Container.record?, hclass, Registry.isSubclass_self]
  have hsequence : g.isInstance (.node id) .sequence = false := by
    simp [Graph.isInstance, Graph.sequence?, hnode, Container.sequence?]
  have hmap : g.isInstance (.node id) .map = false := by
    simp [Graph.isInstance, Graph.map?, hnode, Container.map?]
  have hfunction : g.isInstance (.node id) .function = false := rfl
  unfold TypeTag.ofName kindNames
  split_ifs with h h h h
  · simp [h, Graph.isInstance]
  · rcases h with h | h <;> simp [h, hsequence]
  · simp [h, hmap]
  · simp [h, hfunction]
  · simp_all

/-- A mapping under the tag of a class is loaded as an instance of the class. -/
theorem exists_instance {part : Task} {last : Draft} {name : String} {entries : List (Yaml × Yaml)}
    (hvalue : part.value = .tagged name (.mapping entries)) (hclass : part.className = none)
    (hsymbol : name ≠ symbolTag) (hcallable : name ≠ callableTag)
    (hkeys : ∀ entry ∈ entries, entry.1.IsRecordKey) (hin : part.Within s last) :
    ∃ id r, part.run.1 = .node id ∧ last.graph.node? id = some (.record r) ∧ r.className = some name := by
  obtain ⟨className, w, d⟩ := part
  obtain rfl : w = .tagged name (.mapping entries) := hvalue
  obtain rfl : className = none := hclass
  obtain ⟨keys, hsome⟩ := Option.isSome_iff_exists.1
    ((recordKeys_isSome_iff (d := registerClass (some name) d)).2 hkeys)
  obtain ⟨-, hrun⟩ := Task.run_mapping_record (Prod.ext hsome rfl)
  have hafter := Draft.Steps.growsTo hin.after
  rw [(Task.run_tagged hsymbol hcallable).1, hrun] at hafter ⊢
  exact ⟨_, _, rfl, hafter _ _ (Graph.node?_add ..), Record.className_insertAll ..⟩

/-- A search by the name of a class finds each mapping under the tag of that name, be it
the whole value or at a place in it, exactly if the name is not that of a kind of values. -/
theorem search_finds_instance_iff {turns : List Turn} {name : String} {entries : List (Yaml × Yaml)}
    (hat : v.At turns (.tagged name (.mapping entries))) (hsymbol : name ≠ symbolTag)
    (hcallable : name ≠ callableTag) (hkeys : ∀ entry ∈ entries, entry.1.IsRecordKey) {n : Nat}
    {log : ReadLog} (hlimit : (ofYaml v s).1.graph.LimitSuffices (ofYaml v s).1.root
      { Query.plain .type (.instanceOf name) with maxResults := n } log) :
    let doc := (ofYaml v s).1
    let q := { Query.plain .type (.instanceOf name) with maxResults := n }
    ∃ way id r, doc.graph.Walk Scope.everything.CanCross doc.root way (.node id) ∧
      List.Forall₂ (Turn.LeadsTo doc.graph) turns way ∧
      doc.graph.node? id = some (.record r) ∧ r.className = some name ∧
      (⟨way.path, way.places, .node id, .type⟩ ∈ (doc.graph.search doc.root q log).hits ↔
        name ∉ kindNames) := by
  intro doc q
  obtain ⟨way, part, hwalk, hturns, hvalue, hnone, hin⟩ := exists_walk_of_at s hat
  obtain ⟨id, r, hid, hnode, hclass⟩ := exists_instance s hvalue hnone hsymbol hcallable hkeys hin
  rw [hid] at hwalk
  have hiff := isInstance_ofName_iff hnode hclass
  refine ⟨way, id, r, hwalk, hturns, hnode, hclass, fun hhit => ?_, fun hname => ?_⟩
  · obtain ⟨⟨way', hsucceeds⟩, -⟩ := Graph.succeeds_of_mem_allHits (Graph.mem_allHits_of_mem_search hhit)
    exact hiff.1 hsucceeds.passes
  · exact mem_search_of_succeeds v s rfl hlimit hwalk.isNullish_eq_false ⟨hwalk, rfl, rfl, rfl, hiff.2 hname⟩

/-- An instance in a field of a record. -/
def owned : Yaml :=
  .mapping [(.string "owner", .tagged "Person" (.mapping [(.string "name", .string "Ann")]))]

theorem ofYaml_owned : (ofYaml owned .initial).1 = ⟨{ Graph.empty with
    nodes := #[
      .record ⟨some "Person", [(.name "name", ⟨.stored (.string "Ann"), true⟩)], by decide⟩,
      .record ⟨none, [(.name "owner", ⟨.stored (.node ⟨0⟩), true⟩)], by decide⟩],
    classes := Registry.initial.register "Person" }, .node ⟨1⟩⟩ := by
  rfl

theorem search_finds_instance_iff_owned :
    let doc := (ofYaml owned .initial).1
    let q := Query.plain .type (.instanceOf "Person")
    (owned.At [.field (.string "owner")] (.tagged "Person" (.mapping [(.string "name", .string "Ann")])) ∧
      doc.graph.LimitSuffices doc.root q []) ∧
    ∃ (way : Way) (id : NodeId), List.Forall₂ (Turn.LeadsTo doc.graph) [.field (.string "owner")] way ∧
      ⟨way.path, way.places, .node id, .type⟩ ∈ (doc.graph.search doc.root q []).hits := by
  intro doc q
  have hkey : ∀ entry ∈ [(Yaml.string "name", Yaml.string "Ann")], entry.1.IsRecordKey := by
    simp [IsRecordKey]
  have hat : owned.At [.field (.string "owner")]
      (.tagged "Person" (.mapping [(.string "name", .string "Ann")])) := by
    refine .turn (.part (.field (i := 0) ?_ (List.pairwise_singleton ..) rfl ?_)) (.here _)
    · simp [IsRecordKey]
    · simp
  have hlimit : doc.graph.LimitSuffices doc.root q [] := by
    refine Graph.limitSuffices_of_length_le ?_
    simp only [doc, q, ofYaml_owned]
    cbv
  refine ⟨⟨hat, hlimit⟩, ?_⟩
  obtain ⟨way, id, r, -, hturns, -, -, hiff⟩ :=
    search_finds_instance_iff owned .initial hat (by decide) (by decide) hkey hlimit
  exact ⟨way, id, hturns, hiff.2 (by decide)⟩

/-- An instance of a class with the name of a kind is not found by that name. -/
theorem search_misses_instance :
    let v : Yaml := .tagged "Map" (.mapping [(.string "a", .integer 1)])
    let doc := (ofYaml v .initial).1
    ("Map" ≠ symbolTag ∧ "Map" ≠ callableTag ∧ v.At [] v) ∧
    (∃ r, doc.root = .node ⟨0⟩ ∧ doc.graph.node? ⟨0⟩ = some (.record r) ∧ r.className = some "Map") ∧
    (doc.graph.search doc.root (Query.plain .type (.instanceOf "Map")) []).hits = [] := by
  intro v doc
  refine ⟨⟨by decide, by decide, .here v⟩, ⟨_, rfl, rfl, rfl⟩, ?_⟩
  have hdoc : doc = ⟨{ Graph.empty with
    nodes := #[.record ⟨some "Map", [(.name "a", ⟨.stored (.number (.integer 1)), true⟩)], by decide⟩],
    classes := Registry.initial.register "Map" }, .node ⟨0⟩⟩ := rfl
  rw [hdoc]
  cbv

/-! ## Scalars -/

/-- A scalar without a tag is loaded as its value. -/
theorem run_of_scalar {part : Task} {value : Value} (hclass : part.className = none)
    (hscalar : part.value.scalar? = some value) : part.run.1 = value := by
  obtain ⟨className, w, d⟩ := part
  obtain rfl : className = none := hclass
  cases w <;> cases hscalar <;> rfl

/-- The text of a scalar is the criterion of its value. -/
theorem ofScalarText_of_scalar {text : String} {x : Yaml} {value : Value} (hread : Yaml.parse? text = some x)
    (hscalar : x.scalar? = some value) : Criterion.ofScalarText text s = (.exact value, s) := by
  have hparse : Document.parse? text s = some (ofYaml x s) := by rw [Document.parse?, hread]; rfl
  unfold Criterion.ofScalarText Value.ofScalarText
  rw [hparse]
  cases x <;> cases hscalar <;> rfl

/-- The text of a symbol is the criterion of a new symbol. -/
theorem ofScalarText_of_symbol {text : String} {inner : Yaml}
    (hread : Yaml.parse? text = some (.tagged symbolTag inner)) :
    Criterion.ofScalarText text s =
      (.exact (.symbol ⟨s.symbols, some (labelText inner)⟩), { s with symbols := s.symbols + 1 }) := by
  have hparse : Document.parse? text s = some (ofYaml (.tagged symbolTag inner) s) := by
    rw [Document.parse?, hread]
    rfl
  unfold Criterion.ofScalarText Value.ofScalarText
  rw [hparse]
  rfl

/-- Turns that lead anywhere start from a container. -/
theorem isNullish_root {w : Value} {turn : Turn} {turns : List Turn} {g : Graph} {leads : Child → Value → Prop}
    {u : Value} {way : Way} (hwalk : g.Walk leads u way w)
    (hturns : List.Forall₂ (Turn.LeadsTo g) (turn :: turns) way) : u.isNullish = false := by
  cases hturns with
  | cons =>
    obtain ⟨rfl, -⟩ := hwalk.of_cons
    rfl

end Document

/-! ## Numbers of symbols -/

namespace Draft

/-- The symbols of the table, and the next one, carry numbers from this one on. -/
structure CountsFrom (low : Nat) (d : Draft) : Prop where
  next : low ≤ d.supply.symbols
  table : ∀ entry ∈ d.graph.shared, low ≤ entry.2.id

variable {low : Nat} {d d' : Draft}

theorem countsFrom_empty (s : Supply) : CountsFrom s.symbols ⟨.empty, s⟩ := ⟨Nat.le_refl _, by simp [Graph.empty]⟩

theorem CountsFrom.step (h : d.CountsFrom low) (hstep : Step d d') : d'.CountsFrom low := by
  cases hstep with
  | symbol description =>
    cases hlookup : d.graph.shared.lookup description with
    | some s => rwa [sharedSymbol_of_lookup hlookup]
    | none =>
      rw [sharedSymbol_of_new hlookup]
      exact ⟨Nat.le_succ_of_le h.next, List.forall_mem_append.2 ⟨h.table, List.forall_mem_singleton.2 h.next⟩⟩
  | callable => exact ⟨h.next, h.table⟩
  | register => exact ⟨h.next, h.table⟩
  | add => exact ⟨h.next, h.table⟩

theorem CountsFrom.steps (h : d.CountsFrom low) (hsteps : Steps d d') : d'.CountsFrom low := by
  induction hsteps with
  | refl => exact h
  | tail _ hstep ih => exact ih.step hstep

end Draft

namespace Document

variable (v : Yaml) (s : Supply)

/-- A symbol is loaded as the one that the table has under its description. -/
theorem exists_symbol {part : Task} {last : Draft} {inner : Yaml} (hvalue : part.value = .tagged symbolTag inner)
    (hclass : part.className = none) (hin : part.Within s last) :
    ∃ symbol, part.run.1 = .symbol symbol ∧ (labelText inner, symbol) ∈ last.graph.shared := by
  have hmakes := Task.makes_run hclass
  rw [hvalue] at hmakes
  generalize part.run.1 = x at hmakes ⊢
  cases hmakes with
  | scalar h => cases h
  | @symbol _ symbol h => exact ⟨symbol, rfl, hin.after.shared_subset h⟩
  | other _ hne => exact absurd rfl (hne inner)

/-- A search for another symbol reports nothing where a symbol stands. -/
theorem places_ne_of_symbol {symbol other : Symbol} {way : Way}
    (hwalk : (ofYaml v s).1.graph.Walk Scope.everything.CanCross (ofYaml v s).1.root way (.symbol symbol))
    (hne : symbol.id ≠ other.id) {n : Nat} {log : ReadLog} :
    ∀ h ∈ ((ofYaml v s).1.graph.search (ofYaml v s).1.root
      { Query.plain .value (.exact (.symbol other)) with maxResults := n } log).hits, h.places ≠ way.places := by
  intro h hh hplaces
  obtain ⟨⟨way', hsucceeds⟩, -⟩ := Graph.succeeds_of_mem_allHits (Graph.mem_allHits_of_mem_search hh)
  obtain ⟨-, hvalue⟩ :=
    (steady_ofYaml v s).walk_unique hsucceeds.walk hwalk (hsucceeds.places.symm.trans hplaces)
  obtain ⟨hchecks, hpasses⟩ := And.intro hsucceeds.checks hsucceeds.passes
  unfold Hit.Passes at hpasses
  cases hkind : h.kind with
  | value =>
    rw [hkind, hvalue] at hpasses
    exact hne (Symbol.beq_iff.1 hpasses.2)
  | key =>
    rw [hkind] at hchecks
    cases hchecks
  | type =>
    rw [hkind] at hchecks
    cases hchecks

/-- A search for the value that a text reads as finds it wherever it stands below the root,
but if it is a symbol, finds none of those that stand there. -/
theorem search_finds_scalar {text : String} {x : Yaml} (hread : Yaml.parse? text = some x)
    {c : Criterion} {later : Supply} (hcriterion : Criterion.ofScalarText text s = (c, later))
    {v : Yaml} {turns : List Turn} (hat : v.At turns x) (hne : turns ≠ []) {n : Nat} {log : ReadLog}
    (hlimit : (ofYaml v later).1.graph.LimitSuffices (ofYaml v later).1.root
      { Query.plain .value c with maxResults := n } log) :
    let doc := (ofYaml v later).1
    let hits := (doc.graph.search doc.root { Query.plain .value c with maxResults := n } log).hits
    (∀ value, x.scalar? = some value → value.isNaN = false →
      ∃ way, doc.graph.Walk Scope.everything.CanCross doc.root way value ∧
        List.Forall₂ (Turn.LeadsTo doc.graph) turns way ∧ ⟨way.path, way.places, value, .value⟩ ∈ hits) ∧
    ∀ inner, x = .tagged symbolTag inner →
      ∃ way symbol, doc.graph.Walk Scope.everything.CanCross doc.root way (.symbol symbol) ∧
        List.Forall₂ (Turn.LeadsTo doc.graph) turns way ∧ symbol.label = labelText inner ∧
        ∀ h ∈ hits, h.places ≠ way.places := by
  intro doc hits
  obtain ⟨way, part, hwalk, hturns, hvalue, hclass, hin⟩ := exists_walk_of_at later hat
  refine ⟨fun value hscalar hnan => ?_, fun inner hx => ?_⟩
  · have hrun := run_of_scalar hclass (hvalue ▸ hscalar)
    rw [hrun] at hwalk
    rw [ofScalarText_of_scalar s hread hscalar] at hcriterion
    obtain ⟨rfl, rfl⟩ := Prod.mk.inj hcriterion
    obtain ⟨turn, rest, rfl⟩ := List.exists_cons_of_ne_nil hne
    have hway : way ≠ [] := by
      rintro rfl
      cases hturns
    have hsucceeds : Hit.Succeeds ⟨way.path, way.places, value, .value⟩ doc.graph
        { Query.plain .value (.exact value) with maxResults := n } doc.root way :=
      ⟨hwalk, rfl, rfl, rfl, hway, value.beq_self hnan⟩
    exact ⟨way, hwalk, hturns,
      mem_search_of_succeeds v _ rfl hlimit (isNullish_root hwalk hturns) hsucceeds⟩
  · subst hx
    rw [ofScalarText_of_symbol s hread] at hcriterion
    obtain ⟨rfl, rfl⟩ := Prod.mk.inj hcriterion
    obtain ⟨symbol, hrun, hshared⟩ := exists_symbol _ hvalue hclass hin
    rw [hrun] at hwalk
    have hcounts := ((Draft.countsFrom_empty _).steps hin.steps).table _ hshared
    have hsound := ((Draft.sound_empty _).steps hin.steps).described _ hshared
    refine ⟨way, symbol, hwalk, hturns, ?_, places_ne_of_symbol v _ hwalk ?_⟩
    · rw [Symbol.label, hsound]
      rfl
    · exact Nat.ne_of_gt hcounts

/-- The number, after the string that is written like it. -/
def numbered : Yaml := .sequence [.string "42", .integer 42]

theorem ofYaml_numbered : (ofYaml numbered .initial).1 =
    ⟨{ Graph.empty with nodes := #[.sequence [.string "42", .number (.integer 42)]] }, .node ⟨0⟩⟩ := by
  rfl

theorem search_finds_scalar_numbered :
    let doc := (ofYaml numbered .initial).1
    let q := Query.plain .value (.exact (.number (.integer 42)))
    (Yaml.parse? "42" = some (.integer 42) ∧ numbered.At [.item 1] (.integer 42) ∧
      Criterion.ofScalarText "42" .initial = (q.criterion, .initial) ∧ doc.graph.LimitSuffices doc.root q []) ∧
    ∃ way : Way, List.Forall₂ (Turn.LeadsTo doc.graph) [.item 1] way ∧
      ⟨way.path, way.places, .number (.integer 42), .value⟩ ∈ (doc.graph.search doc.root q []).hits := by
  intro doc q
  have hread : Yaml.parse? "42" = some (.integer 42) := by rfl
  have hcriterion : Criterion.ofScalarText "42" .initial = (q.criterion, .initial) :=
    ofScalarText_of_scalar .initial hread rfl
  have hat : numbered.At [.item 1] (.integer 42) := .turn (.part (.item rfl)) (.here _)
  have hlimit : doc.graph.LimitSuffices doc.root q [] := by
    refine Graph.limitSuffices_of_length_le ?_
    simp only [doc, q, ofYaml_numbered]
    cbv
  refine ⟨⟨hread, hat, hcriterion, hlimit⟩, ?_⟩
  obtain ⟨hscalar, -⟩ := search_finds_scalar .initial hread hcriterion hat (List.cons_ne_nil _ _) hlimit
  obtain ⟨way, -, hturns, hhit⟩ := hscalar _ rfl rfl
  exact ⟨way, hturns, hhit⟩

theorem eq_of_same_tagged {name text : String} {x : Yaml} (h : same (.tagged name (.string text)) x = true) :
    x = .tagged name (.string text) := by
  cases x with
  | tagged other w => cases w <;> simp_all [same]
  | _ => simp [same] at h

/-- A symbol in a field of a record. -/
def referring : Yaml := .mapping [(.string "ref", .tagged symbolTag (.string "a"))]

/-- The text of a symbol does not find it. -/
theorem search_misses_symbol :
    let c := Criterion.ofScalarText "!symbol a" .initial
    let doc := (ofYaml referring c.2).1
    (Yaml.parse? "!symbol a" = some (.tagged symbolTag (.string "a")) ∧
      referring.At [.field (.string "ref")] (.tagged symbolTag (.string "a"))) ∧
    (doc.graph.search doc.root (Query.plain .value c.1) []).hits = [] := by
  have hread : Yaml.parse? "!symbol a" = some (.tagged symbolTag (.string "a")) := by
    have hsame : (Yaml.parse? "!symbol a").any (same (.tagged symbolTag (.string "a"))) = true := by
      decide +kernel
    obtain ⟨x, hx, hsame⟩ := (Option.any_eq_true _ _).1 hsame
    rw [hx, eq_of_same_tagged hsame]
  intro c doc
  have hat : referring.At [.field (.string "ref")] (.tagged symbolTag (.string "a")) := by
    refine .turn (.part (.field (i := 0) ?_ (List.pairwise_singleton ..) rfl ?_)) (.here _)
    · simp [IsRecordKey]
    · simp
  refine ⟨⟨hread, hat⟩, ?_⟩
  have hc : c = (.exact (.symbol ⟨0, some "a"⟩), ⟨1, 0, 0⟩) := ofScalarText_of_symbol .initial hread
  have hdoc : (ofYaml referring ⟨1, 0, 0⟩).1 = ⟨{ Graph.empty with
    nodes := #[.record ⟨none, [(.name "ref", ⟨.stored (.symbol ⟨1, some "a"⟩), true⟩)], by decide⟩],
    shared := [("a", ⟨1, some "a"⟩)] }, .node ⟨0⟩⟩ := rfl
  simp only [doc, hc, hdoc]
  cbv

end Document

end ObjectGraph
