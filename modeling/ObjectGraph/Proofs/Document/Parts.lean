-- SUMMARY: Searches of a document: a depth bound keeps what is within it, a part is found as in the whole.
import ObjectGraph.Proofs.Document.Forest
import ObjectGraph.Proofs.Path.Joined
import ObjectGraph.Proofs.Search.Tree

/-! # Searching parts of a document

A document is a tree below its root, so what a search finds at a slot does not
depend on where else it has been. A search to a bounded depth finds what the
unbounded one finds within the bound (`Document.search_keeps_within`), and one
that starts at a slot finds what the search from the root finds there and below
(`Document.search_finds_part`).
-/

namespace ObjectGraph

namespace Document

/-! ## Down to a depth -/

/-- A depth bound keeps exactly the hits within it, in their order. -/
theorem search_keeps_within (v : Yaml) (s : Supply) (q : Query) {depth : Nat} (hdepth : 0 < depth)
    {log : ReadLog}
    (hlimit : (ofYaml v s).1.graph.LimitSuffices (ofYaml v s).1.root { q with maxDepth := 0 } log)
    (log' : ReadLog) :
    let doc := (ofYaml v s).1
    (doc.graph.search doc.root { q with maxDepth := depth } log').hits =
      (doc.graph.search doc.root { q with maxDepth := 0 } log).hits.filter (Hit.isWithin depth) := by
  intro doc
  have hg : doc.graph.Steady := steady_ofYaml v s
  have htree : doc.graph.TreeBelow doc.root := treeBelow_ofYaml v s
  exact Graph.search_hits_within hg htree hdepth hlimit log'

/-- A record in a sequence in a record. -/
def nested : Yaml :=
  .mapping [(.string "x", .sequence [.string "x", .mapping [(.string "x", .string "y")]])]

theorem ofYaml_nested : (ofYaml nested .initial).1 = ⟨{ Graph.empty with
    nodes := #[
      .record ⟨none, [(.name "x", ⟨.stored (.string "y"), true⟩)], by decide⟩,
      .sequence [.string "x", .node ⟨0⟩],
      .record ⟨none, [(.name "x", ⟨.stored (.node ⟨1⟩), true⟩)], by decide⟩] }, .node ⟨2⟩⟩ := by
  rfl

/-- The type of the inner record would be tested at the end of a path of two
steps, where it may no longer be entered. -/
theorem search_keeps_within_nested :
    let doc := (ofYaml nested .initial).1
    let q := Query.plain .type (.exact (.string "object"))
    (0 < 2 ∧ doc.graph.LimitSuffices doc.root { q with maxDepth := 0 } []) ∧
    (doc.graph.search doc.root { q with maxDepth := 2 } []).hits.map Hit.path = [[], [.field "x"]] := by
  intro doc q
  have hlimit : doc.graph.LimitSuffices doc.root { q with maxDepth := 0 } [] := by
    refine Graph.limitSuffices_of_length_le ?_
    simp only [doc, q, ofYaml_nested]
    cbv
  have hhits : (doc.graph.search doc.root { q with maxDepth := 0 } []).hits =
      [⟨[], [], .node ⟨2⟩, .type⟩, ⟨[.field "x"], [0], .node ⟨1⟩, .type⟩,
        ⟨[.field "x", .index 1], [0, 1], .node ⟨0⟩, .type⟩] := by
    simp only [doc, q, ofYaml_nested]
    cbv
  refine ⟨⟨by decide, hlimit⟩, ?_⟩
  have hwithin := search_keeps_within nested .initial q (by decide : 0 < 2) hlimit []
  rw [hwithin, hhits]
  decide

/-! ## From a slot -/

/-- What a search from the root finds at a slot and below it, but for the tests of
the key and the value of the slot itself, is what a search from the value of the
slot finds, with the way to the slot before each path. And whatever a written
path leads to is the value of some slot. -/
theorem search_finds_part (v : Yaml) (s : Supply) {q : Query} (hscope : q.toScope = .everything)
    {log : ReadLog} (hlimit : (ofYaml v s).1.graph.LimitSuffices (ofYaml v s).1.root q log) :
    let doc := (ofYaml v s).1
    let hits := (doc.graph.search doc.root q log).hits
    (∀ way x, doc.graph.Walk q.toScope.CanCross doc.root way x → x.isNullish = false →
      (∀ log', hits.filter (Hit.isBelow way) = (doc.graph.search x q log').hits.map (Hit.under way)) ∧
      ∀ h ∈ hits, h.isBelow way = true ↔
        ∃ rest, h.FoundAlong doc.graph q.toScope doc.root (way ++ rest) ∧
          (rest ≠ [] ∨ h.kind = .type)) ∧
    (∀ text x log', (doc.graph.resolveText doc.root text log').1 = some x →
      ∃ way, doc.graph.Walk q.toScope.CanCross doc.root way x) := by
  intro doc hits
  have hg : doc.graph.Steady := steady_ofYaml v s
  have htree : doc.graph.TreeBelow doc.root := treeBelow_ofYaml v s
  have hdepth : q.maxDepth = 0 := congrArg Scope.maxDepth hscope
  refine ⟨fun way x hwalk hx => ⟨fun log' => ?_, fun h hh => ?_⟩, fun text x log' hresolve => ?_⟩
  · exact Graph.search_hits_below hg htree hdepth hlimit hwalk hx log'
  · have hfound := Graph.exists_foundAlong (Graph.mem_allHits_of_mem_search hh)
    exact Graph.isBelow_iff_foundAlong hg hfound hwalk
  · rw [hscope]
    exact Graph.exists_walk_of_resolve hresolve

/-- The walk to the sequence. -/
theorem exists_walk_nested : ∃ way,
    (ofYaml nested .initial).1.graph.Walk Scope.everything.CanCross (ofYaml nested .initial).1.root way
      (.node ⟨1⟩) ∧ way.places = [0] := by
  rw [ofYaml_nested]
  exact ⟨_, .cross (x := ⟨⟨2⟩, _, 0, _⟩) ⟨rfl, rfl⟩ ⟨rfl, [], rfl⟩ (.here _), rfl⟩

/-- The key of the slot is a hit of the whole search only. -/
theorem search_finds_part_nested :
    let doc := (ofYaml nested .initial).1
    let q := Query.plain .all (.exact (.string "x"))
    (q.toScope = .everything ∧ doc.graph.LimitSuffices doc.root q []) ∧
    (doc.graph.search doc.root q []).hits.map Hit.path =
      [[.field "x"], [.field "x", .index 0], [.field "x", .index 1, .field "x"]] ∧
    ∃ way, doc.graph.Walk q.toScope.CanCross doc.root way (.node ⟨1⟩) ∧
      ((doc.graph.search (.node ⟨1⟩) q []).hits.map (Hit.under way)).map Hit.path =
        [[.field "x", .index 0], [.field "x", .index 1, .field "x"]] := by
  intro doc q
  have hlimit : doc.graph.LimitSuffices doc.root q [] := by
    refine Graph.limitSuffices_of_length_le ?_
    simp only [doc, q, ofYaml_nested]
    cbv
  have hhits : (doc.graph.search doc.root q []).hits =
      [⟨[.field "x"], [0], .node ⟨1⟩, .key⟩, ⟨[.field "x", .index 0], [0, 0], .string "x", .value⟩,
        ⟨[.field "x", .index 1, .field "x"], [0, 1, 0], .string "y", .key⟩] := by
    simp only [doc, q, ofYaml_nested]
    cbv
  obtain ⟨way, hwalk, hplaces⟩ := exists_walk_nested
  obtain ⟨hpart, -⟩ := search_finds_part nested .initial (q := q) rfl hlimit
  refine ⟨⟨rfl, hlimit⟩, by rw [hhits]; rfl, way, hwalk, ?_⟩
  rw [← (hpart way _ hwalk rfl).1 [], hhits]
  simp [Hit.isBelow, hplaces]

end Document

end ObjectGraph
