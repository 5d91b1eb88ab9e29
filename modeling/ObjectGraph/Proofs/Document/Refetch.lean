-- SUMMARY: The hits of a document can be fetched again where its maps find their entries by what is written.
import ObjectGraph.Proofs.Document.Loading
import ObjectGraph.Proofs.Path.Joined
import ObjectGraph.Proofs.Search.Exact
import ObjectGraph.Proofs.Search.Replay

/-! # Fetching hits again

In a document the path of a hit leads back to its value unless it passes a map
in which another entry answers to the written form of a key, or none does: the
number 42 and the string `42` are written alike, and so are 1 and 1.0, and a key
that is a container is not found at all. Records and sequences are never
ambiguous, since symbols are interned. So all hits of a document can be fetched
again exactly if every entry of its maps is found by the written form of its key
(`Document.fetches_iff`), which is so where keys are scalars that are displayed
differently (`Document.fetchesAll_of_distinctlyKeyed`).
-/

namespace ObjectGraph

namespace Value

def isNaN : Value → Bool
  | .number n => n.isNaN
  | _ => false

theorem beq_self {v : Value} (h : v.isNaN = false) : (v == v) = true := by
  cases v with
  | number n =>
    cases n with
    | integer n => simp [BEq.beq, equals, Number.equals]
    | float x => exact (Binary64.equals_self_iff x).2 h
  | _ => simp [BEq.beq, equals]

theorem eq_node_of_beq {v : Value} {id : NodeId} (h : (v == .node id) = true) : v = .node id := by
  cases v with
  | node other => exact congrArg Value.node (eq_of_beq h)
  | _ => cases h

theorem symbol?_eq_some_iff {v : Value} {s : Symbol} : v.symbol? = some s ↔ v = .symbol s := by
  cases v <;> simp [symbol?]

end Value

theorem Key.symbol?_eq_some_iff {key : Key} {s : Symbol} : key.symbol? = some s ↔ key = .symbol s := by
  cases key <;> simp [symbol?]

theorem Content.IsStored.eq_of_canGive {c : Content} {v : Value} (h : c.IsStored) (hv : c.CanGive v) :
    c = .stored v := by
  obtain ⟨w, rfl⟩ := h
  obtain ⟨log, hread⟩ := hv
  injection hread with hread
  rw [hread]

/-! ## Finding a slot again -/

/-- The written form of the key leads to a value that equals that of the slot. -/
def Child.FindsAgain (x : Child) : Prop :=
  ∀ v, x.slot.content = .stored v → v.isNaN = false →
    ∃ w, x.container.locate x.slot.key.step = some (.stored w) ∧ (w == v) = true

theorem Child.findsAgain_of_locate {x : Child}
    (h : x.container.locate x.slot.key.step = some x.slot.content) : x.FindsAgain :=
  fun v hcontent hnan => ⟨v, hcontent ▸ h, v.beq_self hnan⟩

/-- The look-up of a written map key finds what is stored. -/
theorem Container.isStored_of_locate_entry {c : Container} {key : Value} {content : Content}
    (h : c.locate (SlotKey.entry key).step = some content) : content.IsStored := by
  cases c with
  | map entries =>
    cases key <;> obtain ⟨v, -, rfl⟩ := Option.map_eq_some_iff.1 h <;> exact ⟨v, rfl⟩
  | _ => cases key <;> cases h

namespace Graph

variable {g : Graph} {s : Scope} {leads : Child → Value → Prop} {target u v : Value} {way : Way}

/-! ## Resolving -/

theorem locate_node {id : NodeId} {c : Container} (hnode : g.node? id = some c) (step : Step) :
    g.locate (.node id) step = c.locate step := by
  simp [locate, Value.node?, hnode]

theorem resolve_cons_of_stored {id : NodeId} {c : Container} {step : Step} (hnode : g.node? id = some c)
    (hlocate : c.locate step = some (.stored v)) (rest : Path) (log : ReadLog) :
    g.resolve (.node id) (step :: rest) log = g.resolve v rest log := by
  rw [resolve, locate_node hnode, hlocate]
  rfl

/-- Where contents are stored and each slot of a walk is found again, the path
of the walk leads to a value that equals its end. -/
theorem exists_resolve_of_walk (hstored : ∀ x, g.Has x → x.slot.content.IsStored)
    (hwalk : g.Walk s.CanCross u way v) (hfinds : ∀ x ∈ way, x.FindsAgain) (hnan : v.isNaN = false)
    (log : ReadLog) : ∃ w, (g.resolve u way.path log).1 = some w ∧ (w == v) = true := by
  induction hwalk generalizing log with
  | here v => exact ⟨v, rfl, v.beq_self hnan⟩
  | @cross x next v rest hx hcross hrest ih =>
    obtain ⟨hfirst, hlater⟩ := List.forall_mem_cons.1 hfinds
    have hcontent : x.slot.content = .stored next := (hstored x hx).eq_of_canGive hcross.2
    have hnext : next.isNaN = false := by
      cases hrest with
      | here => exact hnan
      | cross => rfl
    obtain ⟨w, hlocate, hw⟩ := hfirst next hcontent hnext
    have hresolve : g.resolve (.node x.parent) (Way.path (x :: rest)) log =
        g.resolve w (Way.path rest) log := resolve_cons_of_stored hx.node hlocate _ log
    rw [hresolve]
    -- a value that is crossed is a reference, and equal references are the same
    cases hrest with
    | here => exact ⟨w, rfl, hw⟩
    | cross _ _ _ =>
      obtain rfl := Value.eq_node_of_beq hw
      exact ih hlater hnan log

end Graph

/-! ## Records and sequences -/

namespace Graph

/-- The keys before a field are those of other fields, and unequal to its own. -/
theorem Has.field_of_mem_earlierKeys {g : Graph} {x : Child} (hx : g.Has x) {key : Key}
    (hkey : x.slot.key = .field key) {other : SlotKey} (hother : other ∈ x.earlierKeys) :
    ∃ y key', g.Has y ∧ y.slot.key = .field key' ∧ other = .field key' ∧ (key' == key) = false := by
  rcases hx.cases with ⟨id, r, i, k, p, hfield, rfl⟩ | ⟨id, items, i, item, hitem, rfl⟩ |
    ⟨id, entries, i, k, value, hentry, rfl⟩
  · obtain rfl : k = key := SlotKey.field.inj hkey
    obtain ⟨⟨k', p'⟩, hfield', rfl⟩ := Child.mem_earlierKeys_record.1 hother
    have hne := Record.beq_eq_false_of_mem_take hfield _ hfield'
    obtain ⟨j, hj⟩ := List.getElem?_of_mem (List.mem_of_mem_take hfield')
    refine ⟨⟨id, .record r, j, ⟨.field k', p'.content⟩⟩, k', ⟨hx.node, ?_⟩, rfl, rfl, hne⟩
    simp [Container.slots, hj]
  · cases hkey
  · cases hkey

end Graph

namespace Document

variable (v : Yaml) (s : Supply)

/-- No two symbols of one record have the same label. -/
theorem firstOfItsName_of_field {x : Child} (hx : (ofYaml v s).1.graph.Has x) {key : Key}
    (hkey : x.slot.key = .field key) : x.FirstOfItsName := by
  cases key with
  | name name => simp [Child.FirstOfItsName, hkey]
  | symbol a =>
    simp only [Child.FirstOfItsName, hkey]
    intro other hother b hb hlabel
    obtain ⟨y, key', hy, hkey', rfl, hne⟩ := hx.field_of_mem_earlierKeys hkey hother
    obtain rfl : key' = .symbol b := Key.symbol?_eq_some_iff.1 hb
    obtain rfl := eq_of_label_eq v s hy hx hkey' hkey hlabel
    simp [BEq.beq, Key.equals] at hne

/-- The slots of records and sequences are found again. -/
theorem findsAgain_of_not_entry {x : Child} (hx : (ofYaml v s).1.graph.Has x)
    (hkey : ∀ key, x.slot.key ≠ .entry key) : x.FindsAgain := by
  refine Child.findsAgain_of_locate (hx.locate_step ?_)
  cases hslot : x.slot.key with
  | field key => exact firstOfItsName_of_field v s hx hslot
  | index n => exact Child.firstOfItsName_of_step (.inr ⟨n, by rw [hslot]; rfl⟩)
  | entry key => exact absurd hslot (hkey key)

end Document

/-! ## Maps with distinct keys -/

/-- Every key is a scalar, and no two keys are displayed alike. -/
structure Container.DistinctlyKeyed (entries : List (Value × Value)) : Prop where
  scalar : ∀ entry ∈ entries, entry.1.isScalar = true
  distinct : (entries.map (·.1.display)).Nodup

theorem Container.DistinctlyKeyed.firstOfItsName {entries : List (Value × Value)}
    (h : DistinctlyKeyed entries) {id : NodeId} {i : Nat} {key v : Value}
    (hentry : entries[i]? = some (key, v)) :
    Child.FirstOfItsName ⟨id, .map entries, i, ⟨.entry key, .stored v⟩⟩ := by
  have hmem : (key, v) ∈ entries := List.mem_of_getElem? hentry
  have hearlier : ∀ other,
      .entry other ∈ Child.earlierKeys ⟨id, .map entries, i, ⟨.entry key, .stored v⟩⟩ →
        other.display ≠ key.display := by
    intro other hother
    obtain ⟨entry, hentry', heq⟩ := Child.mem_earlierKeys_map.1 hother
    exact SlotKey.entry.inj heq ▸ rel_of_mem_take (List.pairwise_map.1 h.distinct) hentry entry hentry'
  cases key with
  | symbol s =>
    intro other hother t ht hlabel
    obtain ⟨⟨key', _⟩, _, rfl⟩ := Child.mem_earlierKeys_map.1 hother
    obtain rfl : key' = .symbol t := Value.symbol?_eq_some_iff.1 ht
    exact hearlier _ hother (by simp [Value.display, Symbol.display, hlabel])
  | string text => exact fun hother => hearlier _ hother rfl
  | _ =>
    refine ⟨h.scalar _ hmem, fun slot hslot hkey => ?_, fun other hother _ => hearlier other hother⟩
    -- a string that is found first would be displayed like the key
    obtain ⟨⟨key', v'⟩, hmem', rfl⟩ := List.mem_map.1 hslot
    obtain rfl : key' = .string _ := SlotKey.entry.inj hkey
    cases List.inj_on_of_nodup_map h.distinct hmem' hmem rfl

/-! ## Asking for what is visited -/

namespace Graph

open Search

variable {g : Graph} {target u v : Value} {log : ReadLog}

/-- The value at a visited slot is reported by a search for it. -/
theorem exists_mem_search_of_mem_visits {visit : Visit}
    (hvisit : visit ∈ g.visits target Scope.everything log) (hnan : visit.value.isNaN = false) :
    ∃ q, ⟨visit.way.path, visit.way.places, visit.value, .value⟩ ∈ (g.search target q log).hits := by
  obtain ⟨id, _, rfl, _, _⟩ := visits_of_mem hvisit
  let q := Query.plain .value (.exact visit.value)
  have hmatches : q.criterion.matchesValue visit.value = true := Value.beq_self hnan
  have hh : ⟨visit.way.path, visit.way.places, visit.value, .value⟩ ∈ g.allHits (.node id) q log :=
    mem_allHits.2 (.inr ⟨visit, hvisit, Visit.mem_hits.2 ⟨rfl, rfl, rfl, hmatches⟩⟩)
  refine ⟨{ q with maxResults := (g.allHits (.node id) q log).length }, ?_⟩
  rw [search_hits rfl]
  exact (List.take_length (l := g.allHits (.node id) q log)).symm ▸ hh

theorem exists_canGive_of_resolve {step : Step} (h : (g.resolve u [step] log).1 = some v) :
    ∃ content, g.locate u step = some content ∧ content.CanGive v := by
  obtain ⟨content, next, log', hlocate, hread, hend⟩ := of_resolve_cons h
  obtain rfl : next = v := Option.some.inj hend
  exact ⟨content, hlocate, .of_read hread⟩

end Graph

/-! ## Documents -/

namespace Document

open Search

/-- Resolving the written path of the hit from the root gives a value equal to
that of the hit. A value that is no number equals nothing and is left out. -/
def Fetches (doc : Document) (h : Hit) : Prop :=
  h.value.isNaN = false → ∀ log,
    ∃ w, (doc.graph.resolveText doc.root h.path.write log).1 = some w ∧ (w == h.value) = true

/-- Every hit of every search from the root can be fetched again. -/
def FetchesAll (doc : Document) : Prop :=
  ∀ q log, ∀ h ∈ (doc.graph.search doc.root q log).hits, doc.Fetches h

/-- In every map that can be reached from the root, the written form of each key
leads to the value under the key. -/
def FindsEntries (doc : Document) : Prop :=
  ∀ x key, doc.graph.Reachable Scope.everything.CanCross doc.root x.parent → doc.graph.Has x →
    x.slot.key = .entry key → x.FindsAgain

variable {doc : Document} {log : ReadLog}

theorem FetchesAll.resolve_of_mem_visits (h : doc.FetchesAll) (haddr : doc.graph.Addressable)
    {visit : Visit} (hvisit : visit ∈ doc.graph.visits doc.root Scope.everything log)
    (hnan : visit.value.isNaN = false) (log' : ReadLog) :
    ∃ w, (doc.graph.resolve doc.root visit.way.path log').1 = some w ∧ (w == visit.value) = true := by
  obtain ⟨q, hh⟩ := Graph.exists_mem_search_of_mem_visits hvisit hnan
  have hfetches := h q log _ hh hnan log'
  rwa [Graph.resolveText, Path.read_write (haddr.path (Graph.walk_of_mem_visits hvisit))] at hfetches

theorem FetchesAll.resolve_of_enters (h : doc.FetchesAll) (haddr : doc.graph.Addressable)
    {id : NodeId} {way : Way} (henters : doc.graph.Enters doc.root Scope.everything log id way)
    (log' : ReadLog) : (doc.graph.resolve doc.root way.path log').1 = some (.node id) := by
  rcases henters with ⟨hroot, rfl⟩ | ⟨visit, hvisit, c, hopened, rfl⟩
  · rw [hroot]
    rfl
  · have hvalue : visit.value = .node id := (Graph.opened_of_mem_visits hvisit hopened).1
    obtain ⟨w, hresolve, hw⟩ := h.resolve_of_mem_visits haddr hvisit (hvalue ▸ rfl) log'
    rw [hvalue] at hw
    rw [hresolve, Value.eq_node_of_beq hw]

/-- The path of an entry ends in the step of its key; where the rest leads is
known, so the whole path tells where the step leads. -/
theorem FetchesAll.findsEntries (h : doc.FetchesAll) (haddr : doc.graph.Addressable)
    (hsteady : doc.graph.Steady) : doc.FindsEntries := by
  intro x key hreach hx hkey v hcontent hnan
  have hcross : Scope.everything.CanCross x v := ⟨rfl, [], by rw [hcontent]; rfl⟩
  obtain ⟨visit, hvisit, rfl, rfl⟩ := Graph.exists_visit_of_reachable [] hsteady rfl hreach hx hcross
  have hparent := h.resolve_of_enters haddr (Graph.enters_of_mem_visits hvisit) []
  obtain ⟨w, hresolve, hw⟩ := h.resolve_of_mem_visits haddr hvisit hnan []
  have hpath : visit.way.path = visit.pending.way.path ++ [visit.pending.child.slot.key.step] :=
    List.map_append
  rw [hpath, Graph.resolve_append] at hresolve
  rcases hend : doc.graph.resolve doc.root visit.pending.way.path [] with ⟨parent, log'⟩
  rw [hend] at hparent hresolve
  obtain rfl : parent = some (.node visit.pending.child.parent) := hparent
  obtain ⟨content, hlocate, hgive⟩ := Graph.exists_canGive_of_resolve hresolve
  rw [Graph.locate_node hx.node] at hlocate
  have hstored := Container.isStored_of_locate_entry (hkey ▸ hlocate)
  exact ⟨w, hstored.eq_of_canGive hgive ▸ hlocate, hw⟩

theorem fetches_of_foundAlong (haddr : doc.graph.Addressable)
    (hstored : ∀ x, doc.graph.Has x → x.slot.content.IsStored) {h : Hit} {s : Scope} {way : Way}
    (halong : h.FoundAlong doc.graph s doc.root way) (hfinds : ∀ x ∈ way, x.FindsAgain) :
    doc.Fetches h := by
  intro hnan log
  rw [Graph.resolveText, halong.path, Path.read_write (haddr.path halong.walk)]
  exact Graph.exists_resolve_of_walk hstored halong.walk hfinds hnan log

theorem findsEntries_of_distinctlyKeyed
    (h : ∀ id entries, doc.graph.node? id = some (.map entries) → Container.DistinctlyKeyed entries) :
    doc.FindsEntries := by
  intro x key _ hx hkey
  refine Child.findsAgain_of_locate (hx.locate_step ?_)
  rcases hx.cases with ⟨id, r, i, k, p, hfield, rfl⟩ | ⟨id, items, i, item, hitem, rfl⟩ |
    ⟨id, entries, i, k, value, hentry, rfl⟩
  · cases hkey
  · cases hkey
  · exact (h id entries hx.node).firstOfItsName hentry

variable (v : Yaml) (s : Supply)

theorem findsAgain_of_entries {x : Child} (hx : (ofYaml v s).1.graph.Has x)
    (hentry : ∀ key, x.slot.key = .entry key → x.FindsAgain) : x.FindsAgain := by
  by_cases h : ∃ key, x.slot.key = .entry key
  · obtain ⟨key, hkey⟩ := h
    exact hentry key hkey
  · exact findsAgain_of_not_entry v s hx fun key hkey => h ⟨key, hkey⟩

theorem exists_foundAlong_of_mem_search (haddr : (ofYaml v s).1.graph.Addressable) {q : Query}
    {log : ReadLog} {h : Hit}
    (hh : h ∈ ((ofYaml v s).1.graph.search (ofYaml v s).1.root q log).hits) :
    ∃ way, h.FoundAlong (ofYaml v s).1.graph q.toScope (ofYaml v s).1.root way ∧
      ((∀ x ∈ way, ∀ key, x.slot.key = .entry key → x.FindsAgain) → (ofYaml v s).1.Fetches h) := by
  obtain ⟨way, halong⟩ := Graph.exists_foundAlong (Graph.mem_allHits_of_mem_search hh)
  refine ⟨way, halong, fun hentries => ?_⟩
  refine fetches_of_foundAlong haddr (fun x => isStored_of_has v s) halong fun x hx => ?_
  exact findsAgain_of_entries v s (halong.walk.has x hx) (hentries x hx)

variable {v s} in
theorem FindsEntries.fetchesAll (hfinds : (ofYaml v s).1.FindsEntries)
    (haddr : (ofYaml v s).1.graph.Addressable) : (ofYaml v s).1.FetchesAll := by
  intro q log h hh
  obtain ⟨way, halong, hfetches⟩ := exists_foundAlong_of_mem_search v s haddr hh
  refine hfetches fun x hx key hkey => hfinds x key ?_ (halong.walk.has x hx) hkey
  have hreach := Graph.Reachable.of_mem_way (fun _ => .target) halong.walk x hx
  exact hreach.mono fun _ _ => Scope.CanCross.everything

/-- Where the keys of every map are scalars that are displayed differently, every
hit can be fetched again. -/
theorem fetchesAll_of_distinctlyKeyed (haddr : (ofYaml v s).1.graph.Addressable)
    (h : ∀ id entries, (ofYaml v s).1.graph.node? id = some (.map entries) →
      Container.DistinctlyKeyed entries) : (ofYaml v s).1.FetchesAll :=
  (findsEntries_of_distinctlyKeyed h).fetchesAll haddr

/-- A hit of a document can be fetched again if the entries of maps on the way to
it are found again; and all hits can exactly if all such entries are. -/
theorem fetches_iff (haddr : (ofYaml v s).1.graph.Addressable) :
    let doc := (ofYaml v s).1
    (∀ q log, ∀ h ∈ (doc.graph.search doc.root q log).hits,
      ∃ way, h.FoundAlong doc.graph q.toScope doc.root way ∧
        ((∀ x ∈ way, ∀ key, x.slot.key = .entry key → x.FindsAgain) → doc.Fetches h)) ∧
    (doc.FetchesAll ↔ doc.FindsEntries) := by
  intro doc
  refine ⟨fun q log h hh => exists_foundAlong_of_mem_search v s haddr hh, ?_, ?_⟩
  · exact fun hall => hall.findsEntries haddr (steady_ofYaml v s)
  · exact fun hfinds => hfinds.fetchesAll haddr

/-- A map of a boolean and a number. -/
def labelled : Yaml :=
  .mapping [(.boolean true, .string "yes"), (.integer 1, .sequence [.string "yes"])]

theorem nodes_labelled : (ofYaml labelled .initial).1.graph.nodes = #[.sequence [.string "yes"],
    .map [(.boolean true, .string "yes"), (.number (.integer 1), .node ⟨0⟩)]] := by
  rfl

theorem addressable_labelled : (ofYaml labelled .initial).1.graph.Addressable := by
  intro id items hnode
  obtain ⟨hi, hitems⟩ := Graph.node?_eq_some_iff.1 hnode
  have hmem := hitems ▸ Array.getElem_mem hi
  rw [nodes_labelled] at hmem
  obtain rfl : items = [.string "yes"] := by simpa using hmem
  decide

theorem distinctlyKeyed_labelled : ∀ id entries,
    (ofYaml labelled .initial).1.graph.node? id = some (.map entries) →
      Container.DistinctlyKeyed entries := by
  intro id entries hnode
  obtain ⟨hi, hentries⟩ := Graph.node?_eq_some_iff.1 hnode
  have hmem := hentries ▸ Array.getElem_mem hi
  rw [nodes_labelled] at hmem
  obtain rfl : entries = [(.boolean true, .string "yes"), (.number (.integer 1), .node ⟨0⟩)] := by
    simpa using hmem
  exact ⟨by decide, by decide⟩

theorem fetches_iff_labelled :
    (ofYaml labelled .initial).1.graph.Addressable ∧ (ofYaml labelled .initial).1.FetchesAll := by
  refine ⟨addressable_labelled, ?_⟩
  refine (fetches_iff labelled .initial addressable_labelled).2.2 ?_
  exact findsEntries_of_distinctlyKeyed distinctlyKeyed_labelled

/-- The number is written like the string before it, and the sequence is no scalar. -/
def clashing : Yaml :=
  .mapping [(.string "42", .string "text"), (.integer 42, .string "number"),
    (.sequence [.integer 1], .string "listed")]

theorem ofYaml_clashing : (ofYaml clashing .initial).1 = ⟨{ Graph.empty with
    nodes := #[.sequence [.number (.integer 1)],
      .map [(.string "42", .string "text"), (.number (.integer 42), .string "number"),
        (.node ⟨0⟩, .string "listed")]] }, .node ⟨1⟩⟩ := by
  rfl

/-- The path to one hit leads to another value, and that to a second one nowhere. -/
theorem not_fetchesAll_clashing :
    let doc := (ofYaml clashing .initial).1
    let hits := (doc.graph.search doc.root (.plain .type (.exact (.string "string"))) []).hits
    hits.map (fun h => (h.path, h.value)) =
      [([.entry "42" false], .string "text"), ([.entry "42" false], .string "number"),
        ([.entry "[object #0]" false], .string "listed")] ∧
    (doc.graph.resolveText doc.root (Path.write [.entry "42" false]) []).1 = some (.string "text") ∧
    (doc.graph.resolveText doc.root (Path.write [.entry "[object #0]" false]) []).1 = none ∧
    ¬ doc.FetchesAll := by
  intro doc hits
  have hhits : hits = [⟨[.entry "42" false], [0], .string "text", .type⟩,
      ⟨[.entry "42" false], [1], .string "number", .type⟩,
      ⟨[.entry "[object #0]" false], [2], .string "listed", .type⟩] := by
    simp only [hits, doc, ofYaml_clashing]
    cbv
  have htext : (doc.graph.resolveText doc.root (Path.write [.entry "42" false]) []).1 =
      some (.string "text") := by
    rw [Graph.resolveText, Path.read_write (by simp [Step.Addressable])]
    rfl
  have hlisted : (doc.graph.resolveText doc.root (Path.write [.entry "[object #0]" false]) []).1 =
      none := by
    rw [Graph.resolveText, Path.read_write (by simp [Step.Addressable])]
    rfl
  refine ⟨by rw [hhits]; rfl, htext, hlisted, fun hall => ?_⟩
  have hnumber : ⟨[.entry "42" false], [1], .string "number", .type⟩ ∈ hits := by simp [hhits]
  obtain ⟨w, hw, hequal⟩ := hall _ _ _ hnumber rfl []
  rw [htext] at hw
  obtain rfl := Option.some.inj hw
  cases hequal

end Document

end ObjectGraph
