-- SUMMARY: A record without class whose fields are stored may as well be a map: a search finds the same.
import ObjectGraph.Proofs.Search.Correspondence

/-! # Records as maps

A record of stored fields is a map if it has no class: its names become strings,
its symbols stay what they are (`Record.toEntries`). A search tells the two apart in
two ways only: it writes the steps out of a map as look-ups (`Step.asLookup`), and it
knows the one from the other when it is asked for maps. In all else it finds the same,
in the same order (`Graph.search_record_as_map`).
-/

namespace ObjectGraph

/-! ## Fields as entries -/

/-- The stored fields as the entries of a map. -/
def Record.toEntries (r : Record) : List (Value × Value) :=
  r.fields.filterMap fun (key, p) =>
    match p.content with
    | .stored v => some (key.toValue, v)
    | .computed _ => none

/-- A field key becomes the entry key of its value. -/
def SlotKey.asEntry : SlotKey → SlotKey
  | .field key => .entry key.toValue
  | key => key

/-- A name or a symbol is looked up in a map. -/
def Step.asLookup : Step → Step
  | .field name => .entry name false
  | .symbol description => .entry description true
  | step => step

theorem SlotKey.step_asEntry (key : SlotKey) : key.asEntry.step = key.step.asLookup := by
  cases key with
  | field key => cases key <;> rfl
  | index => rfl
  | entry key => cases key <;> rfl

/-- A key passes the same tests in a record and in a map. -/
theorem Criterion.matchesSlotKey_asEntry (c : Criterion) (key : SlotKey) :
    c.matchesSlotKey key.asEntry = c.matchesSlotKey key := by
  cases key with
  | field key =>
    cases key with
    | name name =>
      cases c with
      | exact expected => cases expected <;> rfl
      | _ => rfl
    | symbol s => cases c <;> rfl
  | _ => rfl

theorem Container.slots_toEntries {r : Record} (hstored : ∀ field ∈ r.fields, field.2.content.IsStored) :
    (Container.map r.toEntries).slots =
      (Container.record r).slots.map fun slot => ⟨slot.key.asEntry, slot.content⟩ := by
  simp only [slots, Record.toEntries, List.map_map]
  generalize r.fields = fields at hstored
  induction fields with
  | nil => rfl
  | cons field rest ih =>
    obtain ⟨key, content, visible⟩ := field
    obtain ⟨⟨v, hv⟩, hrest⟩ := List.forall_mem_cons.1 hstored
    obtain rfl : content = .stored v := hv
    exact congrArg (_ :: ·) (ih hrest)

/-! ## The map in place of the record -/

/-- The slots of a container become the entries of a map. -/
def SlotMap.asEntries (id : NodeId) (entries : List (Value × Value)) : SlotMap where
  keeps _ := true
  image x :=
    if x.parent = id then { x with container := .map entries, slot := ⟨x.slot.key.asEntry, x.slot.content⟩ }
    else x

/-- The path of a way, if the container at a place is a map. -/
def Way.pathAsMap (id : NodeId) (way : Way) : Path :=
  way.map fun x => if x.parent = id then x.slot.key.step.asLookup else x.slot.key.step

section

variable {id : NodeId} {entries : List (Value × Value)}

theorem SlotMap.content_asEntries (x : Child) :
    ((asEntries id entries).image x).slot.content = x.slot.content := by
  simp only [asEntries]
  split <;> rfl

theorem SlotMap.position_asEntries (x : Child) : ((asEntries id entries).image x).position = x.position := by
  simp only [asEntries]
  split <;> rfl

theorem SlotMap.key_asEntries (x : Child) :
    ((asEntries id entries).image x).slot.key = if x.parent = id then x.slot.key.asEntry else x.slot.key := by
  simp only [asEntries]
  split <;> rfl

theorem Way.path_asEntries (way : Way) :
    Way.path (way.map (SlotMap.asEntries id entries).image) = way.pathAsMap id := by
  rw [Way.path, List.map_map, Way.pathAsMap]
  refine List.map_congr_left fun x _ => ?_
  rw [Function.comp_apply, SlotMap.key_asEntries]
  split
  · exact x.slot.key.step_asEntry
  · rfl

theorem Way.places_asEntries (way : Way) :
    Way.places (way.map (SlotMap.asEntries id entries).image) = way.places := by
  rw [Way.places, List.map_map]
  exact List.map_congr_left fun x _ => SlotMap.position_asEntries x

end

namespace Graph

open Search

variable {g : Graph} {id : NodeId} {r : Record} {s : Scope} {q : Query} {target : Value}

theorem corresponds_asEntries (hnode : g.node? id = some (.record r))
    (hstored : ∀ field ∈ r.fields, field.2.content.IsStored) :
    g.Corresponds (.asEntries id r.toEntries) (g.put id (.map r.toEntries)) := by
  refine corresponds_put hnode ?_ fun x hx => ⟨rfl, if_neg hx⟩
  have hkeeps : ((Container.record r).children id).filter (SlotMap.asEntries id r.toEntries).keeps =
      (Container.record r).children id := List.filter_eq_self.2 fun _ _ => rfl
  rw [hkeeps]
  simp only [Container.children, Container.slots_toEntries hstored, List.mapIdx_eq_zipIdx_map,
    List.zipIdx_map, List.map_map]
  exact List.map_congr_left fun slot _ => (if_pos rfl).symm

theorem readsAlike_asEntries (id : NodeId) (entries : List (Value × Value))
    (hfilter : ∀ c key, s.accepts c key = true) :
    ReadsAlike g s (.asEntries id entries) fun front log' => front.log = log' where
  kept {seen log p rest log'} hlog _ := by
    obtain rfl : log = log' := hlog
    have hlook : (p.image (.asEntries id entries)).look s log = p.look s log :=
      Pending.look_congr (by rw [hfilter, hfilter]) (SlotMap.content_asEntries p.child) log
    rw [hlook]
    exact ⟨rfl, Front.next_log⟩
  leftOut _ hkeeps := by cases hkeeps

/-- Whatever is not asked for by the tag of maps passes the same tests. -/
theorem testsAlike_asEntries {c : Criterion} (hnode : g.node? id = some (.record r))
    (hclass : r.className = none) (hc : c ≠ .type .map) :
    TestsAlike g c (.asEntries id r.toEntries) (g.put id (.map r.toEntries)) where
  key x := by
    rw [SlotMap.key_asEntries]
    split
    · exact c.matchesSlotKey_asEntry _
    · rfl
  type v := matchesType_congr fun tag htag =>
    have hmap : tag ≠ .map := fun heq => hc (heq ▸ htag)
    isInstance_put hnode (.map r.toEntries) hclass.symm (fun _ => rfl) (fun heq => absurd heq hmap) v

/-- If a record without class, whose fields are all stored, is replaced by the map with
the same entries, a search without filter finds the same in the same order, unless it
asks for maps. Only the steps out of that container are written as look-ups. -/
theorem search_record_as_map (hnode : g.node? id = some (.record r)) (hclass : r.className = none)
    (hstored : ∀ field ∈ r.fields, field.2.content.IsStored)
    (hfilter : ∀ c key, q.accepts c key = true) (hcriterion : q.criterion ≠ .type .map) (log : ReadLog) :
    List.Forall₂
      (fun hit hit' => ∃ way, hit.FoundBy g target q.toScope log way ∧
        hit' = { hit with path := way.pathAsMap id })
      (g.search target q log).hits ((g.put id (.map r.toEntries)).search target q log).hits := by
  have hhits := search_image (corresponds_asEntries hnode hstored)
    (readsAlike_asEntries id r.toEntries hfilter) (testsAlike_asEntries hnode hclass hcriterion)
    fun _ _ (_ : target = _) _ => (rfl : log = log)
  refine hhits.imp fun hit hit' ⟨way, hfound, heq⟩ => ⟨way, hfound, ?_⟩
  rw [heq, Hit.along, Way.path_asEntries, Way.places_asEntries, ← hfound.places]

/-- A name and a symbol that are called alike. -/
def homonyms : Record :=
  ⟨none, [
    (.name "x", ⟨.stored (.string "x"), true⟩),
    (.symbol ⟨0, some "x"⟩, ⟨.stored (.node ⟨1⟩), false⟩)], by decide⟩

/-- A record and a sequence that hold each other. -/
def knot : Graph :=
  { empty with nodes := #[.record homonyms, .sequence [.node ⟨0⟩, .string "x"]] }

/-- The steps out of the record change and the step out of the sequence does not. -/
theorem search_record_as_map_knot :
    let q := Query.plain .all (.exact (.string "x"))
    let hits : List Hit :=
      [⟨[.field "x"], [0], .string "x", .key⟩,
        ⟨[.field "x"], [0], .string "x", .value⟩,
        ⟨[.symbol "x"], [1], .node ⟨1⟩, .key⟩,
        ⟨[.symbol "x", .index 1], [1, 1], .string "x", .value⟩]
    let hits' : List Hit :=
      [⟨[.entry "x" false], [0], .string "x", .key⟩,
        ⟨[.entry "x" false], [0], .string "x", .value⟩,
        ⟨[.entry "x" true], [1], .node ⟨1⟩, .key⟩,
        ⟨[.entry "x" true, .index 1], [1, 1], .string "x", .value⟩]
    (knot.node? ⟨0⟩ = some (.record homonyms) ∧ homonyms.className = none ∧
      (∀ field ∈ homonyms.fields, field.2.content.IsStored) ∧
      (∀ c key, q.accepts c key = true) ∧ q.criterion ≠ .type .map) ∧
    (knot.search (.node ⟨0⟩) q []).hits = hits ∧
    ((knot.put ⟨0⟩ (.map homonyms.toEntries)).search (.node ⟨0⟩) q []).hits = hits' ∧
    List.Forall₂
      (fun hit hit' => ∃ way, hit.FoundBy knot (.node ⟨0⟩) q.toScope [] way ∧
        hit' = { hit with path := way.pathAsMap ⟨0⟩ }) hits hits' := by
  intro q hits hits'
  have hnode : knot.node? ⟨0⟩ = some (.record homonyms) := rfl
  have hstored : ∀ field ∈ homonyms.fields, field.2.content.IsStored := by
    simp [homonyms, Content.IsStored]
  have hcriterion : q.criterion ≠ .type .map := fun heq => by cases heq
  have hsearch : (knot.search (.node ⟨0⟩) q []).hits = hits := by cbv
  have hsearch' : ((knot.put ⟨0⟩ (.map homonyms.toEntries)).search (.node ⟨0⟩) q []).hits = hits' := by cbv
  refine ⟨⟨hnode, rfl, hstored, fun _ _ => rfl, hcriterion⟩, hsearch, hsearch', ?_⟩
  rw [← hsearch, ← hsearch']
  exact search_record_as_map hnode rfl hstored (fun _ _ => rfl) hcriterion []

end Graph

end ObjectGraph
