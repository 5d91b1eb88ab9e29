-- SUMMARY: Maps that are made empty and filled entry by entry: no two of their keys are ever equal.
import ObjectGraph.Proofs.Graph.Operation
import ObjectGraph.Proofs.Number.Equality

/-! # Keys of maps

Putting a value under a key of a map either changes the value of the first entry with
an equal key, or adds an entry at the end (`Container.Inserted`). So the keys of a map
stay apart, as long as maps are made empty and changed in no other way. Equality of
values does not even have to be reflexive for that: a map may hold any number of NaN
keys. One step keeps the keys apart (`Draft.BuildStep.distinctMaps`), and with it any
sequence of steps from the empty graph (`Draft.maps_of_builds`).
-/

namespace ObjectGraph

/-! ## One entry -/

namespace Container

/-- What becomes of the entries of a map when a value is put under a key. -/
inductive Inserted (key value : Value) : List (Value × Value) → List (Value × Value) → Prop
  /-- The first entry with an equal key keeps its place and its key. -/
  | replaced {before after : List (Value × Value)} {k v : Value} :
    (∀ entry ∈ before, (entry.1 == key) = false) → (k == key) = true →
    Inserted key value (before ++ (k, v) :: after) (before ++ (k, value) :: after)
  /-- Without an equal key, there is one more entry at the end. -/
  | appended {entries : List (Value × Value)} : (∀ entry ∈ entries, (entry.1 == key) = false) →
    Inserted key value entries (entries ++ [(key, value)])

theorem inserted_insertEntry (key value : Value) (entries : List (Value × Value)) :
    Inserted key value entries (insertEntry key value entries) := by
  induction entries with
  | nil => exact .appended (List.forall_mem_nil _)
  | cons entry rest ih =>
    obtain ⟨k, v⟩ := entry
    rw [insertEntry]
    split
    · rename_i hequal
      exact @Inserted.replaced key value [] rest k v (List.forall_mem_nil _) hequal
    · rename_i hother
      have hother : (k == key) = false := Bool.eq_false_iff.2 hother
      generalize insertEntry key value rest = rest' at ih
      cases ih with
      | replaced hbefore hequal => exact .replaced (List.forall_mem_cons.2 ⟨hother, hbefore⟩) hequal
      | appended hnew => exact .appended (List.forall_mem_cons.2 ⟨hother, hnew⟩)

/-- No two of the keys are equal, from either side. -/
def DistinctKeys (entries : List (Value × Value)) : Prop :=
  (entries.map Prod.fst).Pairwise fun a b => (a == b) = false ∧ (b == a) = false

theorem Inserted.distinctKeys {key value : Value} {entries entries' : List (Value × Value)}
    (h : Inserted key value entries entries') (hdistinct : DistinctKeys entries) : DistinctKeys entries' := by
  unfold DistinctKeys at *
  cases h with
  | replaced hbefore hequal => simpa only [List.map_append, List.map_cons] using hdistinct
  | appended hnew =>
    rw [List.map_append]
    refine List.pairwise_append.2 ⟨hdistinct, List.pairwise_singleton .., ?_⟩
    intro k hk last hlast
    obtain ⟨entry, hentry, rfl⟩ := List.mem_map.1 hk
    obtain rfl := List.mem_singleton.1 hlast
    exact ⟨hnew entry hentry, (Value.beq_comm ..).trans (hnew entry hentry)⟩

end Container

open Container

/-! ## One step -/

/-- No map of the graph has two equal keys. -/
def Graph.DistinctMaps (g : Graph) : Prop := ∀ id entries, g.map? id = some entries → DistinctKeys entries

namespace Operation

variable {o : Operation} {d d' : Draft} {reply : Reply} {c c' : Container}

/-- A map that is added is empty. -/
theorem distinctKeys_of_container? {entries : List (Value × Value)} (h : o.container? = some c)
    (hentries : c.map? = some entries) : DistinctKeys entries := by
  cases o <;> cases h <;> cases hentries
  exact List.Pairwise.nil

/-- A map that is edited gets one entry, or a value under one of its keys. -/
theorem inserted_of_edit? {e : Edit} {entries' : List (Value × Value)} (h : o.edit? = some e)
    (hchange : e.change c = some c') (hentries : c'.map? = some entries') :
    ∃ key value entries, c.map? = some entries ∧ Inserted key value entries entries' := by
  cases o <;> cases h <;> obtain ⟨content, hcontent, rfl⟩ := Option.map_eq_some_iff.1 hchange <;> cases hentries
  exact ⟨_, _, content, hcontent, inserted_insertEntry ..⟩

theorem Effect.distinctMaps (h : o.Effect d reply d') (hmaps : d.graph.DistinctMaps) :
    d'.graph.DistinctMaps := by
  intro id entries hentries
  cases h with
  | @added c hcontainer =>
    rw [Graph.map?, Graph.node?, Graph.add, Array.getElem?_push] at hentries
    split at hentries
    · exact distinctKeys_of_container? hcontainer hentries
    · exact hmaps id entries hentries
  | @edited e c c' _ hedit hnode hchange =>
    rw [Graph.map?, Graph.node?_put] at hentries
    split at hentries
    · rw [hnode] at hentries
      obtain ⟨key, value, old, hold, hinserted⟩ := inserted_of_edit? hedit hchange hentries
      refine hinserted.distinctKeys (hmaps e.id old ?_)
      rw [Graph.map?, hnode]
      exact hold
    · exact hmaps id entries hentries
  | kept _ _ hnodes =>
    rw [Graph.map?, Graph.node?, hnodes] at hentries
    exact hmaps id entries hentries

theorem distinctMaps_after (o : Operation) (hmaps : d.graph.DistinctMaps) :
    (o.after d).graph.DistinctMaps := by
  unfold after
  split
  · rename_i reply d' hperform
    exact (effect_of_apply (perform_eq_ok_iff.1 hperform)).distinctMaps hmaps
  · rename_i e d' hperform
    rwa [(perform_eq_error_iff.1 hperform).2]

end Operation

/-! ## Any number of steps -/

namespace Draft

/-- One step in building a graph whose maps are made empty and filled entry by entry. -/
inductive BuildStep : Draft → Draft → Prop
  /-- An operation, which may also fail. -/
  | operation (o : Operation) (d : Draft) : BuildStep d (o.after d)
  /-- Any other change, as long as there is no map with entries that it did not have. -/
  | other {d d' : Draft} : (∀ id entries, d'.graph.map? id = some entries → d.graph.map? id = some entries) →
    BuildStep d d'

abbrev Builds : Draft → Draft → Prop := Relation.ReflTransGen BuildStep

variable {d d' : Draft}

theorem builds_run (ops : List Operation) (d : Draft) : d.Builds (Operation.run ops d) := by
  induction ops generalizing d with
  | nil => exact .refl
  | cons o rest ih => exact .head (.operation o d) (ih (o.after d))

theorem BuildStep.distinctMaps (h : d.BuildStep d') (hmaps : d.graph.DistinctMaps) : d'.graph.DistinctMaps := by
  cases h with
  | operation o => exact Operation.distinctMaps_after o hmaps
  | other hkept => exact fun id entries hentries => hmaps id entries (hkept id entries hentries)

theorem Builds.distinctMaps (h : d.Builds d') (hmaps : d.graph.DistinctMaps) : d'.graph.DistinctMaps := by
  induction h with
  | refl => exact hmaps
  | tail _ hstep ih => exact hstep.distinctMaps ih

/-- In whatever was built from the empty graph, no map has two equal keys, and a value
put under a key of a map changes the value of the first entry with an equal key and
nothing else, or is added at the end with its key. -/
theorem maps_of_builds {s : Supply} {d : Draft} (h : Draft.Builds ⟨.empty, s⟩ d) {id : NodeId}
    {entries : List (Value × Value)} (hentries : d.graph.map? id = some entries) :
    (entries.map Prod.fst).Pairwise (fun a b => (a == b) = false ∧ (b == a) = false) ∧
    ∀ key value, ∃ entries',
      d.graph.insertEntry id key value = .ok (d.graph.put id (.map entries')) ∧
      (d.graph.put id (.map entries')).map? id = some entries' ∧
      (∀ other, other ≠ id → (d.graph.put id (.map entries')).node? other = d.graph.node? other) ∧
      ((∃ before k v after, (k == key) = true ∧ (∀ entry ∈ before, (entry.1 == key) = false) ∧
          entries = before ++ (k, v) :: after ∧ entries' = before ++ (k, value) :: after) ∨
        (∀ entry ∈ entries, (entry.1 == key) = false) ∧ entries' = entries ++ [(key, value)]) := by
  have hempty : Graph.empty.DistinctMaps := fun _ _ hnone => by cases hnone
  refine ⟨h.distinctMaps hempty id entries hentries, fun key value => ?_⟩
  obtain ⟨c, hnode, hmap⟩ := Option.bind_eq_some_iff.1 hentries
  obtain rfl : c = .map entries := by
    cases c <;> cases hmap
    rfl
  refine ⟨insertEntry key value entries, ?_, ?_, fun other hother => ?_, ?_⟩
  · rw [Graph.insertEntry, hnode]
  · rw [Graph.map?, Graph.node?_put, if_pos rfl, hnode]
    rfl
  · rw [Graph.node?_put, if_neg hother]
  · have hinserted := inserted_insertEntry key value entries
    generalize insertEntry key value entries = entries' at hinserted
    cases hinserted with
    | replaced hbefore hequal => exact .inl ⟨_, _, _, _, hequal, hbefore, rfl, rfl⟩
    | appended hnew => exact .inr ⟨hnew, rfl⟩

/-- The floating-point key 1 finds the integer key, but a NaN does not find another one. -/
theorem maps_of_builds_mixed :
    let one : Value := .number (.integer 1)
    let nan : Value := .number (.float .nan)
    let ops : List Operation := [.addMap, .insertEntry ⟨0⟩ one .null, .insertEntry ⟨0⟩ nan .null,
      .insertEntry ⟨0⟩ (.number (.float ⟨0x3ff0000000000000⟩)) .undefined, .insertEntry ⟨0⟩ nan .undefined]
    let d := Operation.run ops ⟨.empty, .initial⟩
    let entries : List (Value × Value) := [(one, .undefined), (nan, .null), (nan, .undefined)]
    (Draft.Builds ⟨.empty, .initial⟩ d ∧ d.graph.map? ⟨0⟩ = some entries) ∧
    (entries.map Prod.fst).Pairwise (fun a b => (a == b) = false ∧ (b == a) = false) := by
  intro one nan ops d entries
  have hbuilds : Draft.Builds ⟨.empty, .initial⟩ d := builds_run ops _
  have hentries : d.graph.map? ⟨0⟩ = some entries := by decide +kernel
  exact ⟨⟨hbuilds, hentries⟩, (maps_of_builds hbuilds hentries).1⟩

end Draft

end ObjectGraph
