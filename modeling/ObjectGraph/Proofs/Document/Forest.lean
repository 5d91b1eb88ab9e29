-- SUMMARY: Documents are trees in a forest: loading refers to each container once, from a later one.
import ObjectGraph.Proofs.Document.Loading
import ObjectGraph.Proofs.Graph.Tree

/-! # Documents are trees

While a document is loaded, the values at hand are loose: no container holds them
yet. References are counted, both those in containers and those at hand, and none
is ever there twice (`Draft.Planted`): a new container takes up loose values, and
its own reference, the only one to it, is loose from then on (`Draft.Planted.add`).
In the end only the root is loose, and the graph is a tree below it
(`Document.treeBelow_ofYaml`). Containers that a later field of the same key has
displaced are left, so that the whole graph is a forest (`Document.isForest_ofYaml`);
its last container is that of the root, since a container is added after its parts
(`Yaml.isLast_loadAs`).
-/

namespace ObjectGraph

/-! ## References of containers -/

namespace Container

theorem references_sequence (items : List Value) :
    (Container.sequence items).references = ObjectGraph.references items := by
  have hvalues : (Container.sequence items).slots.flatMap Slot.values = items := by
    rw [slots, List.mapIdx_eq_zipIdx_map, List.flatMap_map]
    exact List.map_eq_flatMap.symm.trans (List.zipIdx_map_fst 0 items)
  rw [references, hvalues]

theorem references_map (entries : List (Value × Value)) :
    (Container.map entries).references =
      ObjectGraph.references (entries.flatMap fun (key, v) => [key, v]) := by
  rw [references, slots, List.flatMap_map]
  rfl

theorem references_record (r : Record) :
    (Container.record r).references =
      r.fields.flatMap fun field => ObjectGraph.references field.2.content.stored?.toList := by
  rw [references, slots, List.flatMap_map, ObjectGraph.references, List.filterMap_flatMap]
  rfl

/-- A field that is put into a record brings at most its own reference. -/
theorem count_references_insert (r : Record) (key : Key) (v : Value) (visible : Bool) (id : NodeId) :
    (Container.record (r.insert key ⟨.stored v, visible⟩)).references.count id ≤
      (Container.record r).references.count id + (ObjectGraph.references [v]).count id := by
  rw [references_record, references_record]
  change ((Record.insertField key _ r.fields).flatMap _).count id ≤ _
  induction r.fields with
  | nil => simp [Record.insertField, Content.stored?]
  | cons field rest ih =>
    obtain ⟨k, p⟩ := field
    unfold Record.insertField
    split
    · simp only [List.flatMap_cons, List.count_append, Content.stored?, Option.toList_some]
      omega
    · simp only [List.flatMap_cons, List.count_append]
      omega

theorem count_references_foldl_insert (keys : List Key) (values : List Value) (r : Record)
    (id : NodeId) :
    (Container.record ((keys.zip values).foldl (fun (r : Record) (key, v) =>
      r.insert key ⟨.stored v, true⟩) r)).references.count id ≤
      (Container.record r).references.count id + (ObjectGraph.references values).count id := by
  induction keys generalizing values r with
  | nil => simp
  | cons key keys ih =>
    cases values with
    | nil => simp
    | cons v values =>
      have hfirst := count_references_insert r key v true id
      have hrest := ih values (r.insert key ⟨.stored v, true⟩)
      have hsplit : (ObjectGraph.references (v :: values)).count id =
          (ObjectGraph.references [v]).count id + (ObjectGraph.references values).count id := by
        rw [← List.count_append, ← references_append, List.singleton_append]
      refine Nat.le_trans hrest ?_
      omega

end Container

theorem Yaml.count_references_recordOf (className : Option String) (keys : List Key)
    (values : List Value) (id : NodeId) :
    (Container.record (recordOf className keys values)).references.count id ≤
      (references values).count id := by
  have hfold := Container.count_references_foldl_insert keys values ⟨className, [], .nil⟩ id
  have hempty : (Container.record ⟨className, [], .nil⟩).references.count id = 0 := rfl
  rwa [hempty, Nat.zero_add] at hfold

/-! ## Loose values -/

namespace Draft

/-- No container is referred to twice, be it from a container or by a loose value;
containers refer to earlier ones, and loose values to containers that exist. -/
structure Planted (d : Draft) (loose : List Value) : Prop where
  once : ∀ id, d.graph.references.count id + (references loose).count id ≤ 1
  below : d.graph.BottomUp
  within : ∀ id ∈ references loose, id.index < d.graph.size

variable {d d' : Draft} {loose values : List Value} {v : Value}

theorem planted_empty (s : Supply) : Planted ⟨.empty, s⟩ [] := by
  refine ⟨fun id => ?_, ?_, ?_⟩
  · simp [Graph.references, Graph.empty]
  · rintro id c hnode
    simp [Graph.node?, Graph.empty] at hnode
  · simp

namespace Planted

/-- Only containers matter. -/
theorem keep (h : d.Planted loose) (hnodes : d'.graph.nodes = d.graph.nodes) : d'.Planted loose := by
  have hreferences : d'.graph.references = d.graph.references :=
    congrArg (fun nodes => nodes.toList.flatMap Container.references) hnodes
  have hsize : d'.graph.size = d.graph.size := congrArg Array.size hnodes
  have hnode : d'.graph.node? = d.graph.node? := funext fun id => by rw [Graph.node?, hnodes, Graph.node?]
  refine ⟨hreferences ▸ h.once, ?_, hsize ▸ h.within⟩
  unfold Graph.BottomUp
  rw [hnode]
  exact h.below

/-- A value that is no reference may be at hand as well. -/
theorem scalar (h : d.Planted loose) (hv : v.node? = none) : d.Planted (loose ++ [v]) := by
  have hloose : references (loose ++ [v]) = references loose := by
    rw [references_append]
    simp [references, hv]
  exact ⟨hloose ▸ h.once, h.below, hloose ▸ h.within⟩

/-- A container that takes up loose values is itself referred to by one loose value. -/
theorem add {c : Container} (h : d.Planted (loose ++ values))
    (hc : ∀ id, c.references.count id ≤ (references values).count id) :
    (d.add c).2.Planted (loose ++ [(d.add c).1]) := by
  have hheld : ∀ id ∈ c.references, id.index < d.graph.size := fun id hid => by
    have hvalue : 0 < (references values).count id :=
      Nat.lt_of_lt_of_le (List.count_pos_iff.2 hid) (hc id)
    exact h.within id (references_append .. ▸ List.mem_append_right _ (List.count_pos_iff.1 hvalue))
  have hloose : ∀ id ∈ references loose, id.index < d.graph.size := fun id hid =>
    h.within id (references_append .. ▸ List.mem_append_left _ hid)
  have hnew : references (loose ++ [(d.add c).1]) = references loose ++ [⟨d.graph.size⟩] :=
    references_append ..
  refine ⟨fun id => ?_, h.below.add hheld, fun id hid => ?_⟩
  · have hreferences : (d.add c).2.graph.references = d.graph.references ++ c.references :=
      d.graph.references_add c
    rw [hreferences, hnew, List.count_append, List.count_append]
    by_cases hid : id.index < d.graph.size
    · have hother : List.count id [⟨d.graph.size⟩] = 0 := by
        refine List.count_eq_zero.2 fun hmem => ?_
        rw [List.mem_singleton.1 hmem] at hid
        exact Nat.lt_irrefl _ hid
      have honce := h.once id
      rw [references_append, List.count_append] at honce
      have hcount := hc id
      omega
    · -- nothing that was there refers to the new container
      have hgraph : d.graph.references.count id = 0 :=
        List.count_eq_zero.2 fun hmem => hid (h.below.index_lt hmem)
      have hcontainer : c.references.count id = 0 :=
        List.count_eq_zero.2 fun hmem => hid (hheld id hmem)
      have hrest : (references loose).count id = 0 :=
        List.count_eq_zero.2 fun hmem => hid (hloose id hmem)
      have hlast : List.count id [⟨d.graph.size⟩] ≤ 1 := List.count_le_length
      omega
  · have hsize : (d.add c).2.graph.size = d.graph.size + 1 := Array.size_push ..
    rw [hnew] at hid
    rw [hsize]
    rcases List.mem_append.1 hid with hid | hid
    · exact Nat.lt_succ_of_lt (hloose id hid)
    · rw [List.mem_singleton.1 hid]
      exact Nat.lt_succ_self _

end Planted

end Draft

/-! ## Loading -/

namespace Yaml

theorem nodes_registerClass (className : Option String) (d : Draft) :
    (registerClass className d).graph.nodes = d.graph.nodes := by
  cases className <;> rfl

theorem nodes_recordKey (key : Yaml) (d : Draft) : (recordKey key d).2.graph.nodes = d.graph.nodes := by
  unfold recordKey
  split
  · rfl
  · split
    · exact d.nodes_sharedSymbol _
    · rfl
  · rfl

theorem nodes_recordKeys (entries : List (Yaml × Yaml)) (d : Draft) :
    (recordKeys entries d).2.graph.nodes = d.graph.nodes := by
  induction entries generalizing d with
  | nil => rfl
  | cons entry rest ih =>
    obtain ⟨key, v⟩ := entry
    have hfirst := nodes_recordKey key d
    unfold recordKeys
    split <;> rename_i heq <;> rw [heq] at hfirst
    · exact hfirst
    · rename_i k d₁
      have hrest := ih d₁
      split <;> rename_i heq' <;> rw [heq'] at hrest <;> exact hrest.trans hfirst

variable {d : Draft} {loose : List Value}

theorem planted_hold (className : Option String) {v : Value} (h : d.Planted (loose ++ [v])) :
    (hold className v d).2.Planted (loose ++ [(hold className v d).1]) := by
  cases className with
  | none => exact h
  | some name =>
    refine h.add fun id => ?_
    have hinsert := Container.count_references_insert (.instanceOf name) heldField v false id
    simpa [Container.references_record, Record.instanceOf] using hinsert

theorem planted_scalar (className : Option String) {v : Value} (hv : v.node? = none)
    (h : d.Planted loose) : (hold className v (registerClass className d)).2.Planted
      (loose ++ [(hold className v (registerClass className d)).1]) :=
  planted_hold className ((h.keep (nodes_registerClass className d)).scalar hv)

mutual

theorem planted_loadAs (className : Option String) (v : Yaml) {d : Draft} {loose : List Value}
    (h : d.Planted loose) :
    (loadAs className v d).2.Planted (loose ++ [(loadAs className v d).1]) := by
  match v with
  | .sequence items =>
    rw [loadAs]
    exact (planted_loadItems items h).add fun id =>
      Nat.le_of_eq (congrArg (List.count id) (Container.references_sequence _))
  | .mapping entries =>
    have hkeys := (h.keep (nodes_registerClass className d)).keep
      (nodes_recordKeys entries (registerClass className d))
    rw [loadAs]
    cases heq : recordKeys entries (registerClass className d) with
    | mk keys d' =>
      rw [heq] at hkeys
      cases keys with
      | some keys =>
        exact (planted_loadValues entries hkeys).add (count_references_recordOf className keys _)
      | none =>
        exact (planted_loadEntries entries hkeys).add fun id =>
          Nat.le_of_eq (congrArg (List.count id) (Container.references_map _))
  | .tagged name inner =>
    have hregister := h.keep (nodes_registerClass className d)
    by_cases hsymbol : name = symbolTag
    · rw [loadAs, if_pos hsymbol]
      exact planted_hold className ((hregister.keep (Draft.nodes_sharedSymbol ..)).scalar rfl)
    · rw [loadAs, if_neg hsymbol]
      by_cases hcallable : name = callableTag
      · rw [if_pos hcallable]
        have hmade := hregister.keep (Draft.nodes_newCallable _ (labelText inner))
        exact planted_hold className (hmade.scalar rfl)
      · rw [if_neg hcallable]
        exact planted_hold className (planted_loadAs (some name) inner hregister)
  | .null => exact planted_scalar className rfl h
  | .boolean b => exact planted_scalar className rfl h
  | .integer n => exact planted_scalar className rfl h
  | .float x => exact planted_scalar className rfl h
  | .string s => exact planted_scalar className rfl h

theorem planted_loadItems (items : List Yaml) {d : Draft} {loose : List Value} (h : d.Planted loose) :
    (loadItems items d).2.Planted (loose ++ (loadItems items d).1) := by
  match items with
  | [] =>
    rw [loadItems, List.append_nil]
    exact h
  | item :: rest =>
    have hrest := planted_loadItems rest (planted_loadAs none item h)
    rw [List.append_assoc] at hrest
    rw [loadItems]
    exact hrest

theorem planted_loadValues (entries : List (Yaml × Yaml)) {d : Draft} {loose : List Value}
    (h : d.Planted loose) :
    (loadValues entries d).2.Planted (loose ++ (loadValues entries d).1) := by
  match entries with
  | [] =>
    rw [loadValues, List.append_nil]
    exact h
  | (_, v) :: rest =>
    have hrest := planted_loadValues rest (planted_loadAs none v h)
    rw [List.append_assoc] at hrest
    rw [loadValues]
    exact hrest

theorem planted_loadEntries (entries : List (Yaml × Yaml)) {d : Draft} {loose : List Value}
    (h : d.Planted loose) :
    (loadEntries entries d).2.Planted
      (loose ++ (loadEntries entries d).1.flatMap fun (key, v) => [key, v]) := by
  match entries with
  | [] =>
    rw [loadEntries, List.flatMap_nil, List.append_nil]
    exact h
  | (k, v) :: rest =>
    have hrest := planted_loadEntries rest (planted_loadAs none v (planted_loadAs none k h))
    rw [loadEntries]
    simpa [List.append_assoc] using hrest

end

end Yaml

/-! ## The last container -/

/-- If the value is a container, then it is the one that was added last. -/
def Draft.IsLast (d : Draft) (v : Value) : Prop := ∀ id, v = .node id → id.index + 1 = d.graph.size

theorem Draft.isLast_add (d : Draft) (c : Container) : (d.add c).2.IsLast (d.add c).1 := by
  intro id hid
  obtain rfl := Value.node.inj hid
  exact (Array.size_push ..).symm

namespace Yaml

theorem isLast_hold (className : Option String) {v : Value} {d : Draft} (h : d.IsLast v) :
    (hold className v d).2.IsLast (hold className v d).1 := by
  cases className with
  | none => exact h
  | some name => exact d.isLast_add _

theorem isLast_scalar {v : Value} (hv : v.node? = none) (d : Draft) : d.IsLast v := by
  rintro id rfl
  cases hv

theorem isLast_loadAs (className : Option String) (v : Yaml) (d : Draft) :
    (loadAs className v d).2.IsLast (loadAs className v d).1 := by
  match v with
  | .sequence items =>
    rw [loadAs]
    exact Draft.isLast_add _ _
  | .mapping entries =>
    rw [loadAs]
    rcases recordKeys entries (registerClass className d) with ⟨_ | keys, d'⟩
    · exact Draft.isLast_add _ _
    · exact Draft.isLast_add _ _
  | .tagged name inner =>
    by_cases hsymbol : name = symbolTag
    · rw [loadAs, if_pos hsymbol]
      exact isLast_hold className (isLast_scalar rfl _)
    · by_cases hcallable : name = callableTag
      · rw [loadAs, if_neg hsymbol, if_pos hcallable]
        exact isLast_hold className (isLast_scalar rfl _)
      · rw [loadAs, if_neg hsymbol, if_neg hcallable]
        exact isLast_hold className (isLast_loadAs (some name) inner _)
  | .null => exact isLast_hold className (isLast_scalar rfl _)
  | .boolean b => exact isLast_hold className (isLast_scalar rfl _)
  | .integer n => exact isLast_hold className (isLast_scalar rfl _)
  | .float x => exact isLast_hold className (isLast_scalar rfl _)
  | .string s => exact isLast_hold className (isLast_scalar rfl _)

end Yaml

/-! ## Documents -/

namespace Document

variable (v : Yaml) (s : Supply)

theorem planted_ofYaml :
    ∃ supply, Draft.Planted ⟨(ofYaml v s).1.graph, supply⟩ [(ofYaml v s).1.root] :=
  ⟨_, Yaml.planted_loadAs none v (Draft.planted_empty s)⟩

/-- Containers of a document refer to earlier ones only. -/
theorem bottomUp_ofYaml : (ofYaml v s).1.graph.BottomUp :=
  have ⟨_, hplanted⟩ := planted_ofYaml v s
  hplanted.below

/-- No reference is stored twice, and none to the container of the root. -/
theorem once_ofYaml : (ofYaml v s).1.graph.references.Nodup ∧
    ∀ id, (ofYaml v s).1.root = .node id → id ∉ (ofYaml v s).1.graph.references := by
  obtain ⟨supply, hplanted⟩ := planted_ofYaml v s
  constructor
  · refine List.nodup_iff_count_le_one.2 fun id => ?_
    exact Nat.le_trans (Nat.le_add_right ..) (hplanted.once id)
  · intro id hroot hmem
    have honce := hplanted.once id
    rw [hroot] at honce
    have hloose : (references [Value.node id]).count id = 1 := by simp [references, Value.node?]
    have hstored : 0 < (ofYaml v s).1.graph.references.count id := List.count_pos_iff.2 hmem
    simp only [hloose] at honce
    omega

/-- A document is a tree below its root. -/
theorem treeBelow_ofYaml : (ofYaml v s).1.graph.TreeBelow (ofYaml v s).1.root :=
  Graph.treeBelow_of_once (fun _ hx => isStored_of_has v s hx) (once_ofYaml v s).1 (once_ofYaml v s).2

/-- The graph of a document is a forest that is stored from the bottom up, with the
root at its end. No reference leads nowhere, none leads back to where it started, and
no container is shared. -/
theorem isForest_ofYaml :
    (ofYaml v s).1.graph.IsForest (ofYaml v s).1.root ∧
    (∀ outer id, (ofYaml v s).1.graph.RefersTo outer id →
      ∃ c, (ofYaml v s).1.graph.node? id = some c) ∧
    (∀ id, ¬ Relation.TransGen (ofYaml v s).1.graph.RefersTo id id) ∧
    ∀ outer outer' id, (ofYaml v s).1.graph.RefersTo outer id →
      (ofYaml v s).1.graph.RefersTo outer' id → outer = outer' := by
  have hforest : (ofYaml v s).1.graph.IsForest (ofYaml v s).1.root := by
    refine ⟨fun _ hx => isStored_of_has v s hx, bottomUp_ofYaml v s, (once_ofYaml v s).1,
      fun id hroot => ⟨?_, ?_⟩⟩
    · exact Yaml.isLast_loadAs none v ⟨.empty, s⟩ id hroot
    · exact (once_ofYaml v s).2 id hroot
  exact ⟨hforest, fun _ _ => hforest.exists_node, hforest.acyclic, fun _ _ _ => hforest.outer_unique⟩

end Document

end ObjectGraph
