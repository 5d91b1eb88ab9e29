-- SUMMARY: Where loading leaves the parts of a YAML value, and that they stay there.
import ObjectGraph.Proofs.Document.Loading
import Mathlib.Data.List.Forall2

/-! # Loaded values

Loading only adds containers, so what it has put into a graph is still there when
it is done with the rest (`Draft.Steps.growsTo`). A value of a document is
therefore known by the part of the YAML value that it was loaded from
(`Yaml.LoadedAs`), and a container by the parts of its values.
-/

namespace ObjectGraph

/-! ## Growing graphs -/

namespace Graph

/-- Every container of the first graph stands in the second, at its place. -/
def GrowsTo (g g' : Graph) : Prop := ∀ id c, g.node? id = some c → g'.node? id = some c

variable {g g' g'' : Graph}

theorem GrowsTo.refl : g.GrowsTo g := fun _ _ hnode => hnode

theorem GrowsTo.trans (h : g.GrowsTo g') (h' : g'.GrowsTo g'') : g.GrowsTo g'' :=
  fun id c hnode => h' id c (h id c hnode)

theorem GrowsTo.of_nodes_eq (h : g'.nodes = g.nodes) : g.GrowsTo g' := by
  intro id c hnode
  rwa [node?, h]

theorem growsTo_add (g : Graph) (c : Container) : g.GrowsTo (g.add c).2 := by
  intro id c' hnode
  obtain ⟨hid, rfl⟩ := node?_eq_some_iff.1 hnode
  exact Array.getElem?_push_lt hid

theorem node?_add (g : Graph) (c : Container) : (g.add c).2.node? ⟨g.size⟩ = some c :=
  Array.getElem?_push_size

end Graph

namespace Draft

variable {d d' : Draft}

theorem Step.growsTo (h : Step d d') : d.graph.GrowsTo d'.graph := by
  cases h with
  | symbol description => exact .of_nodes_eq (d.nodes_sharedSymbol description)
  | callable => exact .refl
  | register => exact .refl
  | @add c hc => exact d.graph.growsTo_add c

theorem Steps.growsTo (h : Steps d d') : d.graph.GrowsTo d'.graph := by
  induction h with
  | refl => exact .refl
  | tail _ hstep ih => exact ih.trans hstep.growsTo

end Draft

/-! ## Records with distinct keys -/

namespace Record

/-- A visible stored field for each key, as long as there are values. -/
def storedFields (keys : List Key) (values : List Value) : List (Key × Property) :=
  (keys.zip values).map fun (key, v) => (key, ⟨.stored v, true⟩)

theorem insertField_of_new {key : Key} {p : Property} {fields : List (Key × Property)}
    (h : ∀ field ∈ fields, (field.1 == key) = false) :
    insertField key p fields = fields ++ [(key, p)] := by
  induction fields with
  | nil => rfl
  | cons field rest ih =>
    obtain ⟨k, q⟩ := field
    obtain ⟨hfirst, hrest⟩ := List.forall_mem_cons.1 h
    have hk : (k == key) = false := hfirst
    rw [insertField, hk, if_neg Bool.false_ne_true, ih hrest, List.cons_append]

/-- Fields with distinct new keys are put into a record one after the other. -/
theorem fields_foldl_insert {keys : List Key} (hkeys : DistinctKeys keys) (values : List Value)
    {r : Record} (hnew : ∀ field ∈ r.fields, ∀ key ∈ keys, (field.1 == key) = false) :
    ((keys.zip values).foldl (fun (r : Record) (key, v) => r.insert key ⟨.stored v, true⟩) r).fields =
      r.fields ++ storedFields keys values := by
  induction keys generalizing values r with
  | nil => simp [storedFields]
  | cons key keys ih =>
    cases values with
    | nil => simp [storedFields]
    | cons v values =>
      obtain ⟨hkey, hkeys⟩ := List.pairwise_cons.1 hkeys
      have hinsert : (r.insert key ⟨.stored v, true⟩).fields = r.fields ++ [(key, ⟨.stored v, true⟩)] :=
        insertField_of_new fun field hfield => hnew field hfield key (List.mem_cons_self ..)
      refine (ih hkeys values (r := r.insert key ⟨.stored v, true⟩) ?_).trans ?_
      · intro field hfield other hother
        rw [hinsert] at hfield
        rcases List.mem_append.1 hfield with hfield | hfield
        · exact hnew field hfield other (List.mem_cons_of_mem _ hother)
        · rw [List.mem_singleton.1 hfield]
          exact hkey other hother
      · rw [hinsert, List.append_assoc]
        rfl

theorem distinctKeys_names {names : List String} (h : names.Nodup) :
    DistinctKeys (names.map Key.name) := by
  refine List.pairwise_map.2 (h.imp fun {a b} hne => ?_)
  have hnames : (a == b) = false := beq_false_of_ne hne
  exact hnames

end Record

namespace Yaml

/-! ## Loaded values -/

/-- The mapping of named members. -/
def ofMembers (members : List (String × Yaml)) : Yaml :=
  .mapping (members.map fun (name, v) => (.string name, v))

theorem fields_recordOf (className : Option String) {keys : List Key}
    (hkeys : Record.DistinctKeys keys) (values : List Value) :
    (recordOf className keys values).fields = Record.storedFields keys values :=
  Record.fields_foldl_insert hkeys values (by simp)

theorem recordKeys_ofMembers (members : List (String × Yaml)) (d : Draft) :
    recordKeys (members.map fun (name, v) => (.string name, v)) d =
      (some ((members.map Prod.fst).map Key.name), d) := by
  induction members with
  | nil => rfl
  | cons member rest ih => simp only [List.map_cons, recordKeys, recordKey, ih]

/-- The value stands in the graph as it was left when this YAML value was loaded
under this class. -/
def LoadedAs (className : Option String) (v : Yaml) (x : Value) (g : Graph) : Prop :=
  ∃ d, (loadAs className v d).1 = x ∧ (loadAs className v d).2.graph.GrowsTo g

/-- Each value was loaded, without a class, from the part at the same place. -/
def AllLoaded (vs : List Yaml) (xs : List Value) (g : Graph) : Prop :=
  List.Forall₂ (fun v x => LoadedAs none v x g) vs xs

variable {className : Option String} {v : Yaml} {x : Value} {g : Graph} {d : Draft}

theorem allLoaded_loadItems {items : List Yaml} (h : (loadItems items d).2.graph.GrowsTo g) :
    AllLoaded items (loadItems items d).1 g := by
  induction items generalizing d with
  | nil =>
    rw [loadItems]
    exact .nil
  | cons item rest ih =>
    rw [loadItems] at h ⊢
    exact .cons ⟨d, rfl, (steps_loadItems rest _).growsTo.trans h⟩ (ih h)

theorem allLoaded_loadValues {entries : List (Yaml × Yaml)}
    (h : (loadValues entries d).2.graph.GrowsTo g) :
    AllLoaded (entries.map Prod.snd) (loadValues entries d).1 g := by
  induction entries generalizing d with
  | nil =>
    rw [loadValues]
    exact .nil
  | cons entry rest ih =>
    rw [loadValues] at h ⊢
    exact .cons ⟨d, rfl, (steps_loadValues rest _).growsTo.trans h⟩ (ih h)

namespace LoadedAs

theorem sequence {items : List Yaml} (h : LoadedAs className (.sequence items) x g) :
    ∃ id values, x = .node id ∧ g.node? id = some (.sequence values) ∧ AllLoaded items values g := by
  obtain ⟨d, rfl, hgrows⟩ := h
  rw [loadAs] at hgrows ⊢
  refine ⟨_, _, rfl, hgrows _ _ (Graph.node?_add ..), allLoaded_loadItems ?_⟩
  exact (Graph.growsTo_add _ _).trans hgrows

/-- Members with distinct names become the fields of a record. -/
theorem ofMembers {members : List (String × Yaml)} (hnames : (members.map Prod.fst).Nodup)
    (h : LoadedAs className (ofMembers members) x g) :
    ∃ id r values, x = .node id ∧ g.node? id = some (.record r) ∧
      r.fields = Record.storedFields ((members.map Prod.fst).map Key.name) values ∧
      AllLoaded (members.map Prod.snd) values g := by
  obtain ⟨d, rfl, hgrows⟩ := h
  rw [Yaml.ofMembers, loadAs, recordKeys_ofMembers] at hgrows ⊢
  have hkeys := Record.distinctKeys_names hnames
  refine ⟨_, _, _, rfl, hgrows _ _ (Graph.node?_add ..), fields_recordOf className hkeys _, ?_⟩
  have hvalues := allLoaded_loadValues ((Graph.growsTo_add _ _).trans hgrows)
  rwa [List.map_map] at hvalues

end LoadedAs

end Yaml

end ObjectGraph
