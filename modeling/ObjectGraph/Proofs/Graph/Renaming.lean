-- SUMMARY: Containers under other places: renamed values, slots and containers, and renamed graphs.
import ObjectGraph.Proofs.Graph.Walk
import Mathlib.Logic.Function.Basic

/-! # Renaming

The place of a container in its graph is an identity and nothing else. A renaming
gives other places to the containers of a graph (`Container.rename`); another graph
is the renamed one from a target on if it has the renamed containers that are
reachable from there (`Graph.RenamesTo`). What else the graphs hold may differ.
-/

namespace ObjectGraph

/-! ## Renamed containers -/

abbrev Renaming := NodeId → NodeId

def Value.rename (r : Renaming) : Value → Value
  | .node id => .node (r id)
  | v => v

def Accessor.rename (r : Renaming) (a : Accessor) : Accessor :=
  ⟨a.id, fun k => (a.answer k).map (Value.rename r)⟩

def Content.rename (r : Renaming) : Content → Content
  | .stored v => .stored (v.rename r)
  | .computed a => .computed (a.rename r)

def Property.rename (r : Renaming) (p : Property) : Property := ⟨p.content.rename r, p.visible⟩

def Record.rename (r : Renaming) (x : Record) : Record :=
  ⟨x.className, x.fields.map fun (key, p) => (key, p.rename r), by
    rw [List.map_map]
    exact x.distinct⟩

def Container.rename (r : Renaming) : Container → Container
  | .record x => .record (x.rename r)
  | .sequence items => .sequence (items.map (Value.rename r))
  | .map entries => .map (entries.map fun (key, v) => (key.rename r, v.rename r))

def SlotKey.rename (r : Renaming) : SlotKey → SlotKey
  | .entry key => .entry (key.rename r)
  | key => key

def Slot.rename (r : Renaming) (slot : Slot) : Slot := ⟨slot.key.rename r, slot.content.rename r⟩

def Child.rename (r : Renaming) (x : Child) : Child :=
  ⟨r x.parent, x.container.rename r, x.position, x.slot.rename r⟩

/-- The key is not a container. -/
def SlotKey.IsPlain (key : SlotKey) : Prop := ∀ id, key ≠ .entry (.node id)

variable {r : Renaming}

@[simp] theorem Value.typeName_rename (v : Value) : (v.rename r).typeName = v.typeName := by
  cases v <;> rfl

@[simp] theorem Value.isScalar_rename (v : Value) : (v.rename r).isScalar = v.isScalar := by
  cases v <;> rfl

@[simp] theorem Value.isNullish_rename (v : Value) : (v.rename r).isNullish = v.isNullish := by
  cases v <;> rfl

/-- Renamed values are equal where the values are. -/
theorem Value.beq_rename (hr : Function.Injective r) (v w : Value) :
    (v.rename r == w.rename r) = (v == w) := by
  cases v with
  | node id =>
    cases w with
    | node id' =>
      have hids : (r id == r id') = (id == id') := by
        rw [Bool.eq_iff_iff, beq_iff_eq, beq_iff_eq, hr.eq_iff]
      exact hids
    | _ => rfl
  | _ => cases w <;> rfl

@[simp] theorem Container.kind_rename (c : Container) : (c.rename r).kind = c.kind := by
  cases c <;> rfl

@[simp] theorem Container.className_rename (c : Container) : (c.rename r).className = c.className := by
  cases c <;> rfl

/-- A renamed content gives what the content gives, renamed. -/
theorem Content.read_rename (c : Content) (log : ReadLog) :
    (c.rename r).read log = ((c.read log).1.map (Value.rename r), (c.read log).2) := by
  cases c <;> rfl

theorem SlotKey.IsPlain.rename_eq {key : SlotKey} (h : key.IsPlain) : key.rename r = key := by
  cases key with
  | entry key =>
    cases key with
    | node id => exact absurd rfl (h id)
    | _ => rfl
  | _ => rfl

theorem Container.slots_rename (c : Container) : (c.rename r).slots = c.slots.map (Slot.rename r) := by
  cases c with
  | record x =>
    simp only [Container.rename, Record.rename, Container.slots, List.map_map]
    rfl
  | sequence items =>
    simp only [Container.rename, Container.slots, List.mapIdx_eq_zipIdx_map, List.zipIdx_map, List.map_map]
    rfl
  | map entries =>
    simp only [Container.rename, Container.slots, List.map_map]
    rfl

/-- The child slots of a renamed container are the renamed child slots. -/
theorem Container.children_rename (c : Container) (id : NodeId) :
    (c.rename r).children (r id) = (c.children id).map (Child.rename r) := by
  simp only [Container.children, c.slots_rename, List.mapIdx_eq_zipIdx_map, List.zipIdx_map, List.map_map]
  rfl

/-! ## Renamed graphs -/

namespace Graph

/-- From the target on, the second graph is the first one with its containers renamed.
References that lead nowhere do so in both, and no reachable map has a container
for a key. -/
structure RenamesTo (g : Graph) (r : Renaming) (target : Value) (g' : Graph) : Prop where
  classes : g'.classes = g.classes
  injective : Function.Injective r
  nodes : ∀ id c, g.Reachable Scope.everything.CanCross target id → g.node? id = some c →
    g'.node? (r id) = some (c.rename r)
  missing : ∀ id, g.node? id = none → g'.node? (r id) = none
  plain : ∀ id entries, g.Reachable Scope.everything.CanCross target id →
    g.node? id = some (.map entries) → ∀ entry ∈ entries, entry.1.isScalar = true

variable {g g' : Graph} {target : Value}

theorem RenamesTo.node?_rename (h : g.RenamesTo r target g') {id : NodeId}
    (hid : g.Reachable Scope.everything.CanCross target id) :
    g'.node? (r id) = (g.node? id).map (Container.rename r) := by
  cases hnode : g.node? id with
  | none => exact h.missing id hnode
  | some c => exact h.nodes id c hid hnode

/-- A reachable container is a member of a type exactly if the renamed one is. -/
theorem RenamesTo.isInstance_rename (h : g.RenamesTo r target g') {v : Value}
    (hv : ∀ id, v = .node id → g.Reachable Scope.everything.CanCross target id) (tag : TypeTag) :
    g'.isInstance (v.rename r) tag = g.isInstance v tag := by
  cases v with
  | node id =>
    have hnode := h.node?_rename (hv id rfl)
    have hclasses := h.classes
    change g'.isInstance (.node (r id)) tag = _
    cases tag with
    | object => rfl
    | function => rfl
    | sequence =>
      simp only [isInstance, sequence?, hnode]
      rcases g.node? id with _ | _ | _ | _ <;> rfl
    | map =>
      simp only [isInstance, map?, hnode]
      rcases g.node? id with _ | _ | _ | _ <;> rfl
    | ofClass name =>
      simp only [isInstance, record?, hnode, hclasses]
      rcases g.node? id with _ | _ | _ | _ <;> rfl
  | _ => cases tag <;> rfl

/-- A slot of a reachable container has a plain key. -/
theorem RenamesTo.isPlain (h : g.RenamesTo r target g') {x : Child} (hx : g.Has x)
    (hparent : g.Reachable Scope.everything.CanCross target x.parent) : x.slot.key.IsPlain := by
  have hnode := hx.node
  rcases hx.cases with ⟨id, x, i, key, p, -, rfl⟩ | ⟨id, items, i, item, -, rfl⟩ |
    ⟨id, entries, i, key, v, hentry, rfl⟩
  · exact fun _ heq => by cases heq
  · exact fun _ heq => by cases heq
  · rintro id' heq
    obtain rfl := SlotKey.entry.inj heq
    have hscalar := h.plain id entries hparent hnode _ (List.mem_of_getElem? hentry)
    cases hscalar

end Graph

end ObjectGraph
