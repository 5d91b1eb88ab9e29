-- SUMMARY: Trees: graphs in which at most one walk leads to each container, and how references tell.
import ObjectGraph.Proofs.Graph.Walk
import Mathlib.Data.List.Induction
import Mathlib.Data.List.Nodup
import Mathlib.Logic.Relation

/-! # Trees

Below a value a graph is a tree when no container is reached from it by two walks
(`Graph.TreeBelow`); then it is also a tree below every value that is reached. It
is so where no reference to a container is stored twice, and none to the root
(`Graph.treeBelow_of_once`). References are listed slot by slot, those in map
keys included, although no walk crosses a key. Where containers refer to earlier
ones, and to each once, the graph is a forest of such trees (`Graph.IsForest`).
-/

namespace ObjectGraph

/-! ## References -/

/-- The containers to which the values refer, in their order. -/
def references (vs : List Value) : List NodeId := vs.filterMap Value.node?

@[simp] theorem references_nil : references [] = [] := rfl

@[simp] theorem references_append (vs ws : List Value) :
    references (vs ++ ws) = references vs ++ references ws := List.filterMap_append

theorem mem_references {vs : List Value} {id : NodeId} : id ∈ references vs ↔ .node id ∈ vs := by
  simp only [references, List.mem_filterMap]
  constructor
  · rintro ⟨v, hv, hnode⟩
    cases v with
    | node other => exact Option.some.inj hnode ▸ hv
    | _ => cases hnode
  · intro h
    exact ⟨_, h, rfl⟩

/-- The value that is stored, if any. -/
def Content.stored? : Content → Option Value
  | .stored v => some v
  | .computed _ => none

/-- The key of a map entry, which is a value too. -/
def SlotKey.value? : SlotKey → Option Value
  | .entry key => some key
  | _ => none

/-- The values in a slot: its key, where that is a value, and what it stores. -/
def Slot.values (s : Slot) : List Value := s.key.value?.toList ++ s.content.stored?.toList

def Container.references (c : Container) : List NodeId :=
  ObjectGraph.references (c.slots.flatMap Slot.values)

theorem Slot.mem_references {slot : Slot} {id : NodeId} (h : slot.content = .stored (.node id)) :
    id ∈ references slot.values := by
  rw [ObjectGraph.mem_references, values, h]
  exact List.mem_append_right _ (List.mem_singleton.2 rfl)

theorem Container.mem_references {c : Container} {slot : Slot} {id : NodeId} (hslot : slot ∈ c.slots)
    (h : slot.content = .stored (.node id)) : id ∈ c.references := by
  rw [references, ObjectGraph.mem_references, List.mem_flatMap]
  exact ⟨slot, hslot, ObjectGraph.mem_references.1 (Slot.mem_references h)⟩

namespace Graph

/-- All references stored in the graph, each as often as it is stored. -/
def references (g : Graph) : List NodeId := g.nodes.toList.flatMap Container.references

/-- Containers refer to earlier ones only. -/
def BottomUp (g : Graph) : Prop :=
  ∀ id c, g.node? id = some c → ∀ ref ∈ c.references, ref.index < id.index

theorem BottomUp.index_lt {g : Graph} (h : g.BottomUp) {id : NodeId} (hid : id ∈ g.references) :
    id.index < g.size := by
  obtain ⟨c, hc, href⟩ := List.mem_flatMap.1 hid
  obtain ⟨i, hi, rfl⟩ := List.getElem_of_mem hc
  have hnode : g.node? ⟨i⟩ = some g.nodes.toList[i] := by
    simp only [Array.length_toList] at hi
    simp [node?, hi]
  exact Nat.lt_trans (h _ _ hnode id href) (index_lt_of_node? hnode)

theorem references_add (g : Graph) (c : Container) :
    (g.add c).2.references = g.references ++ c.references := by
  change (g.nodes.push c).toList.flatMap Container.references = _
  rw [Array.toList_push, List.flatMap_append, List.flatMap_singleton, references]

theorem BottomUp.add {g : Graph} (h : g.BottomUp) {c : Container}
    (hc : ∀ ref ∈ c.references, ref.index < g.size) : (g.add c).2.BottomUp := by
  intro id holder hnode ref href
  have hpush : (g.nodes.push c)[id.index]? = some holder := hnode
  rw [Array.getElem?_push] at hpush
  split at hpush
  · rename_i hlast
    obtain rfl := Option.some.inj hpush
    exact hlast ▸ hc ref href
  · exact h id holder hpush ref href

end Graph

/-- A list that is put together without repetition has each element in one part only. -/
theorem eq_of_mem_of_nodup_flatMap {α β : Type} {f : α → List β} {xs : List α} {i j : Nat}
    {a a' : α} {b : β} (h : (xs.flatMap f).Nodup) (hi : xs[i]? = some a) (hj : xs[j]? = some a')
    (ha : b ∈ f a) (ha' : b ∈ f a') : i = j := by
  have hapart := List.pairwise_iff_getElem.1 (List.nodup_flatMap.1 h).2
  obtain ⟨hi', rfl⟩ := List.getElem?_eq_some_iff.1 hi
  obtain ⟨hj', rfl⟩ := List.getElem?_eq_some_iff.1 hj
  rcases Nat.lt_trichotomy i j with hlt | heq | hgt
  · exact absurd ha' (List.disjoint_left.1 (hapart i j hi' hj' hlt) ha)
  · exact heq
  · exact absurd ha (List.disjoint_left.1 (hapart j i hj' hi' hgt) ha')

namespace Graph

variable {g : Graph} {x y : Child} {id : NodeId}

theorem Has.mem_references (hx : g.Has x) (h : x.slot.content = .stored (.node id)) :
    id ∈ x.container.references :=
  Container.mem_references (List.mem_of_getElem? hx.slot) h

theorem getElem?_nodes {c : Container} (h : g.node? id = some c) :
    g.nodes.toList[id.index]? = some c := by
  rw [Array.getElem?_toList]
  exact h

/-- Where every reference is stored once, it is stored in one slot. -/
theorem Has.eq_of_references (honce : g.references.Nodup) (hx : g.Has x) (hy : g.Has y)
    (hxid : x.slot.content = .stored (.node id)) (hyid : y.slot.content = .stored (.node id)) :
    x = y := by
  have hindex : x.parent.index = y.parent.index :=
    eq_of_mem_of_nodup_flatMap honce (getElem?_nodes hx.node) (getElem?_nodes hy.node)
      (hx.mem_references hxid) (hy.mem_references hyid)
  have hparent : x.parent = y.parent := congrArg NodeId.mk hindex
  have hcontainer : x.container = y.container :=
    Option.some.inj (hx.node.symm.trans (hparent ▸ hy.node))
  have hslots : (x.container.slots.flatMap fun s => ObjectGraph.references s.values).Nodup := by
    have hnodup := (List.nodup_flatMap.1 honce).1 _ (List.mem_of_getElem? (getElem?_nodes hx.node))
    rwa [Container.references, ObjectGraph.references, List.filterMap_flatMap] at hnodup
  refine hx.unique hy hparent ?_
  exact eq_of_mem_of_nodup_flatMap hslots hx.slot (hcontainer ▸ hy.slot) (Slot.mem_references hxid)
    (Slot.mem_references hyid)

/-! ## Trees -/

/-- Whatever container is reached from the value is reached by one walk only. -/
def TreeBelow (g : Graph) (u : Value) : Prop :=
  ∀ id way way', g.Walk Scope.everything.CanCross u way (.node id) →
    g.Walk Scope.everything.CanCross u way' (.node id) → way = way'

variable {s s' : Scope} {u v : Value} {way way' : Way}

theorem Walk.everything (h : g.Walk s.CanCross u way v) :
    g.Walk Scope.everything.CanCross u way v :=
  h.mono fun _ _ _ hcross => hcross.everything

theorem TreeBelow.walk_unique (h : g.TreeBelow u) (hwalk : g.Walk s.CanCross u way (.node id))
    (hwalk' : g.Walk s'.CanCross u way' (.node id)) : way = way' :=
  h id way way' hwalk.everything hwalk'.everything

/-- A tree is a tree below each of its values. -/
theorem TreeBelow.of_walk (h : g.TreeBelow u) (hwalk : g.Walk s.CanCross u way v) :
    g.TreeBelow v := by
  intro id rest rest' hrest hrest'
  exact List.append_cancel_left
    (h id _ _ (hwalk.everything.append hrest) (hwalk.everything.append hrest'))

/-- A graph of stored values is a tree below a value where no reference is stored
twice, nor that to the container of the value itself. -/
theorem treeBelow_of_once (hstored : ∀ x, g.Has x → ∃ v, x.slot.content = .stored v)
    (honce : g.references.Nodup) (hroot : ∀ id, u = .node id → id ∉ g.references) :
    g.TreeBelow u := by
  have hcontent : ∀ x id, g.Has x → Scope.everything.CanCross x (.node id) →
      x.slot.content = .stored (.node id) := by
    rintro x id hx ⟨-, log, hread⟩
    obtain ⟨v, hv⟩ := hstored x hx
    rw [hv] at hread ⊢
    injection hread with hread
    rw [hread]
  have hnone : ∀ x id, g.Has x → Scope.everything.CanCross x (.node id) → u ≠ .node id := by
    intro x id hx hcross hu
    refine hroot id hu (List.mem_flatMap.2 ⟨x.container, List.mem_of_getElem? (getElem?_nodes hx.node), ?_⟩)
    exact hx.mem_references (hcontent x id hx hcross)
  intro id way way' hwalk hwalk'
  induction way using List.reverseRecOn generalizing id way' with
  | nil =>
    rcases List.eq_nil_or_concat' way' with rfl | ⟨init, y, rfl⟩
    · rfl
    · obtain ⟨-, hy, hcross⟩ := hwalk'.of_snoc
      exact absurd hwalk.of_nil (hnone y id hy hcross)
  | append_singleton init x ih =>
    obtain ⟨hinit, hx, hcross⟩ := hwalk.of_snoc
    rcases List.eq_nil_or_concat' way' with rfl | ⟨init', y, rfl⟩
    · exact absurd hwalk'.of_nil (hnone x id hx hcross)
    · obtain ⟨hinit', hy, hcross'⟩ := hwalk'.of_snoc
      obtain rfl := hx.eq_of_references honce hy (hcontent x id hx hcross) (hcontent y id hy hcross')
      rw [ih _ _ hinit hinit']

/-! ## Forests -/

/-- The container at `id` refers to `ref`, in a field, an item, a map key or a map value. -/
def RefersTo (g : Graph) (id ref : NodeId) : Prop :=
  ∃ c, g.node? id = some c ∧ ref ∈ c.references

theorem BottomUp.index_lt_of_refersTo (h : g.BottomUp) {id ref : NodeId} (href : g.RefersTo id ref) :
    ref.index < id.index := by
  obtain ⟨c, hnode, hmem⟩ := href
  exact h id c hnode ref hmem

/-- All values are stored, containers refer to earlier ones, and no reference is stored
twice. The container of the root is the last one, and no reference to it is stored. -/
structure IsForest (g : Graph) (root : Value) : Prop where
  stored : ∀ x, g.Has x → ∃ v, x.slot.content = .stored v
  bottomUp : g.BottomUp
  once : g.references.Nodup
  last : ∀ id, root = .node id → id.index + 1 = g.size ∧ id ∉ g.references

namespace IsForest

variable {root : Value}

/-- No reference leads nowhere. -/
theorem exists_node (h : g.IsForest root) {outer id : NodeId} (href : g.RefersTo outer id) :
    ∃ c, g.node? id = some c := by
  have ⟨c, hnode, _⟩ := href
  have hid : id.index < g.size := Nat.lt_trans (h.bottomUp.index_lt_of_refersTo href) (index_lt_of_node? hnode)
  exact ⟨g.nodes[id.index], node?_eq_some_iff.2 ⟨hid, rfl⟩⟩

/-- No references lead back to where they start. -/
theorem acyclic (h : g.IsForest root) (id : NodeId) : ¬ Relation.TransGen g.RefersTo id id := by
  intro hcycle
  have hearlier (ref : NodeId) (hpath : Relation.TransGen g.RefersTo id ref) : ref.index < id.index := by
    induction hpath with
    | single href => exact h.bottomUp.index_lt_of_refersTo href
    | tail _ href ih => exact Nat.lt_trans (h.bottomUp.index_lt_of_refersTo href) ih
  exact Nat.lt_irrefl _ (hearlier id hcycle)

/-- No container is shared. -/
theorem outer_unique (h : g.IsForest root) {outer outer' id : NodeId} (href : g.RefersTo outer id)
    (href' : g.RefersTo outer' id) : outer = outer' := by
  obtain ⟨c, hnode, hid⟩ := href
  obtain ⟨c', hnode', hid'⟩ := href'
  have hindex : outer.index = outer'.index :=
    eq_of_mem_of_nodup_flatMap h.once (getElem?_nodes hnode) (getElem?_nodes hnode') hid hid'
  exact congrArg NodeId.mk hindex

end IsForest

end Graph

end ObjectGraph
