-- SUMMARY: Walks along child slots, reachable containers, and graphs that answer every read alike.
import ObjectGraph.Search.Basic

/-! # Walks

A walk starts at a value and crosses child slots of containers that exist. Which
slots may be crossed, and to which value, is a parameter: a scope allows a slot
that its filter accepts, once some read (`Scope.CanCross`) or every read
(`Scope.Crosses`) gives the value. In a steady graph these are the same.
-/

namespace ObjectGraph

/-! ## Reading -/

namespace Content

/-- Some read gives the value. -/
def CanGive (c : Content) (v : Value) : Prop := ∃ log, (c.read log).1 = .ok v

/-- Every read gives the value. -/
def Gives (c : Content) (v : Value) : Prop := ∀ log, (c.read log).1 = .ok v

theorem CanGive.of_read {c : Content} {v : Value} {log log' : ReadLog}
    (h : c.read log = (.ok v, log')) : c.CanGive v :=
  ⟨log, congrArg Prod.fst h⟩

theorem Steady.read_eq {c : Content} (h : c.Steady) (log log' : ReadLog) :
    (c.read log).1 = (c.read log').1 := by
  cases c with
  | stored v => rfl
  | computed a => exact (a.read_of_steady h log).trans (a.read_of_steady h log').symm

theorem Steady.gives {c : Content} {v : Value} (h : c.Steady) (hv : c.CanGive v) : c.Gives v := by
  obtain ⟨log, hlog⟩ := hv
  exact fun log' => (h.read_eq log' log).trans hlog

theorem Gives.unique {c : Content} {v w : Value} (hv : c.Gives v) (hw : c.Gives w) : v = w := by
  have h := (hv []).symm.trans (hw [])
  injection h

end Content

/-! ## Child slots of a graph -/

/-- What a search can report on: the target itself, or a slot of a container. -/
inductive Site where
  | target
  | slot (id : NodeId) (position : Nat)
deriving DecidableEq, Repr

def Child.site (x : Child) : Site := .slot x.parent x.position

/-- The slot at which a way ends. -/
def Way.site (w : Way) : Site :=
  match w.getLast? with
  | none => .target
  | some x => x.site

@[simp] theorem Way.site_snoc (w : Way) (x : Child) : Way.site (w ++ [x]) = x.site := by
  simp [Way.site]

@[simp] theorem Way.site_cons_cons (x y : Child) (w : Way) :
    Way.site (x :: y :: w) = Way.site (y :: w) := by
  simp [Way.site]

@[simp] theorem Way.length_path (w : Way) : w.path.length = w.length := List.length_map ..

theorem Container.parent_of_mem_children {id : NodeId} {c : Container} {x : Child}
    (hx : x ∈ c.children id) : x.parent = id := by
  obtain ⟨i, hi, rfl⟩ := List.mem_mapIdx.1 hx
  rfl

theorem Container.nodup_sites (c : Container) (id : NodeId) : ((c.children id).map Child.site).Nodup := by
  have hsites : (c.children id).map Child.site = (List.range c.slots.length).map (Site.slot id) := by
    apply List.ext_getElem <;> simp [children, Child.site]
  rw [hsites]
  refine List.Pairwise.map _ (fun i j hne heq => hne ?_) List.nodup_range
  injection heq

namespace Graph

/-- The graph has this child slot. -/
structure Has (g : Graph) (x : Child) : Prop where
  node : g.node? x.parent = some x.container
  slot : x.container.slots[x.position]? = some x.slot

/-- A slot of the graph is a field, an item or an entry, as its container has it. -/
theorem Has.cases {g : Graph} {x : Child} (hx : g.Has x) :
    (∃ id r i key p, r.fields[i]? = some (key, p) ∧
      x = ⟨id, .record r, i, ⟨.field key, p.content⟩⟩) ∨
    (∃ id items i item, items[i]? = some item ∧
      x = ⟨id, .sequence items, i, ⟨.index i, .stored item⟩⟩) ∨
    (∃ id entries i key v, entries[i]? = some (key, v) ∧
      x = ⟨id, .map entries, i, ⟨.entry key, .stored v⟩⟩) := by
  obtain ⟨id, c, i, slot⟩ := x
  have hslot : c.slots[i]? = some slot := hx.slot
  rcases Container.slots_cases hslot with ⟨r, key, p, rfl, hfield, rfl⟩ |
    ⟨items, item, rfl, hitem, rfl⟩ | ⟨entries, key, v, rfl, hentry, rfl⟩
  · exact .inl ⟨id, r, i, key, p, hfield, rfl⟩
  · exact .inr (.inl ⟨id, items, i, item, hitem, rfl⟩)
  · exact .inr (.inr ⟨id, entries, i, key, v, hentry, rfl⟩)

/-- Every accessor answers every read alike. -/
def Steady (g : Graph) : Prop := ∀ x, g.Has x → x.slot.content.Steady

theorem steady_iff {g : Graph} :
    g.Steady ↔ ∀ c ∈ g.nodes, ∀ slot ∈ c.slots, slot.content.Steady := by
  constructor
  · intro hg c hc slot hslot
    obtain ⟨i, hi, hc⟩ := Array.getElem_of_mem hc
    obtain ⟨j, hj, hslot⟩ := List.getElem_of_mem hslot
    exact hg ⟨⟨i⟩, c, j, slot⟩ ⟨node?_eq_some_iff.2 ⟨hi, hc⟩, List.getElem?_eq_some_iff.2 ⟨hj, hslot⟩⟩
  · intro hall x hx
    obtain ⟨hi, hc⟩ := node?_eq_some_iff.1 hx.node
    exact hall _ (hc ▸ Array.getElem_mem hi) _ (List.mem_of_getElem? hx.slot)

/-- A child slot is known by its container and its position there. -/
theorem Has.unique {g : Graph} {x y : Child} (hx : g.Has x) (hy : g.Has y)
    (hparent : x.parent = y.parent) (hposition : x.position = y.position) : x = y := by
  obtain ⟨id, c, i, slot⟩ := x
  obtain ⟨id', c', i', slot'⟩ := y
  obtain rfl : id = id' := hparent
  obtain rfl : i = i' := hposition
  obtain rfl : c = c' := Option.some.inj (hx.node.symm.trans hy.node)
  obtain rfl : slot = slot' := Option.some.inj (hx.slot.symm.trans hy.slot)
  rfl

theorem has_of_mem_children {g : Graph} {id : NodeId} {c : Container} {x : Child}
    (hnode : g.node? id = some c) (hx : x ∈ c.children id) : g.Has x := by
  obtain ⟨i, hi, rfl⟩ := List.mem_mapIdx.1 hx
  exact ⟨hnode, List.getElem?_eq_getElem hi⟩

theorem Has.mem_children {g : Graph} {x : Child} (hx : g.Has x) :
    x ∈ x.container.children x.parent := by
  obtain ⟨hi, hslot⟩ := List.getElem?_eq_some_iff.1 hx.slot
  exact List.mem_mapIdx.2 ⟨x.position, hi, by rw [hslot]⟩

/-! ## Walks -/

/-- From a value along child slots, each of which leads to where the next one is. -/
inductive Walk (g : Graph) (leads : Child → Value → Prop) : Value → Way → Value → Prop
  | here (v : Value) : Walk g leads v [] v
  | cross {x : Child} {v w : Value} {rest : Way} :
    g.Has x → leads x v → Walk g leads v rest w → Walk g leads (.node x.parent) (x :: rest) w

namespace Walk

variable {g : Graph} {leads leads' : Child → Value → Prop} {u v w : Value} {way way' : Way} {x : Child}

theorem append (h : g.Walk leads u way v) (h' : g.Walk leads v way' w) :
    g.Walk leads u (way ++ way') w := by
  induction h with
  | here => exact h'
  | cross hx hlead _ ih => exact .cross hx hlead (ih h')

theorem snoc (h : g.Walk leads u way (.node x.parent)) (hx : g.Has x) (hlead : leads x v) :
    g.Walk leads u (way ++ [x]) v :=
  h.append (.cross hx hlead (.here v))

theorem of_nil (h : g.Walk leads u [] v) : u = v := by
  cases h
  rfl

theorem of_cons (h : g.Walk leads u (x :: way) w) :
    u = .node x.parent ∧ g.Has x ∧ ∃ v, leads x v ∧ g.Walk leads v way w := by
  cases h with
  | cross hx hlead hrest => exact ⟨rfl, hx, _, hlead, hrest⟩

theorem of_append (h : g.Walk leads u (way ++ way') w) :
    ∃ v, g.Walk leads u way v ∧ g.Walk leads v way' w := by
  induction way generalizing u with
  | nil => exact ⟨u, .here u, h⟩
  | cons x rest ih =>
    obtain ⟨rfl, hx, v, hlead, hrest⟩ := h.of_cons
    obtain ⟨v', hbefore, hafter⟩ := ih hrest
    exact ⟨v', .cross hx hlead hbefore, hafter⟩

theorem of_snoc (h : g.Walk leads u (way ++ [x]) w) :
    g.Walk leads u way (.node x.parent) ∧ g.Has x ∧ leads x w := by
  obtain ⟨v, hbefore, hlast⟩ := h.of_append
  obtain ⟨rfl, hx, next, hlead, hrest⟩ := hlast.of_cons
  obtain rfl := hrest.of_nil
  exact ⟨hbefore, hx, hlead⟩

theorem mono (hsub : ∀ x v, g.Has x → leads x v → leads' x v) (h : g.Walk leads u way w) :
    g.Walk leads' u way w := by
  induction h with
  | here v => exact .here v
  | cross hx hlead _ ih => exact .cross hx (hsub _ _ hx hlead) ih

theorem has (h : g.Walk leads u way w) : ∀ x ∈ way, g.Has x := by
  induction h with
  | here => simp
  | cross hx _ _ ih => exact List.forall_mem_cons.2 ⟨hx, ih⟩

end Walk

/-- A container is reachable if the target refers to it, or a child of a
reachable container does. -/
inductive Reachable (g : Graph) (leads : Child → Value → Prop) (target : Value) : NodeId → Prop
  | target {id : NodeId} : target = .node id → Reachable g leads target id
  | child {x : Child} {id : NodeId} :
    Reachable g leads target x.parent → g.Has x → leads x (.node id) → Reachable g leads target id

theorem Reachable.of_walk {g : Graph} {leads : Child → Value → Prop} {target u : Value} {way : Way}
    {id : NodeId} (hstart : ∀ start, u = .node start → g.Reachable leads target start)
    (h : g.Walk leads u way (.node id)) : g.Reachable leads target id := by
  generalize hend : Value.node id = w at h
  induction h with
  | here => exact hstart id hend.symm
  | cross hx hlead _ ih =>
    refine ih (fun start hvalue => ?_) hend
    subst hvalue
    exact .child (hstart _ rfl) hx hlead

theorem Reachable.of_mem_way {g : Graph} {leads : Child → Value → Prop} {target u v : Value} {way : Way}
    (hstart : ∀ start, u = .node start → g.Reachable leads target start)
    (h : g.Walk leads u way v) : ∀ x ∈ way, g.Reachable leads target x.parent := by
  induction h with
  | here => simp
  | cross hx hlead _ ih =>
    refine List.forall_mem_cons.2 ⟨hstart _ rfl, ih fun start hvalue => ?_⟩
    exact .child (hstart _ rfl) hx (hvalue ▸ hlead)

theorem Reachable.mono {g : Graph} {leads leads' : Child → Value → Prop} {target : Value} {id : NodeId}
    (hsub : ∀ x v, leads x v → leads' x v) (h : g.Reachable leads target id) :
    g.Reachable leads' target id := by
  induction h with
  | target htarget => exact .target htarget
  | child _ hx hlead ih => exact .child ih hx (hsub _ _ hlead)

theorem Walk.reachable {g : Graph} {leads : Child → Value → Prop} {target : Value} {way : Way}
    {id : NodeId} (h : g.Walk leads target way (.node id)) : g.Reachable leads target id :=
  .of_walk (fun _ => .target) h

end Graph

/-! ## Crossing within a scope -/

namespace Scope

/-- The filter accepts the slot and some read of it gives the value. -/
def CanCross (s : Scope) (x : Child) (v : Value) : Prop :=
  s.accepts x.container x.slot.key = true ∧ x.slot.content.CanGive v

/-- The filter accepts the slot and every read of it gives the value. -/
def Crosses (s : Scope) (x : Child) (v : Value) : Prop :=
  s.accepts x.container x.slot.key = true ∧ x.slot.content.Gives v

theorem Crosses.canCross {s : Scope} {x : Child} {v : Value} (h : s.Crosses x v) : s.CanCross x v :=
  ⟨h.1, [], h.2 []⟩

/-- All slots, to any depth. -/
def everything : Scope := ⟨fun _ _ => true, 0⟩

theorem CanCross.everything {s : Scope} {x : Child} {v : Value} (h : s.CanCross x v) :
    Scope.everything.CanCross x v :=
  ⟨rfl, h.2⟩

end Scope

namespace Graph

theorem Steady.crosses {g : Graph} {s : Scope} (hg : g.Steady) {x : Child} {v : Value}
    (hx : g.Has x) (h : s.CanCross x v) : s.Crosses x v :=
  ⟨h.1, (hg x hx).gives h.2⟩

/-- In a steady graph the positions crossed settle the walk. -/
theorem Steady.walk_unique {g : Graph} {s : Scope} (hg : g.Steady) {u v v' : Value} {way way' : Way}
    (h : g.Walk s.CanCross u way v) (h' : g.Walk s.CanCross u way' v')
    (hplaces : way.places = way'.places) : way = way' ∧ v = v' := by
  induction h generalizing way' with
  | here =>
    cases h' with
    | here => exact ⟨rfl, rfl⟩
    | cross => cases hplaces
  | @cross x value _ rest hx hcross _ ih =>
    cases way' with
    | nil => cases hplaces
    | cons y rest' =>
      obtain ⟨hposition, htail⟩ := List.cons.inj hplaces
      obtain ⟨hparent, hy, value', hcross', hrest'⟩ := h'.of_cons
      obtain rfl := hx.unique hy (Value.node.inj hparent) hposition
      obtain rfl := (hg.crosses hx hcross).2.unique (hg.crosses hx hcross').2
      obtain ⟨rfl, rfl⟩ := ih hrest' htail
      exact ⟨rfl, rfl⟩

/-- In a steady graph a walk whose positions begin another's is its beginning. -/
theorem Steady.exists_append {g : Graph} {s : Scope} (hg : g.Steady) {u v w : Value} {way way' : Way}
    (h : g.Walk s.CanCross u way v) (h' : g.Walk s.CanCross u way' w) {later : List Nat}
    (hplaces : way'.places = way.places ++ later) :
    ∃ rest, way' = way ++ rest ∧ Way.places rest = later ∧ g.Walk s.CanCross v rest w := by
  obtain ⟨before, rest, rfl, hbefore, hrest⟩ := List.map_eq_append_iff.1 hplaces
  obtain ⟨v', hstart, hend⟩ := h'.of_append
  obtain ⟨rfl, rfl⟩ := hg.walk_unique h hstart hbefore.symm
  exact ⟨rest, rfl, hrest, hend⟩

end Graph

end ObjectGraph
