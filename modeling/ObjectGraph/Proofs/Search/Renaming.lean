-- SUMMARY: A search finds in a renamed graph what it finds in the graph, renamed.
import ObjectGraph.Proofs.Graph.Renaming
import ObjectGraph.Proofs.Search.Hits
import Mathlib.Data.List.Basic

/-! # Searching renamed graphs

A search follows references and tells containers apart, but it never looks at
their places. So it visits the renamed slots of a renamed graph in the same order
(`Search.visits_rename`), and finds the same at each (`Search.Visit.hits_rename`).
What cannot be reached from the target, and how the arena is numbered, makes no
difference to its hits (`Graph.search_hits_rename`).
-/

namespace ObjectGraph

/-! ## Renamed queries and hits -/

def Criterion.rename (r : Renaming) : Criterion → Criterion
  | .exact v => .exact (v.rename r)
  | c => c

def Query.rename (r : Renaming) (q : Query) : Query := { q with criterion := q.criterion.rename r }

def Hit.rename (r : Renaming) (h : Hit) : Hit := { h with value := h.value.rename r }

theorem Hit.typeName_rename (r : Renaming) (h : Hit) : (h.rename r).typeName = h.typeName :=
  h.value.typeName_rename

/-- The filter looks at no more of a container than its kind and its class, if the
key of the slot is not a container. -/
def Scope.LooksAtKinds (s : Scope) : Prop :=
  ∀ c c' key, c.kind = c'.kind → c.className = c'.className → key.IsPlain →
    s.accepts c key = s.accepts c' key

namespace Search

def Pending.rename (r : Renaming) (p : Pending) : Pending := ⟨p.way.map (Child.rename r), p.child.rename r⟩

def Visit.rename (r : Renaming) (v : Visit) : Visit :=
  ⟨v.pending.rename r, v.value.rename r, v.opened.map fun (id, c) => (r id, c.rename r)⟩

variable {g g' : Graph} {r : Renaming} {s : Scope} {q : Query} {target v : Value}
  {p : Pending} {pending : List Pending}

/-! ## One look -/

theorem Pending.child_mem_reach (p : Pending) : p.child ∈ p.reach :=
  List.mem_append_right _ (List.mem_singleton.2 rfl)

theorem Pending.reach_rename (p : Pending) : (p.rename r).reach = p.reach.map (Child.rename r) := by
  simp [Pending.reach, Pending.rename]

theorem pendingOf_rename (id : NodeId) (c : Container) (way : Way) :
    pendingOf (r id) (c.rename r) (way.map (Child.rename r)) =
      (pendingOf id c way).map (Pending.rename r) := by
  rw [pendingOf, c.children_rename, pendingOf, List.map_map, List.map_map]
  rfl

theorem path_rename {way : Way} (h : ∀ x ∈ way, x.slot.key.IsPlain) :
    Way.path (way.map (Child.rename r)) = way.path := by
  rw [Way.path, List.map_map, Way.path]
  refine List.map_congr_left fun x hx => ?_
  exact congrArg SlotKey.step (h x hx).rename_eq

theorem places_rename (way : Way) : Way.places (way.map (Child.rename r)) = way.places := by
  rw [Way.places, List.map_map]
  rfl

/-- A renamed slot is accepted and read as the slot is. -/
theorem look_rename (hs : s.LooksAtKinds) (hkey : p.child.slot.key.IsPlain) (log : ReadLog) :
    (p.rename r).look s log = ((p.look s log).1.map (Value.rename r), (p.look s log).2) := by
  have haccepts : s.accepts (p.rename r).child.container (p.rename r).child.slot.key =
      s.accepts p.child.container p.child.slot.key := by
    change s.accepts (p.child.container.rename r) (p.child.slot.key.rename r) = _
    rw [hkey.rename_eq]
    exact hs _ _ _ (Container.kind_rename _) (Container.className_rename _) hkey
  have hread := p.child.slot.content.read_rename (r := r) log
  have hcontent : (p.rename r).child.slot.content = p.child.slot.content.rename r := rfl
  unfold Pending.look
  rw [haccepts, hcontent, hread]
  split
  · rcases p.child.slot.content.read log with ⟨_ | _, _⟩ <;> rfl
  · rfl

/-- A renamed reference is entered where the reference is. -/
theorem entered?_rename (h : g.RenamesTo r target g')
    (hv : ∀ id, v = .node id → g.Reachable Scope.everything.CanCross target id) (s : Scope)
    (seen : List NodeId) (path : Path) :
    entered? g' s (seen.map r) path (v.rename r) =
      (entered? g s seen path v).map fun (id, c) => (r id, c.rename r) := by
  cases v with
  | node id =>
    have hseen : (seen.map r).contains (r id) = seen.contains id := by
      rw [Bool.eq_iff_iff, List.contains_iff_mem, List.contains_iff_mem, List.mem_map_of_injective h.injective]
    change (if s.reaches path && !(seen.map r).contains (r id) then (g'.node? (r id)).map (r id, ·)
      else none) = _
    rw [hseen, h.node?_rename (hv id rfl), entered?]
    split
    · cases g.node? id <;> rfl
    · rfl
  | _ => rfl

theorem Visit.entered_rename (u : Visit) : (u.rename r).entered = u.entered.map r := by
  obtain ⟨p, v, _ | ⟨id, c⟩⟩ := u <;> rfl

theorem Visit.way_rename (u : Visit) : (u.rename r).way = u.way.map (Child.rename r) :=
  u.pending.reach_rename

theorem Visit.children_rename (u : Visit) :
    (u.rename r).children = u.children.map (Pending.rename r) := by
  have hway := u.way_rename (r := r)
  obtain ⟨p, v, _ | ⟨id, c⟩⟩ := u
  · rfl
  · change pendingOf (r id) (c.rename r) _ ++ [] = (pendingOf id c _ ++ []).map _
    rw [hway, pendingOf_rename, List.append_nil, List.append_nil]

/-! ## All visits -/

theorem Pending.Located.reachable (hp : p.Located g s target) : ∀ x ∈ p.reach,
    g.Has x ∧ g.Reachable Scope.everything.CanCross target x.parent := by
  have hparent : ∀ x ∈ p.reach, g.Has x ∧ g.Reachable s.CanCross target x.parent := by
    intro x hx
    rcases List.mem_append.1 hx with hx | hx
    · exact ⟨hp.walk.has x hx, .of_mem_way (fun _ => .target) hp.walk x hx⟩
    · rw [List.mem_singleton.1 hx]
      exact ⟨hp.has, hp.walk.reachable⟩
  exact fun x hx => ⟨(hparent x hx).1, (hparent x hx).2.mono fun _ _ => Scope.CanCross.everything⟩

theorem Pending.Located.plain (hp : p.Located g s target) (h : g.RenamesTo r target g') :
    ∀ x ∈ p.reach, x.slot.key.IsPlain :=
  fun x hx => h.isPlain (hp.reachable x hx).1 (hp.reachable x hx).2

theorem Pending.Located.leads (hp : p.Located g s target) (hcross : s.CanCross p.child v) {id : NodeId}
    (hv : v = .node id) : g.Reachable Scope.everything.CanCross target id := by
  have hlast := hp.reachable p.child p.child_mem_reach
  exact .child hlast.2 hlast.1 (hv ▸ hcross.everything)

/-- In a renamed graph the renamed slots are visited, in the same order. -/
theorem visits_rename (h : g.RenamesTo r target g') (hs : s.LooksAtKinds)
    (hpending : ∀ p ∈ pending, p.Located g s target) (seen : List NodeId) (log : ReadLog) :
    visits g' s (seen.map r) log (pending.map (Pending.rename r)) =
      (visits g s seen log pending).map (Visit.rename r) := by
  fun_induction visits g s seen log pending with
  | case1 => exact visits_nil
  | case2 seen log p rest log' hlook ih =>
    have hfirst := hpending p (List.mem_cons_self ..)
    have hplain := hfirst.plain h p.child p.child_mem_reach
    have hlook' := look_rename (r := r) hs hplain log
    rw [hlook] at hlook'
    rw [List.map_cons, visits_skip hlook']
    exact ih fun p hp => hpending p (List.mem_cons_of_mem _ hp)
  | case3 seen log p rest value log' hlook visit ih =>
    have hfirst := hpending p (List.mem_cons_self ..)
    have hplain := hfirst.plain h
    have hlook' := look_rename (r := r) hs (hplain p.child p.child_mem_reach) log
    rw [hlook] at hlook'
    have hpath : (p.rename r).reach.path = p.reach.path := by rw [p.reach_rename, path_rename hplain]
    have hopened := entered?_rename h (fun id => hfirst.leads (canCross_of_look hlook)) s seen
      (p.rename r).reach.path
    rw [List.map_cons, visits_look hlook', List.map_cons, hopened, hpath]
    change visit.rename r :: visits g' s ((visit.rename r).entered ++ seen.map r) log'
      ((visit.rename r).children ++ rest.map (Pending.rename r)) = _
    rw [visit.entered_rename, visit.children_rename, ← List.map_append, ← List.map_append,
      ih (located_after_look hpending hlook)]

/-! ## Hits -/

theorem matchesValue_rename (hr : Function.Injective r) (c : Criterion) (v : Value) :
    (c.rename r).matchesValue (v.rename r) = c.matchesValue v := by
  cases c with
  | exact w => exact v.beq_rename hr w
  | _ => cases v <;> rfl

/-- A criterion that asks for a container meets no plain key, whatever its place. -/
theorem matchesSlotKey_rename {key : SlotKey} (hkey : key.IsPlain) (c : Criterion) :
    (c.rename r).matchesSlotKey key = c.matchesSlotKey key := by
  cases c with
  | exact w =>
    cases w with
    | node id =>
      cases key with
      | field key => cases key <;> rfl
      | index n => rfl
      | entry key =>
        cases key with
        | node id' => exact absurd rfl (hkey id')
        | _ => rfl
    | _ => rfl
  | _ => rfl

theorem matchesType_rename (h : g.RenamesTo r target g')
    (hv : ∀ id, v = .node id → g.Reachable Scope.everything.CanCross target id) (c : Criterion) :
    (c.rename r).matchesType g' (v.rename r) = c.matchesType g v := by
  cases c with
  | exact w =>
    cases w with
    | string name => exact congrArg (· == name) v.typeName_rename
    | _ => rfl
  | pattern holds => rfl
  | type tag => exact h.isInstance_rename hv tag

theorem finds_rename (h : g.RenamesTo r target g')
    (hv : ∀ id, v = .node id → g.Reachable Scope.everything.CanCross target id) {key : SlotKey}
    (hkey : key.IsPlain) (path : Path) (kind : HitKind) :
    finds g' (q.rename r) key path (v.rename r) kind = finds g q key path v kind := by
  cases kind with
  | key => exact congrArg (q.mode.checks .key && ·) (matchesSlotKey_rename hkey q.criterion)
  | value => exact congrArg (q.mode.checks .value && ·) (matchesValue_rename h.injective q.criterion v)
  | type =>
    have htests : testsType (q.rename r) path (v.rename r) = testsType q path v := by
      simp [testsType, Query.rename]
    have htype := matchesType_rename h hv q.criterion
    simp only [finds, htests]
    exact congrArg (testsType q path v && ·) htype

/-- What is found at a renamed visit is what is found at the visit, renamed. -/
theorem Visit.hits_rename (h : g.RenamesTo r target g') {u : Visit}
    (hlocated : u.pending.Located g s target) (hcross : s.CanCross u.pending.child u.value) :
    (u.rename r).hits g' (q.rename r) = (u.hits g q).map (Hit.rename r) := by
  have hplain := hlocated.plain h
  have hkey := hplain u.pending.child u.pending.child_mem_reach
  have hpath : (u.rename r).way.path = u.way.path := by rw [u.way_rename]; exact path_rename hplain
  have hplaces : (u.rename r).way.places = u.way.places := by rw [u.way_rename, places_rename]
  have hfinds : finds g' (q.rename r) (u.rename r).pending.child.slot.key u.way.path (u.rename r).value =
      finds g q u.pending.child.slot.key u.way.path u.value := by
    change finds g' (q.rename r) (u.pending.child.slot.key.rename r) _ (u.value.rename r) = _
    rw [hkey.rename_eq]
    exact funext (finds_rename h (fun id => hlocated.leads hcross) hkey _)
  rw [hits_eq, hits_eq, hpath, hplaces, hfinds, List.map_map]
  rfl

end Search

namespace Graph

open Search

variable {g g' : Graph} {r : Renaming} {target : Value} {q : Query}

theorem visits_rename (h : g.RenamesTo r target g') {s : Scope} (hs : s.LooksAtKinds) (log : ReadLog) :
    g'.visits (target.rename r) s log = (g.visits target s log).map (Visit.rename r) := by
  have hentered := entered?_rename h (fun _ => .target) s [] []
  cases htarget : entered? g s [] [] target with
  | none =>
    rw [htarget] at hentered
    change entered? g' s [] [] (target.rename r) = none at hentered
    simp [visits, htarget, hentered]
  | some opened =>
    obtain ⟨id, c⟩ := opened
    rw [htarget] at hentered
    change entered? g' s [] [] (target.rename r) = some (r id, c.rename r) at hentered
    obtain ⟨rfl, _, _, hnode⟩ := entered?_eq_some htarget
    have hvisits := Search.visits_rename h hs (fun p => located_of_mem_pendingOf hnode) [id] log
    rw [← pendingOf_rename] at hvisits
    simp only [visits, htarget, hentered]
    exact hvisits

theorem allHits_rename (h : g.RenamesTo r target g') (hs : q.toScope.LooksAtKinds) (log : ReadLog) :
    g'.allHits (target.rename r) (q.rename r) log = (g.allHits target q log).map (Hit.rename r) := by
  have htarget : g'.targetHits (target.rename r) (q.rename r) =
      (g.targetHits target q).map (Hit.rename r) := by
    have htype := matchesType_rename h (fun _ => .target) q.criterion
    change (if q.mode.checks .type && (q.criterion.rename r).matchesType g' (target.rename r) then _
      else []) = _
    rw [htype, targetHits]
    split <;> rfl
  have hvisits := visits_rename h hs log
  have hbelow : (g'.visits (target.rename r) q.toScope log).flatMap (Visit.hits g' (q.rename r)) =
      ((g.visits target q.toScope log).flatMap (Visit.hits g q)).map (Hit.rename r) := by
    rw [hvisits, List.flatMap_map, List.map_flatMap]
    exact List.flatMap_congr fun u hu =>
      Visit.hits_rename h (located_of_mem_visits hu) (canCross_of_mem_visits hu)
  rw [allHits, allHits, List.map_append, ← htarget, ← hbelow]
  rfl

/-- A search depends on what is reachable from its target only: in a renamed graph
it finds the same at the same paths, in the same order, with the values renamed. -/
theorem search_hits_rename (h : g.RenamesTo r target g') (hs : q.toScope.LooksAtKinds) (log : ReadLog) :
    let hits := (g.search target q log).hits
    let renamed := (g'.search (target.rename r) (q.rename r) log).hits
    renamed = hits.map (Hit.rename r) ∧ renamed.map Hit.typeName = hits.map Hit.typeName := by
  intro hits renamed
  have hrenamed : renamed = hits.map (Hit.rename r) := by
    have hnullish := target.isNullish_rename (r := r)
    unfold renamed hits
    cases htarget : target.isNullish with
    | true =>
      rw [htarget] at hnullish
      rw [search_hits_of_isNullish htarget, search_hits_of_isNullish hnullish, List.map_nil]
    | false =>
      rw [htarget] at hnullish
      rw [search_hits htarget, search_hits hnullish, allHits_rename h hs, List.map_take]
      rfl
  refine ⟨hrenamed, ?_⟩
  rw [hrenamed, List.map_map]
  exact List.map_congr_left fun hit _ => hit.typeName_rename r

/-- A sequence that holds a record twice, which refers back; and a reference to nothing. -/
def ring : Graph :=
  { Graph.empty with nodes := #[
      .sequence [.node ⟨1⟩, .node ⟨1⟩, .node ⟨5⟩],
      .record ⟨none, [(.name "back", ⟨.stored (.node ⟨0⟩), true⟩)], by decide⟩] }

/-- The ring behind another container. -/
def shiftedRing : Graph :=
  { Graph.empty with nodes := #[
      .sequence [.node ⟨2⟩],
      .sequence [.node ⟨2⟩, .node ⟨2⟩, .node ⟨6⟩],
      .record ⟨none, [(.name "back", ⟨.stored (.node ⟨1⟩), true⟩)], by decide⟩] }

def shift : Renaming := fun id => ⟨id.index + 1⟩

theorem renamesTo_shiftedRing : ring.RenamesTo shift (.node ⟨0⟩) shiftedRing where
  classes := rfl
  injective := fun a b h => by
    cases a
    cases b
    simpa [shift] using h
  nodes := fun ⟨i⟩ c _ hnode => by
    match i with
    | 0 => cases hnode; rfl
    | 1 => cases hnode; rfl
    | i + 2 => cases hnode
  missing := fun ⟨i⟩ hnone => by
    match i with
    | 0 => cases hnone
    | 1 => cases hnone
    | i + 2 => rfl
  plain := fun ⟨i⟩ entries _ hnode => by
    match i with
    | 0 => cases hnode
    | 1 => cases hnode
    | i + 2 => cases hnode

/-- The record is found by its place in either graph. -/
theorem search_hits_rename_ring :
    let q := Query.plain .value (.exact (.node ⟨1⟩))
    (ring.RenamesTo shift (.node ⟨0⟩) shiftedRing ∧ q.toScope.LooksAtKinds) ∧
    (shiftedRing.search (.node ⟨1⟩) (Query.plain .value (.exact (.node ⟨2⟩))) []).hits =
      [⟨[.index 0], [0], .node ⟨2⟩, .value⟩, ⟨[.index 1], [1], .node ⟨2⟩, .value⟩] := by
  intro q
  have hkinds : q.toScope.LooksAtKinds := fun _ _ _ _ _ _ => rfl
  have hhits : (ring.search (.node ⟨0⟩) q []).hits =
      [⟨[.index 0], [0], .node ⟨1⟩, .value⟩, ⟨[.index 1], [1], .node ⟨1⟩, .value⟩] := by cbv
  refine ⟨⟨renamesTo_shiftedRing, hkinds⟩, ?_⟩
  refine (search_hits_rename renamesTo_shiftedRing hkinds []).1.trans ?_
  rw [hhits]
  rfl

end Graph

end ObjectGraph
