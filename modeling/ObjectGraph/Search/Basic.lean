-- SUMMARY: Depth-first search of a graph: queries, hits, and the walk that collects them.
import ObjectGraph.Path.Resolve
import ObjectGraph.Search.Criterion

/-! # Search

A search keeps the child slots still to be looked at in a list, in document
order. It takes the first one, asks the filter, reads the slot and tests what it
finds; if that is a container not entered before, its own slots go in front of
the others. Each container is entered at most once, which is why the walk ends.
-/

namespace ObjectGraph

/-! ## Queries and hits -/

/-- The step that a slot key is written as. -/
def SlotKey.step : SlotKey → Step
  | .field (.name name) => .field name
  | .field (.symbol s) => .symbol s.label
  | .index n => .index n
  | .entry (.symbol s) => .entry s.label true
  | .entry key => .entry key.display false

/-- The part of a graph that a search looks at. -/
structure Scope where
  /-- Which slots of a container to look at. -/
  accepts : Container → SlotKey → Bool
  /-- The greatest length of a path to a hit, 0 for no bound. -/
  maxDepth : Nat

/-- May a container at the end of such a path be entered? -/
def Scope.reaches (s : Scope) (path : Path) : Bool := s.maxDepth == 0 || path.length < s.maxDepth

structure Query extends Scope where
  mode : Mode
  criterion : Criterion
  maxResults : Nat

namespace Query

def defaultMaxResults : Nat := 10000

/-- A search without filter and depth bound. -/
def plain (mode : Mode) (criterion : Criterion) : Query :=
  { mode, criterion, accepts := fun _ _ => true, maxDepth := 0, maxResults := defaultMaxResults }

end Query

structure Hit where
  path : Path
  /-- The child positions of the walk that found it. -/
  places : List Nat
  value : Value
  kind : HitKind
deriving DecidableEq, Repr

def Hit.typeName (h : Hit) : String := h.value.typeName

/-- A question to the filter, and its answer. -/
structure Consultation where
  container : Container
  key : SlotKey
  accepted : Bool

structure Outcome where
  hits : List Hit
  /-- Every question to the filter, in order. -/
  consulted : List Consultation
  log : ReadLog

/-! ## The walk -/

/-- The slots crossed on the way from a target downwards. -/
abbrev Way := List Child

namespace Way

def path (w : Way) : Path := w.map (·.slot.key.step)

/-- The positions of the slots in their containers. -/
def places (w : Way) : List Nat := w.map (·.position)

end Way

namespace Search

/-- A child slot still to be looked at, and the way to its container. -/
structure Pending where
  way : Way
  child : Child

/-- The way to the slot itself. -/
def Pending.reach (p : Pending) : Way := p.way ++ [p.child]

/-- The slots of the container at a place that was reached along a way. -/
def pendingOf (id : NodeId) (c : Container) (way : Way) : List Pending :=
  (c.children id).map (⟨way, ·⟩)

/-- The container that a value leads into, unless it was entered before or the
path is too long. -/
def entered? (g : Graph) (s : Scope) (seen : List NodeId) (path : Path) (v : Value) :
    Option (NodeId × Container) :=
  match v with
  | .node id =>
    if s.reaches path && !seen.contains id then (g.node? id).map (id, ·) else none
  | _ => none

/-- Is the type of a value tested at the end of such a path? A scalar always, a
container only where it may be entered. -/
def testsType (q : Query) (path : Path) (v : Value) : Bool :=
  q.mode.checks .type && (v.isScalar || q.reaches path)

/-- The hits at a slot in order: key, value, type. -/
def hitsAt (g : Graph) (q : Query) (key : SlotKey) (path : Path) (places : List Nat) (v : Value) :
    List Hit :=
  (if q.mode.checks .key && q.criterion.matchesSlotKey key then [⟨path, places, v, .key⟩] else [])
  ++ (if q.mode.checks .value && q.criterion.matchesValue v then [⟨path, places, v, .value⟩] else [])
  ++ (if testsType q path v && q.criterion.matchesType g v then [⟨path, places, v, .type⟩] else [])

theorem entered?_eq_some {g : Graph} {s : Scope} {seen : List NodeId} {path : Path} {v : Value}
    {id : NodeId} {c : Container} (h : entered? g s seen path v = some (id, c)) :
    v = .node id ∧ s.reaches path = true ∧ seen.contains id = false ∧ g.node? id = some c := by
  cases v <;> simp only [entered?, reduceCtorEq] at h
  split at h
  · rename_i hcond
    simp only [Bool.and_eq_true, Bool.not_eq_eq_eq_not, Bool.not_true] at hcond
    simp only [Option.map_eq_some_iff, Prod.mk.injEq] at h
    obtain ⟨_, hnode, rfl, rfl⟩ := h
    exact ⟨rfl, hcond.1, hcond.2, hnode⟩
  · simp at h

theorem unseen_of_entered? {g : Graph} {s : Scope} {seen : List NodeId} {path : Path} {v : Value}
    {id : NodeId} {c : Container} (h : entered? g s seen path v = some (id, c)) :
    g.unseen (id :: seen) < g.unseen seen :=
  have ⟨_, _, hseen, hnode⟩ := entered?_eq_some h
  Graph.unseen_cons_lt hseen (Graph.index_lt_of_node? hnode)

/-- Look at the pending slots in order while there is room for hits. -/
def walk (g : Graph) (q : Query) (seen : List NodeId) (room : Nat) (log : ReadLog) :
    List Pending → Outcome
  | [] => ⟨[], [], log⟩
  | p :: rest =>
    if room = 0 then ⟨[], [], log⟩
    else
      let key := p.child.slot.key
      let accepted := q.accepts p.child.container key
      let asked : Consultation := ⟨p.child.container, key, accepted⟩
      if accepted then
        match p.child.slot.content.read log with
        | (.error _, log) =>
          let later := walk g q seen room log rest
          { later with consulted := asked :: later.consulted }
        | (.ok v, log) =>
          let path := p.reach.path
          let hits := (hitsAt g q key path p.reach.places v).take room
          let later := match _ : entered? g q.toScope seen path v with
            | some (id, c) =>
              walk g q (id :: seen) (room - hits.length) log (pendingOf id c p.reach ++ rest)
            | none => walk g q seen (room - hits.length) log rest
          ⟨hits ++ later.hits, asked :: later.consulted, later.log⟩
      else
        let later := walk g q seen room log rest
        { later with consulted := asked :: later.consulted }
termination_by pending => (g.unseen seen, pending.length)
decreasing_by
  · exact Prod.Lex.right _ (by simp)
  · exact Prod.Lex.left _ _ (unseen_of_entered? (by assumption))
  · exact Prod.Lex.right _ (by simp)
  · exact Prod.Lex.right _ (by simp)

end Search

/-! ## Searching -/

namespace Graph

/-- Search the graph from a target. Null and undefined hold nothing. -/
def search (g : Graph) (target : Value) (q : Query) (log : ReadLog) : Outcome :=
  if target.isNullish then ⟨[], [], log⟩
  else
    let hits : List Hit :=
      if q.mode.checks .type && q.criterion.matchesType g target then [⟨[], [], target, .type⟩]
      else []
    let hits := hits.take q.maxResults
    let room := q.maxResults - hits.length
    let below := match Search.entered? g q.toScope [] [] target with
      | some (id, c) => Search.walk g q [id] room log (Search.pendingOf id c [])
      | none => ⟨[], [], log⟩
    { below with hits := hits ++ below.hits }

end Graph

end ObjectGraph
