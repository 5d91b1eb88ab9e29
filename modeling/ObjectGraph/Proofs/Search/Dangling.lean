-- SUMMARY: A reference that leads nowhere is as good as one to an empty record, in a search and on a path.
import ObjectGraph.Proofs.Search.Bounds
import ObjectGraph.Proofs.Search.Correspondence

/-! # References that lead nowhere

A value may refer to the place behind the last container of its graph. If an empty
record without a class is added there, no search and no path can tell the two graphs
apart (`Graph.search_and_resolve_addRecord`). The record is entered where the reference
led nowhere, but it has no slots to wait for, it is a member of the same types as
nothing, and no step leads out of it.
-/

namespace ObjectGraph

namespace Graph

variable {g : Graph}

/-- A reference leads to the same container as before, or from now on to the empty record. -/
theorem node?_addRecord (g : Graph) (id : NodeId) :
    g.addRecord.2.node? id = g.node? id ∨
      g.node? id = none ∧ g.addRecord.2.node? id = some (.record .empty) := by
  have hpush : g.addRecord.2.node? id = if id.index = g.size then some (.record .empty) else g.node? id :=
    Array.getElem?_push
  by_cases hid : id.index = g.size
  · right
    rw [hpush, if_pos hid]
    exact ⟨Array.getElem?_eq_none (Nat.le_of_eq hid.symm), rfl⟩
  · left
    rw [hpush, if_neg hid]

/-! ## Types and steps -/

theorem isInstance_addRecord (v : Value) (tag : TypeTag) :
    g.addRecord.2.isInstance v tag = g.isInstance v tag := by
  cases v with
  | node id =>
    rw [isInstance_node, isInstance_node]
    rcases g.node?_addRecord id with hsame | ⟨hnone, hempty⟩
    · rw [hsame]
      rfl
    · rw [hnone, hempty]
      cases tag <;> rfl
  | _ => cases tag <;> rfl

theorem locate_addRecord (v : Value) (step : Step) : g.addRecord.2.locate v step = g.locate v step := by
  cases v with
  | node id =>
    change (g.addRecord.2.node? id).bind (·.locate step) = (g.node? id).bind (·.locate step)
    rcases g.node?_addRecord id with hsame | ⟨hnone, hempty⟩
    · rw [hsame]
    · rw [hnone, hempty]
      cases step with
      | entry text isSymbol => cases isSymbol <;> rfl
      | _ => rfl
  | _ => rfl

theorem resolve_addRecord (v : Value) (path : Path) (log : ReadLog) :
    g.addRecord.2.resolve v path log = g.resolve v path log := by
  induction path generalizing v log with
  | nil => rfl
  | cons step rest ih =>
    rw [resolve, resolve, locate_addRecord]
    cases g.locate v step with
    | none => rfl
    | some content =>
      dsimp only
      split
      · rfl
      · exact ih _ _

end Graph

/-! ## The walk -/

namespace Search

variable {g : Graph} {s : Scope} {q : Query} {seen followed : List NodeId}

theorem SameSeen.refl (g : Graph) (seen : List NodeId) : SameSeen g seen seen := fun _ _ _ => Iff.rfl

theorem hitsAt_addRecord (key : SlotKey) (path : Path) (places : List Nat) (v : Value) :
    hitsAt g.addRecord.2 q key path places v = hitsAt g q key path places v := by
  have htype : q.criterion.matchesType g.addRecord.2 v = q.criterion.matchesType g v :=
    matchesType_congr fun tag _ => Graph.isInstance_addRecord v tag
  rw [hitsAt, hitsAt, htype]

/-- The same is entered in both graphs, or nothing in the first and the empty record in the second. -/
theorem entered?_addRecord (hseen : SameSeen g seen followed) (s : Scope) (path : Path) (v : Value) :
    entered? g.addRecord.2 s followed path v = entered? g s seen path v ∨
      ∃ id, g.node? id = none ∧ entered? g s seen path v = none ∧
        entered? g.addRecord.2 s followed path v = some (id, .record .empty) := by
  rw [hseen.entered?_eq]
  cases v with
  | node id =>
    simp only [entered?]
    split
    · rcases g.node?_addRecord id with hsame | ⟨hnone, hempty⟩
      · left
        rw [hsame]
      · right
        refine ⟨id, hnone, ?_, ?_⟩
        · rw [hnone, Option.map_none]
        · rw [hempty, Option.map_some]
    · exact .inl rfl
  | _ => exact .inl rfl

/-- The walk after a value was looked at: the container that the value leads into
comes before the slots that wait. -/
def walkBelow (g : Graph) (q : Query) (seen : List NodeId) (room : Nat) (log : ReadLog) (way : Way)
    (v : Value) (rest : List Pending) : Outcome :=
  match entered? g q.toScope seen way.path v with
  | some (id, c) => walk g q (id :: seen) room log (pendingOf id c way ++ rest)
  | none => walk g q seen room log rest

theorem walkBelow_addRecord {room : Nat} {log : ReadLog} {way : Way} {v : Value} {rest : List Pending}
    (hseen : SameSeen g seen followed)
    (hopened : ∀ id c, entered? g q.toScope seen way.path v = some (id, c) →
      walk g.addRecord.2 q (id :: followed) room log (pendingOf id c way ++ rest) =
        walk g q (id :: seen) room log (pendingOf id c way ++ rest))
    (hrest : ∀ followed, SameSeen g seen followed →
      walk g.addRecord.2 q followed room log rest = walk g q seen room log rest) :
    walkBelow g.addRecord.2 q followed room log way v rest = walkBelow g q seen room log way v rest := by
  unfold walkBelow
  rcases entered?_addRecord hseen q.toScope way.path v with hsame | ⟨id, hnone, hcloses, hopens⟩
  · rw [hsame]
    cases h : entered? g q.toScope seen way.path v with
    | some opened => exact hopened opened.1 opened.2 h
    | none => exact hrest followed hseen
  · -- the empty record is seen from now on, but nothing waits because of it
    rw [hcloses, hopens]
    exact hrest _ (hseen.closed (.inr ⟨id, rfl, hnone⟩))

/-- The walk takes the same course in both graphs, whatever references to nothing it has followed. -/
theorem walk_addRecord (seen : List NodeId) (room : Nat) (log : ReadLog) (pending : List Pending) :
    ∀ followed, SameSeen g seen followed →
      walk g.addRecord.2 q followed room log pending = walk g q seen room log pending := by
  fun_induction walk g q seen room log pending with
  | case1 =>
    intro followed _
    rw [walk]
  | case2 =>
    intro followed _
    exact walk_full ..
  | case3 seen room log p rest hroom key accepted asked haccepted e log' hread later ih =>
    intro followed hseen
    rw [walk_skip hroom (look_failed haccepted hread), ih followed hseen]
    rfl
  | case4 seen room log p rest hroom key accepted asked haccepted v log' hread path hits later ih hrest =>
    intro followed hseen
    have hlater : later = walkBelow g q seen (room - hits.length) log' p.reach v rest := by
      unfold later walkBelow
      split <;> rename_i hentered <;> simp only [path] at hentered <;> rw [hentered]
    have hbelow : walkBelow g.addRecord.2 q followed (room - hits.length) log' p.reach v rest = later :=
      hlater ▸ walkBelow_addRecord hseen (fun id c h => ih id c h _ (hseen.cons id)) hrest
    rw [walk_read hroom (look_read haccepted hread), hitsAt_addRecord, ← hbelow]
    rfl
  | case5 seen room log p rest hroom key accepted asked hrejected later ih =>
    intro followed hseen
    rw [walk_skip hroom (look_rejected (Bool.eq_false_iff.2 hrejected)), ih followed hseen]
    rfl

theorem searchedBelow_eq (g : Graph) (q : Query) (room : Nat) (log : ReadLog) (target : Value) :
    (match entered? g q.toScope [] [] target with
      | some (id, c) => walk g q [id] room log (pendingOf id c [])
      | none => ⟨[], [], log⟩) = walkBelow g q [] room log [] target [] := by
  unfold walkBelow
  change _ = match entered? g q.toScope [] [] target with
    | some (id, c) => walk g q [id] room log (pendingOf id c [] ++ [])
    | none => walk g q [] room log []
  cases entered? g q.toScope [] [] target with
  | some opened => exact congrArg (walk g q [opened.1] room log) (List.append_nil _).symm
  | none => rw [walk]

end Search

namespace Graph

open Search

theorem search_eq_walkBelow (g : Graph) (target : Value) (q : Query) (log : ReadLog) :
    g.search target q log =
      if target.isNullish then ⟨[], [], log⟩
      else
        let hits : List Hit :=
          if q.mode.checks .type && q.criterion.matchesType g target then [⟨[], [], target, .type⟩] else []
        let hits := hits.take q.maxResults
        let below := walkBelow g q [] (q.maxResults - hits.length) log [] target []
        { below with hits := hits ++ below.hits } := by
  have hbelow := fun room => searchedBelow_eq g q room log target
  rw [search]
  exact congrArg (ite _ _) (congrArg (fun below : Outcome =>
    (⟨_ ++ below.hits, below.consulted, below.log⟩ : Outcome)) (hbelow _))

theorem search_addRecord (g : Graph) (target : Value) (q : Query) (log : ReadLog) :
    g.addRecord.2.search target q log = g.search target q log := by
  have htype : q.criterion.matchesType g.addRecord.2 target = q.criterion.matchesType g target :=
    matchesType_congr fun tag _ => isInstance_addRecord target tag
  have hbelow (room : Nat) :
      walkBelow g.addRecord.2 q [] room log [] target [] = walkBelow g q [] room log [] target [] :=
    walkBelow_addRecord (.refl g []) (fun id _ _ => walk_addRecord _ _ _ _ [id] (.refl g [id]))
      (walk_addRecord _ _ _ _)
  simp only [search_eq_walkBelow, htype, hbelow]

/-- Searches and paths find the same in a graph and in the graph with an empty record
behind its last container, whatever refers to the place of that record. -/
theorem search_and_resolve_addRecord (g : Graph) (target : Value) (log : ReadLog) :
    (∀ q, g.addRecord.2.search target q log = g.search target q log) ∧
      ∀ text, g.addRecord.2.resolveText target text log = g.resolveText target text log :=
  ⟨fun q => search_addRecord g target q log, fun text => resolve_addRecord target (Path.read text) log⟩

end Graph

end ObjectGraph
