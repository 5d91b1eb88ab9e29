-- SUMMARY: Mode and limit select among the hits: a limit keeps the first ones, a mode those of its kinds.
import ObjectGraph.Proofs.Search.Hits

/-! # Selection

What a search of a steady graph visits depends neither on its mode nor on its
limit, nor on what was read before. So a limit keeps the first hits of any
greater limit (`Graph.search_limit_truncates`), and the search by all tests is
the searches by the single tests merged (`Graph.search_all_merges`).
-/

namespace ObjectGraph

namespace Search

/-! ## What was read before does not count -/

variable {g : Graph} {s : Scope} {seen : List NodeId} {p : Pending} {pending : List Pending}

/-- A slot of a steady graph looks the same, whatever was read before. -/
theorem look_of_steady (hg : g.Steady) (hp : g.Has p.child) {log after : ReadLog}
    {found : Option Value} (hlook : p.look s log = (found, after)) (log' : ReadLog) :
    ∃ after', p.look s log' = (found, after') := by
  have hread := (hg _ hp).read_eq log' log
  suffices hsame : (p.look s log').1 = (p.look s log).1 by
    exact ⟨(p.look s log').2, Prod.ext (by rw [hsame, hlook]) rfl⟩
  unfold Pending.look
  split
  · rcases hfirst : p.child.slot.content.read log with ⟨_ | v, _⟩ <;>
      rcases hsecond : p.child.slot.content.read log' with ⟨_ | v', _⟩ <;>
      simp_all
  · rfl

theorem Visit.has_of_mem_children {v : Visit}
    (hopened : ∀ id c, v.opened = some (id, c) → g.node? id = some c) (hp : p ∈ v.children) :
    g.Has p.child := by
  obtain ⟨id, c, heq, _, hchild⟩ := Visit.mem_children.1 hp
  exact Graph.has_of_mem_children (hopened id c heq) hchild

/-- In a steady graph the same slots are visited, whatever was read before. -/
theorem visits_eq_of_steady (hg : g.Steady) (hpending : ∀ p ∈ pending, g.Has p.child)
    (log log' : ReadLog) : visits g s seen log pending = visits g s seen log' pending := by
  -- the two logs never meet again, so the second one is arbitrary in the induction
  fun_induction visits g s seen log pending generalizing log' with
  | case1 => rw [visits_nil]
  | case2 seen log p rest after hlook ih =>
    obtain ⟨after', hlook'⟩ := look_of_steady hg (hpending p (List.mem_cons_self ..)) hlook log'
    rw [visits_skip hlook']
    exact ih (fun r hr => hpending r (List.mem_cons_of_mem _ hr)) _
  | case3 seen log p rest value after hlook visit ih =>
    obtain ⟨after', hlook'⟩ := look_of_steady hg (hpending p (List.mem_cons_self ..)) hlook log'
    rw [visits_look hlook']
    refine congrArg (visit :: ·) (ih (fun r hr => ?_) _)
    rcases List.mem_append.1 hr with hr | hr
    · exact Visit.has_of_mem_children (fun id c heq => (entered?_eq_some heq).2.2.2) hr
    · exact hpending r (List.mem_cons_of_mem _ hr)

end Search

namespace Graph

open Search

variable {g : Graph} {target : Value} {q : Query} {s : Scope}

theorem Steady.visits_eq (hg : g.Steady) (target : Value) (s : Scope) (log log' : ReadLog) :
    g.visits target s log = g.visits target s log' := by
  unfold visits
  split
  · rename_i id c hentered
    refine visits_eq_of_steady hg (fun p hp => ?_) log log'
    exact has_of_mem_children (entered?_eq_some hentered).2.2.2 (mem_pendingOf.1 hp).2
  · rfl

theorem Steady.allHits_eq (hg : g.Steady) (target : Value) (q : Query) (log log' : ReadLog) :
    g.allHits target q log = g.allHits target q log' := by
  rw [allHits, allHits, hg.visits_eq target q.toScope log log']

/-- Another search of a steady graph comes to the same hits, whatever was read before. -/
theorem Steady.search_hits_eq (hg : g.Steady) (target : Value) (q : Query) (log log' : ReadLog) :
    (g.search target q log).hits = (g.search target q log').hits := by
  cases htarget : target.isNullish with
  | true => rw [search_hits_of_isNullish htarget, search_hits_of_isNullish htarget]
  | false => rw [search_hits htarget, search_hits htarget, hg.allHits_eq target q log log']

/-! ## Limits -/

/-- A limit keeps the first hits of a search with any greater limit, or all of
them if there are fewer. -/
theorem search_limit_truncates (hg : g.Steady) {n m : Nat} (hle : n ≤ m) (log log' : ReadLog) :
    let short := (g.search target { q with maxResults := n } log).hits
    let long := (g.search target { q with maxResults := m } log').hits
    short = long.take n ∧ short.length ≤ n ∧ short <+: long := by
  intro short long
  have htake : short = long.take n := by
    cases htarget : target.isNullish with
    | true => simp [short, long, search_hits_of_isNullish htarget]
    | false =>
      have hshort : short = (g.allHits target q log).take n := search_hits htarget
      have hlong : long = (g.allHits target q log').take m := search_hits htarget
      rw [hshort, hlong, hg.allHits_eq target q log log', List.take_take, Nat.min_eq_left hle]
  rw [htake]
  exact ⟨rfl, List.length_take_le .., List.take_prefix ..⟩

/-- A record that says `string` as a key, as a value and by the type of the
value, and that computes a reference to itself. -/
def echo : Graph :=
  { empty with
    nodes := #[
      .record ⟨none, [
        (.name "string", ⟨.stored (.string "string"), true⟩),
        (.name "self", ⟨.computed ⟨0, fun _ => .ok (.node ⟨0⟩)⟩, true⟩),
        (.name "more", ⟨.stored (.string "string"), false⟩)], by decide⟩] }

def echoed : Query := .plain .all (.exact (.string "string"))

theorem steady_echo : echo.Steady := by
  refine steady_iff.2 ?_
  simp [echo, Container.slots, Content.Steady, Accessor.Steady]

/-- A limit of two cuts between the value hit and the type hit of one slot. -/
theorem search_limit_truncates_echo :
    (echo.Steady ∧ 2 ≤ 4) ∧
    (echo.search (.node ⟨0⟩) { echoed with maxResults := 2 } [0]).hits.map (·.kind) =
      [.key, .value] := by
  have htake : (echo.search (.node ⟨0⟩) { echoed with maxResults := 2 } [0]).hits =
      (echo.search (.node ⟨0⟩) { echoed with maxResults := 4 } []).hits.take 2 :=
    (search_limit_truncates (q := echoed) steady_echo (by decide) [0] []).1
  refine ⟨⟨steady_echo, by decide⟩, ?_⟩
  rw [htake]
  cbv

end Graph

/-! ## Modes -/

/-- The mode that makes one kind of test only. -/
def HitKind.mode : HitKind → Mode
  | .value => .value
  | .key => .key
  | .type => .type

theorem HitKind.checks_mode (kind other : HitKind) : kind.mode.checks other = (other == kind) := by
  cases kind <;> cases other <;> rfl

namespace Query

/-- The same query by the tests of another mode. -/
def inMode (q : Query) (mode : Mode) : Query := { q with mode }

variable (q : Query) (mode : Mode)

@[simp] theorem mode_inMode : (q.inMode mode).mode = mode := rfl

@[simp] theorem criterion_inMode : (q.inMode mode).criterion = q.criterion := rfl

@[simp] theorem toScope_inMode : (q.inMode mode).toScope = q.toScope := rfl

end Query

namespace Search

variable {g : Graph} {q : Query} {v : Visit}

theorem finds_inMode (key : SlotKey) (path : Path) (value : Value) (kind other : HitKind) :
    finds g (q.inMode kind.mode) key path value other =
      (other == kind && finds g (q.inMode .all) key path value other) := by
  have hall : Mode.all.checks other = true := rfl
  cases other <;> simp [finds, testsType, HitKind.checks_mode, hall, Bool.and_assoc]

/-- The hits of one kind at a slot are those of the search for this kind. -/
theorem Visit.filter_hits (kind : HitKind) :
    (v.hits g (q.inMode .all)).filter (·.kind == kind) = v.hits g (q.inMode kind.mode) := by
  rw [Visit.hits_eq, Visit.hits_eq, List.filter_map, List.filter_filter]
  refine congrArg (List.map _) (List.filter_congr fun other _ => ?_)
  exact (finds_inMode _ _ _ kind other).symm

end Search

namespace Graph

open Search

variable {g : Graph} {target : Value} {q : Query} {log : ReadLog}

theorem filter_targetHits (kind : HitKind) :
    (g.targetHits target (q.inMode .all)).filter (·.kind == kind) =
      g.targetHits target (q.inMode kind.mode) := by
  by_cases hmatches : q.criterion.matchesType g target = true
  · cases kind <;> simp [targetHits, Query.inMode, Mode.checks, HitKind.mode, hmatches]
  · simp [targetHits, Query.inMode, hmatches]

theorem filter_allHits (kind : HitKind) :
    (g.allHits target (q.inMode .all) log).filter (·.kind == kind) =
      g.allHits target (q.inMode kind.mode) log := by
  rw [allHits, List.filter_append, filter_targetHits, List.filter_flatMap]
  simp only [Visit.filter_hits]
  rfl

/-- Hits are those of their kinds put together. -/
theorem perm_filter_kinds (hits : List Hit) :
    hits.Perm (hits.filter (·.kind == .value) ++ (hits.filter (·.kind == .key) ++
      hits.filter (·.kind == .type))) := by
  let others := hits.filter fun h => !(h.kind == .value)
  have hkey : others.filter (·.kind == .key) = hits.filter (·.kind == .key) := by
    rw [List.filter_filter]
    exact List.filter_congr fun h _ => by cases h.kind <;> rfl
  have htype : others.filter (fun h => !(h.kind == .key)) = hits.filter (·.kind == .type) := by
    rw [List.filter_filter]
    exact List.filter_congr fun h _ => by cases h.kind <;> rfl
  have hothers := (List.filter_append_perm (·.kind == .key) others).symm
  rw [hkey, htype] at hothers
  exact (List.filter_append_perm (·.kind == .value) hits).symm.trans (hothers.append_left _)

theorem filter_search_all (hg : g.Steady) (hlimit : g.LimitSuffices target (q.inMode .all) log)
    (log' : ReadLog) (kind : HitKind) :
    (g.search target (q.inMode .all) log).hits.filter (·.kind == kind) =
      (g.search target (q.inMode kind.mode) log').hits := by
  cases htarget : target.isNullish with
  | true => simp [search_hits_of_isNullish htarget]
  | false =>
    have hall := search_hits_of_limitSuffices htarget hlimit
    have hlength : (g.allHits target (q.inMode .all) log).length ≤ q.maxResults :=
      hall ▸ hlimit q.maxResults
    rw [hall, filter_allHits, search_hits htarget, hg.allHits_eq target _ log' log, ← filter_allHits]
    exact (List.take_of_length_le (Nat.le_trans (List.length_filter_le ..) hlength)).symm

/-- With room enough, the search by all tests is the three searches by a single
test merged: its hits of each kind, in their order, are the hits of the search
by that test, which has no others. -/
theorem search_all_merges (hg : g.Steady) (hlimit : g.LimitSuffices target (q.inMode .all) log)
    (logs : HitKind → ReadLog) :
    let all := (g.search target (q.inMode .all) log).hits
    let single (kind : HitKind) := (g.search target (q.inMode kind.mode) (logs kind)).hits
    (∀ kind, all.filter (·.kind == kind) = single kind) ∧
    (∀ kind, ∀ h ∈ single kind, h.kind = kind) ∧
    (∀ kind, (single kind).Sublist all) ∧
    all.Perm (single .value ++ (single .key ++ single .type)) := by
  intro all single
  have hkinds : ∀ kind, all.filter (·.kind == kind) = single kind := fun kind =>
    filter_search_all hg hlimit (logs kind) kind
  refine ⟨hkinds, fun kind h hh => ?_, fun kind => ?_, ?_⟩
  · rw [← hkinds] at hh
    exact eq_of_beq (List.mem_filter.1 hh).2
  · rw [← hkinds]
    exact List.filter_sublist
  · rw [← hkinds, ← hkinds, ← hkinds]
    exact perm_filter_kinds all

theorem search_all_merges_echo :
    (echo.Steady ∧ echo.LimitSuffices (.node ⟨0⟩) (echoed.inMode .all) []) ∧
    (echo.search (.node ⟨0⟩) (echoed.inMode .type) [0]).hits.map (·.path) =
      [[.field "string"], [.field "more"]] := by
  have hlimit : echo.LimitSuffices (.node ⟨0⟩) (echoed.inMode .all) [] :=
    limitSuffices_of_length_le (by cbv)
  have htype := (search_all_merges steady_echo hlimit fun _ => [0]).1 .type
  refine ⟨⟨steady_echo, hlimit⟩, ?_⟩
  refine (congrArg (List.map Hit.path) htype.symm).trans ?_
  cbv

end Graph

end ObjectGraph
