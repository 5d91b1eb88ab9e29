-- SUMMARY: How the hits of a search are read off its visits, and where a hit was found.
import ObjectGraph.Proofs.Search.Visits

/-! # Hits

The hits of a search are those of its target, then those of its visits in order,
cut off at the limit (`Graph.search_hits`). A limit that no search exceeds cuts
nothing off (`Graph.search_hits_of_limitSuffices`).
-/

namespace ObjectGraph

namespace Search

/-- The hits that a query finds at a visited slot. -/
def Visit.hits (g : Graph) (q : Query) (v : Visit) : List Hit :=
  hitsAt g q v.pending.child.slot.key v.way.path v.way.places v.value

/-! ## Hits are read off visits -/

theorem walk_hits (g : Graph) (q : Query) (seen : List NodeId) (room : Nat) (log : ReadLog)
    (pending : List Pending) :
    (walk g q seen room log pending).hits =
      ((visits g q.toScope seen log pending).flatMap (Visit.hits g q)).take room := by
  fun_induction walk g q seen room log pending with
  | case1 => simp [visits_nil]
  | case2 => simp
  | case3 seen room log p rest _ key accepted asked haccepted e log' hread later ih =>
    rw [visits_skip (look_failed haccepted hread)]
    exact ih
  | case4 seen room log p rest _ key accepted asked haccepted v log' hread path hits later ih ihnone =>
    let visit : Visit := ⟨p, v, entered? g q.toScope seen path v⟩
    have hlater : later.hits =
        ((visits g q.toScope (visit.entered ++ seen) log' (visit.children ++ rest)).flatMap
          (Visit.hits g q)).take (room - hits.length) := by
      unfold later
      split
      · rename_i id c hopened
        have hentered : visit.entered = [id] := by simp [visit, Visit.entered, hopened]
        have hchildren : visit.children = pendingOf id c p.reach := by
          simp [visit, Visit.children, Visit.way, hopened]
        rw [hentered, hchildren]
        exact ih id c hopened
      · rename_i hopened
        have hentered : visit.entered = [] := by simp [visit, Visit.entered, hopened]
        have hchildren : visit.children = [] := by simp [visit, Visit.children, hopened]
        rw [hentered, hchildren]
        exact ihnone
    have hroom : room - hits.length = room - (visit.hits g q).length := by
      have hlength : hits.length = min room (visit.hits g q).length := List.length_take
      omega
    rw [visits_look (look_read haccepted hread), List.flatMap_cons, List.take_append, ← hroom]
    exact congrArg (hits ++ ·) hlater
  | case5 seen room log p rest _ key accepted asked hrejected later ih =>
    rw [visits_skip (look_rejected (Bool.eq_false_iff.2 hrejected))]
    exact ih

/-! ## The hits at one slot -/

/-- Does the query find a value by a test of this kind, at the end of such a path? -/
def finds (g : Graph) (q : Query) (key : SlotKey) (path : Path) (v : Value) : HitKind → Bool
  | .key => q.mode.checks .key && q.criterion.matchesSlotKey key
  | .value => q.mode.checks .value && q.criterion.matchesValue v
  | .type => testsType q path v && q.criterion.matchesType g v

/-- The tests are made in the order key, value, type. -/
theorem hitsAt_eq (g : Graph) (q : Query) (key : SlotKey) (path : Path) (places : List Nat)
    (v : Value) :
    hitsAt g q key path places v =
      ([.key, .value, .type].filter (finds g q key path v)).map (⟨path, places, v, ·⟩) := by
  unfold hitsAt
  simp only [List.filter_cons, List.filter_nil, finds]
  by_cases hkey : (q.mode.checks .key && q.criterion.matchesSlotKey key) = true <;>
    by_cases hvalue : (q.mode.checks .value && q.criterion.matchesValue v) = true <;>
    by_cases htype : (testsType q path v && q.criterion.matchesType g v) = true <;>
    simp [hkey, hvalue, htype]

namespace Visit

variable {g : Graph} {q : Query} {v : Visit} {h : Hit}

theorem hits_eq : v.hits g q =
    ([.key, .value, .type].filter (finds g q v.pending.child.slot.key v.way.path v.value)).map
      (⟨v.way.path, v.way.places, v.value, ·⟩) :=
  hitsAt_eq ..

theorem mem_hits : h ∈ v.hits g q ↔
    h.path = v.way.path ∧ h.places = v.way.places ∧ h.value = v.value ∧
      finds g q v.pending.child.slot.key v.way.path v.value h.kind = true := by
  obtain ⟨path, places, value, kind⟩ := h
  rw [hits_eq, List.mem_map]
  constructor
  · rintro ⟨kind', hkind, heq⟩
    cases heq
    exact ⟨rfl, rfl, rfl, (List.mem_filter.1 hkind).2⟩
  · rintro ⟨rfl, rfl, rfl, hfinds⟩
    exact ⟨kind, List.mem_filter.2 ⟨by cases kind <;> decide, hfinds⟩, rfl⟩

/-- A slot gives at most one hit of each kind. -/
theorem pairwise_hits : (v.hits g q).Pairwise fun h h' => h.kind ≠ h'.kind := by
  have hkinds : [HitKind.key, .value, .type].Pairwise (· ≠ ·) := by decide
  rw [hits_eq]
  exact (hkinds.filter _).map _ fun _ _ hne => hne

end Visit

end Search

/-! ## The hits of a whole search -/

namespace Graph

open Search

/-- The hit at the target itself, which has no key and is never compared. -/
def targetHits (g : Graph) (target : Value) (q : Query) : List Hit :=
  if q.mode.checks .type && q.criterion.matchesType g target then [⟨[], [], target, .type⟩] else []

/-- The hits there would be without a limit. -/
def allHits (g : Graph) (target : Value) (q : Query) (log : ReadLog) : List Hit :=
  g.targetHits target q ++ (g.visits target q.toScope log).flatMap (Visit.hits g q)

variable {g : Graph} {target : Value} {q : Query} {log : ReadLog}

theorem mem_targetHits {h : Hit} : h ∈ g.targetHits target q ↔
    (q.mode.checks .type = true ∧ q.criterion.matchesType g target = true) ∧
      h = ⟨[], [], target, .type⟩ := by
  unfold targetHits
  split <;> simp_all

theorem mem_allHits {h : Hit} : h ∈ g.allHits target q log ↔
    h ∈ g.targetHits target q ∨ ∃ v ∈ g.visits target q.toScope log, h ∈ v.hits g q := by
  rw [allHits, List.mem_append, List.mem_flatMap]

theorem search_hits (htarget : target.isNullish = false) :
    (g.search target q log).hits = (g.allHits target q log).take q.maxResults := by
  have hroom : q.maxResults - ((g.targetHits target q).take q.maxResults).length =
      q.maxResults - (g.targetHits target q).length := by
    rw [List.length_take]
    omega
  rw [allHits, List.take_append, ← hroom, search, htarget]
  simp only [Bool.false_eq_true, if_false]
  refine congrArg ((g.targetHits target q).take q.maxResults ++ ·) ?_
  cases hentered : entered? g q.toScope [] [] target with
  | none => simp [visits, hentered]
  | some opened =>
    simp only [visits, hentered]
    exact walk_hits ..

theorem search_hits_of_isNullish (htarget : target.isNullish = true) :
    (g.search target q log).hits = [] := by
  rw [search, if_pos htarget]

/-- The limit is not smaller than the number of hits: under no limit whatsoever
would there be more. -/
def LimitSuffices (g : Graph) (target : Value) (q : Query) (log : ReadLog) : Prop :=
  ∀ n, (g.search target { q with maxResults := n } log).hits.length ≤ q.maxResults

theorem limitSuffices_of_length_le (h : (g.allHits target q log).length ≤ q.maxResults) :
    g.LimitSuffices target q log := by
  intro n
  cases htarget : target.isNullish with
  | true => simp [search_hits_of_isNullish htarget]
  | false =>
    rw [search_hits htarget]
    have hsame : g.allHits target { q with maxResults := n } log = g.allHits target q log := rfl
    rw [hsame, List.length_take]
    omega

theorem length_le_of_limitSuffices (htarget : target.isNullish = false)
    (hlimit : g.LimitSuffices target q log) : (g.allHits target q log).length ≤ q.maxResults := by
  have hsame : ∀ n, g.allHits target { q with maxResults := n } log = g.allHits target q log :=
    fun _ => rfl
  have hlength := hlimit (g.allHits target q log).length
  rw [search_hits htarget, hsame] at hlength
  change ((g.allHits target q log).take (g.allHits target q log).length).length ≤ _ at hlength
  rwa [List.take_length] at hlength

theorem search_hits_of_limitSuffices (htarget : target.isNullish = false)
    (hlimit : g.LimitSuffices target q log) :
    (g.search target q log).hits = g.allHits target q log := by
  rw [search_hits htarget, List.take_of_length_le (length_le_of_limitSuffices htarget hlimit)]

theorem mem_allHits_of_mem_search {h : Hit} (hh : h ∈ (g.search target q log).hits) :
    h ∈ g.allHits target q log := by
  cases htarget : target.isNullish with
  | true => simp [search_hits_of_isNullish htarget] at hh
  | false =>
    rw [search_hits htarget] at hh
    exact List.mem_of_mem_take hh

end Graph

/-! ## Where a hit was found -/

namespace Hit

/-- The hit is the outcome of this walk. -/
structure FoundAlong (h : Hit) (g : Graph) (s : Scope) (target : Value) (way : Way) : Prop where
  walk : g.Walk s.CanCross target way h.value
  path : h.path = way.path
  places : h.places = way.places

/-- The hit was found at the end of a walk that ends here. -/
def FoundAt (h : Hit) (g : Graph) (s : Scope) (target : Value) (site : Site) : Prop :=
  ∃ way, h.FoundAlong g s target way ∧ way.site = site

theorem FoundAt.unique {h : Hit} {g : Graph} {s : Scope} {target : Value} {site site' : Site}
    (hg : g.Steady) (hfound : h.FoundAt g s target site) (hfound' : h.FoundAt g s target site') :
    site = site' := by
  obtain ⟨way, halong, rfl⟩ := hfound
  obtain ⟨way', halong', rfl⟩ := hfound'
  have hplaces : way.places = way'.places := halong.places.symm.trans halong'.places
  rw [(hg.walk_unique halong.walk halong'.walk hplaces).1]

end Hit

namespace Graph

open Search

variable {g : Graph} {target : Value} {q : Query} {log : ReadLog} {h : Hit}

theorem foundAlong_of_mem_targetHits (hh : h ∈ g.targetHits target q) :
    h.FoundAlong g q.toScope target [] := by
  obtain ⟨_, rfl⟩ := mem_targetHits.1 hh
  exact ⟨.here target, rfl, rfl⟩

theorem foundAlong_of_mem_hits {v : Visit} (hv : v ∈ g.visits target q.toScope log)
    (hh : h ∈ v.hits g q) : h.FoundAlong g q.toScope target v.way := by
  obtain ⟨hpath, hplaces, hvalue, _⟩ := Visit.mem_hits.1 hh
  exact ⟨hvalue ▸ walk_of_mem_visits hv, hpath, hplaces⟩

/-- Every hit is the outcome of some walk. -/
theorem exists_foundAlong (hh : h ∈ g.allHits target q log) :
    ∃ way, h.FoundAlong g q.toScope target way := by
  rcases mem_allHits.1 hh with hh | ⟨v, hv, hh⟩
  · exact ⟨[], foundAlong_of_mem_targetHits hh⟩
  · exact ⟨v.way, foundAlong_of_mem_hits hv hh⟩

end Graph

end ObjectGraph
