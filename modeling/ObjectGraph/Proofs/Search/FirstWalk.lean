-- SUMMARY: Without a depth bound, containers are expanded along the first of their simple walks.
import ObjectGraph.Proofs.Search.Bounds
import ObjectGraph.Proofs.Search.Exact
import ObjectGraph.Proofs.Search.Order

/-! # First walks

A container may be reached by many walks; the search takes up its slots once, at
the end of one of them. Among the walks that come to no container twice it is the
first in document order (`Graph.Enters.firstWalk`). For if a simple walk turned
off earlier, it would lead out of a slot that was visited before: and from there
on everything it comes to was entered before, since the search had then left
every container that does not lie on the common way
(`Graph.exists_enters_before`).
-/

namespace ObjectGraph

/-! ## Simple walks -/

namespace Graph

open Search

variable {g : Graph} {s : Scope} {target : Value} {way way' : Way} {x : Child} {id id' : NodeId}

/-- A walk to a container that comes to no container twice. -/
structure SimpleWalk (g : Graph) (s : Scope) (target : Value) (way : Way) (id : NodeId) : Prop where
  walk : g.Walk s.CanCross target way (.node id)
  nodup : (way.map (·.parent) ++ [id]).Nodup

/-- The first of the simple walks to a container: none comes before it in document order. -/
structure FirstWalk (g : Graph) (s : Scope) (target : Value) (way : Way) (id : NodeId) : Prop
    extends g.SimpleWalk s target way id where
  first : ∀ way', g.SimpleWalk s target way' id → ¬ way'.places < way.places

variable {log : ReadLog} {q : Query}

/-- The container of a slot on the way was entered along the way up to there. -/
theorem Enters.of_slot {before after : Way} (h : g.Enters target s log id (before ++ x :: after)) :
    g.Enters target s log x.parent before := by
  rcases h with ⟨_, hnil⟩ | ⟨v, hv, _, _, hway⟩
  · simp at hnil
  · exact enters_of_way hv hway

/-- A container does not lie on the way along which it was entered. -/
theorem Enters.not_mem_parents (h : g.Enters target s log id way) : id ∉ way.map (·.parent) := by
  intro hmem
  obtain ⟨x, hx, rfl⟩ := List.mem_map.1 hmem
  obtain ⟨before, after, rfl⟩ := List.append_of_mem hx
  have hlength := congrArg List.length (h.of_slot.unique h)
  rw [List.length_append, List.length_cons] at hlength
  omega

theorem Enters.nodup {id : NodeId} {way : Way} (h : g.Enters target s log id way) :
    (way.map (·.parent) ++ [id]).Nodup := by
  have hnot := h.not_mem_parents
  rcases h with ⟨_, hnil⟩ | ⟨v, hv, c, hopened, hway⟩
  · simp [hnil]
  · have hparent := Enters.nodup (enters_of_mem_visits hv)
    have hmap : way.map (·.parent) = v.pending.way.map (·.parent) ++ [v.pending.child.parent] := by
      simp [← hway, Visit.way, Pending.reach]
    rw [← hmap] at hparent
    refine List.nodup_append.2 ⟨hparent, by simp, ?_⟩
    intro a ha b hb heq
    rw [heq, List.mem_singleton.1 hb] at ha
    exact hnot ha
termination_by way.length
decreasing_by simp [← hway, Visit.way, Pending.reach]

/-! ## What was entered before -/

/-- A container that a visit leads to was entered along a way that is not after it. -/
theorem exists_enters_lt {bound : List Nat} (hdepth : s.maxDepth = 0) {v : Visit}
    (hv : v ∈ g.visits target s log) (hlt : v.way.places < bound) {c : Container}
    (hvalue : v.value = .node id) (hnode : g.node? id = some c) :
    ∃ way, g.Enters target s log id way ∧ way.places < bound := by
  obtain ⟨way, henters, rfl | rfl | ⟨u, rfl, hbefore⟩⟩ :=
    exists_enters_by hv hvalue (reaches_of_unbounded hdepth _) hnode
  · exact ⟨[], henters, List.lt_of_le_of_lt (List.nil_le _) hlt⟩
  · exact ⟨v.way, henters, hlt⟩
  · have hsorted := (sorted_visits g target s log).sublist hbefore
    have hearlier : u.way.places < v.way.places := by simpa using hsorted
    exact ⟨u.way, henters, List.lt_trans hearlier hlt⟩

/-- A way that stops on another has its container there. -/
theorem Steady.mem_parents_of_places (hg : g.Steady) (h : g.Walk s.CanCross target way (.node id))
    (h' : g.Walk s.CanCross target way' (.node id')) (hplaces : way.places <+: way'.places) :
    id ∈ way'.map (·.parent) ++ [id'] := by
  obtain ⟨later, hlater⟩ := hplaces
  obtain ⟨rest, rfl, -, hrest⟩ := hg.exists_append h h' hlater.symm
  cases rest with
  | nil => simp [Value.node.inj hrest.of_nil]
  | cons x rest => simp [Value.node.inj hrest.of_cons.1]

/-- What a walk comes to from an early visit was entered early, if the walk keeps
off the way `common`: every container off it that was entered before the slot in
question has all its slots visited before. -/
theorem exists_enters_before (hg : g.Steady) (hdepth : s.maxDepth = 0) {common : Way} {stop : NodeId}
    (hcommon : g.Walk s.CanCross target common (.node stop)) {position : Nat} {v : Visit}
    (hv : v ∈ g.visits target s log) (hlt : v.way.places < common.places ++ [position])
    (hwalk : g.Walk s.CanCross v.value way (.node id)) {c : Container} (hnode : g.node? id = some c)
    (hoff : ∀ x ∈ way, x.parent ∉ common.map (·.parent) ++ [stop]) :
    ∃ way', g.Enters target s log id way' ∧ way'.places < common.places ++ [position] := by
  generalize hstart : v.value = start at hwalk
  generalize hend : Value.node id = w at hwalk
  induction hwalk generalizing v with
  | here => exact exists_enters_lt hdepth hv hlt (hstart.trans hend.symm) hnode
  | @cross x value _ rest hx hcross _ ih =>
    obtain ⟨before, henters, hbefore⟩ := exists_enters_lt hdepth hv hlt hstart hx.node
    obtain ⟨u, hu, hpending, hvalue⟩ := henters.exists_visit hx (hg.crosses hx hcross)
    refine ih hu ?_ (fun y hy => hoff y (List.mem_cons_of_mem _ hy)) hvalue hend
    have hplaces : u.way.places = before.places ++ [x.position] := by
      rw [Visit.way_of_pending hpending, Way.places_snoc]
    rw [hplaces]
    rcases prefix_or_turnsOff_of_lt hbefore with hprefix | hturns
    · -- then the container of the slot lies on the common way
      rcases List.prefix_concat_iff.1 hprefix with heq | hprefix
      · exact absurd (heq ▸ hbefore) (List.lt_irrefl _)
      · exact absurd (hg.mem_parents_of_places henters.walk hcommon hprefix)
          (hoff x (List.mem_cons_self ..))
    · have hlater := (hturns.append [x.position] []).lt
      rwa [List.append_nil] at hlater

/-- A container is entered along the first of the simple walks to it. -/
theorem Enters.firstWalk (hg : g.Steady) (hdepth : s.maxDepth = 0) (h : g.Enters target s log id way)
    {c : Container} (hnode : g.node? id = some c) : g.FirstWalk s target way id := by
  refine ⟨⟨h.walk, h.nodup⟩, fun way' hsimple hlt => ?_⟩
  rcases prefix_or_turnsOff_of_lt hlt with ⟨later, hlater⟩ | hturns
  · obtain ⟨rest, rfl, -, hrest⟩ := hg.exists_append hsimple.walk h.walk hlater.symm
    cases rest with
    | nil =>
      rw [List.append_nil] at hlt
      exact absurd hlt (List.lt_irrefl _)
    | cons x rest =>
      -- the container would lie on the way to itself
      refine h.not_mem_parents ?_
      simp [Value.node.inj hrest.of_cons.1]
  · obtain ⟨common, i, j, later', later, hplaces', hplaces, hij⟩ := hturns.exists_append
    -- the two walks part at one container, by different slots
    obtain ⟨before, rest, rfl, hbefore, hrest⟩ := List.map_eq_append_iff.1 hplaces
    obtain ⟨x, rest, rfl, hx, -⟩ := List.map_eq_cons_iff.1 hrest
    obtain ⟨stop, hwalk, hbelow⟩ := h.walk.of_append
    obtain ⟨rfl, hhas, -⟩ := hbelow.of_cons
    obtain ⟨tail, rfl, htail, hturned⟩ :=
      hg.exists_append hwalk hsimple.walk (hplaces'.trans (congrArg (· ++ _) hbefore.symm))
    obtain ⟨y, tail, rfl, hy, -⟩ := List.map_eq_cons_iff.1 htail
    obtain ⟨hparent, hyhas, value, hcross, hafter⟩ := hturned.of_cons
    have hparent : x.parent = y.parent := Value.node.inj hparent
    have hstop : g.Enters target s log y.parent before := hparent ▸ h.of_slot
    obtain ⟨v, hv, hpending, hvalue⟩ := hstop.exists_visit hyhas (hg.crosses hyhas hcross)
    have hearly : v.way.places < Way.places before ++ [x.position] := by
      have hplaces : v.way.places = Way.places before ++ [y.position] := by
        rw [Visit.way_of_pending hpending, Way.places_snoc]
      rw [hplaces, hx, hy]
      exact (TurnsOff.here hij).append_left _ |>.lt
    have hoff : ∀ z ∈ tail, z.parent ∉ before.map (·.parent) ++ [x.parent] := by
      have hnodup : (((before.map (·.parent) ++ [x.parent]) ++ tail.map (·.parent)) ++ [id]).Nodup := by
        simpa [hparent] using hsimple.nodup
      intro z hz hmem
      have hapart := (List.nodup_append.1 (List.nodup_append.1 hnodup).1).2.2
      exact hapart _ hmem _ (List.mem_map_of_mem hz) rfl
    obtain ⟨way, henters, hlt⟩ :=
      exists_enters_before hg hdepth hwalk hv hearly (hvalue.symm ▸ hafter) hnode hoff
    obtain rfl := henters.unique h
    refine List.lt_irrefl _ (List.lt_of_le_of_lt (List.IsPrefix.le ?_) hlt)
    simp [Way.places]

/-! ## The containers that a search expands -/

end Graph

namespace Search

variable {g : Graph} {q : Query} {r r' : Course} {pending : List Pending} {seen : List NodeId}

/-- The container expanded by a visit, with its way. -/
def Visit.expansion (v : Visit) : List (NodeId × Way) := v.opened.toList.map fun (id, _) => (id, v.way)

/-- A run that keeps room expands what the visits open. -/
theorem expanded_of_runs (h : Runs g q r pending r') (hroom : r'.room q ≠ 0)
    (hseen : SameSeen g seen r.followed) :
    r'.expanded =
      ((visits g q.toScope seen r.log pending).flatMap Visit.expansion).reverse ++ r.expanded := by
  induction h generalizing seen with
  | done => simp [visits_nil]
  | full pending hfull => exact absurd hfull hroom
  | @step r r₁ r' p slots rest _ hadvances hruns ih =>
    cases hadvances with
    | skipped hlook =>
      rw [visits_skip hlook]
      exact ih hroom hseen
    | @read v log _ _ hlook hexpands =>
      have hseen : SameSeen g seen (tested g q p v log r).followed := hseen
      rw [visits_look hlook]
      cases hexpands with
      | stopped hfull =>
        obtain rfl := hruns.eq_of_full hfull
        exact absurd hfull hroom
      | closed hentered hfollowed =>
        rw [hseen.entered?_eq, hentered]
        simpa [Visit.expansion, Visit.entered, Visit.children] using ih hroom (hseen.closed hfollowed)
      | @opened id c hentered =>
        rw [hseen.entered?_eq, hentered]
        simpa [Visit.expansion, Visit.entered, Visit.children, Visit.way] using ih hroom (hseen.cons id)

end Search

namespace Graph

open Search

variable {g : Graph} {target : Value} {q : Query} {log : ReadLog} {id : NodeId} {way : Way}

/-- What a search with room left expands is what it enters. -/
theorem mem_expanded_iff {r r₁ : Course} {slots : List Pending}
    (hexpands : Expands g q [] target ((Course.start log).report q (typeHits g q [] target)) r₁ slots)
    (hruns : Runs g q r₁ slots r) (hroom : r.room q ≠ 0) {c : Container} (hnode : g.node? id = some c) :
    (id, way) ∈ r.expanded ↔ g.Enters target q.toScope log id way := by
  have hseen : SameSeen g [] [] := fun _ _ _ => Iff.rfl
  cases hexpands with
  | stopped hfull =>
    obtain rfl := hruns.eq_of_full hfull
    exact absurd hfull hroom
  | closed hentered hfollowed =>
    have hentered : entered? g q.toScope [] [] target = none := hentered
    have hnothing : r.expanded = [] := by
      rw [expanded_of_runs hruns hroom (hseen.closed hfollowed), visits_nil]
      rfl
    simp only [hnothing, Enters, visits, hentered, List.not_mem_nil, false_and, exists_false, or_false,
      false_iff]
    rintro ⟨rfl, -⟩
    rw [entered?_target _ hnode] at hentered
    cases hentered
  | @opened start c' hentered =>
    obtain ⟨rfl, -, -, hstart⟩ := entered?_eq_some hentered
    have hexpanded : r.expanded =
        ((g.visits (.node start) q.toScope log).flatMap Visit.expansion).reverse ++ [(start, [])] := by
      rw [visits_eq log hstart]
      exact expanded_of_runs hruns hroom (hseen.cons start)
    rw [hexpanded, Enters]
    simp only [List.mem_append, List.mem_reverse, List.mem_flatMap, Visit.expansion, List.mem_map,
      Option.mem_toList, Prod.exists, List.mem_singleton, Prod.mk.injEq, Value.node.injEq]
    constructor
    · rintro (⟨v, hv, id', c'', hopened, rfl, rfl⟩ | ⟨rfl, rfl⟩)
      · exact .inr ⟨v, hv, c'', hopened, rfl⟩
      · exact .inl ⟨rfl, rfl⟩
    · rintro (⟨rfl, rfl⟩ | ⟨v, hv, c'', hopened, rfl⟩)
      · exact .inr ⟨rfl, rfl⟩
      · exact .inl ⟨v, hv, id, c'', hopened, rfl, rfl⟩

/-- Every container that can be reached is expanded along the first of the simple
walks to it, and every hit in it lies at the end of that walk and its own slot. -/
theorem search_expands_first_walks (hg : g.Steady) (hdepth : q.maxDepth = 0)
    (hlimit : (g.search target q log).hits.length < q.maxResults) :
    ∃ r, g.searchNested (g.size + 1) target q log = some r ∧
      r.outcome q.toScope = g.search target q log ∧
      (∀ id c, g.Reachable q.toScope.CanCross target id → g.node? id = some c →
        ∃ way, (id, way) ∈ r.expanded ∧ g.FirstWalk q.toScope target way id ∧
          ∀ way', (id, way') ∈ r.expanded → way' = way) ∧
      ∀ h ∈ (g.search target q log).hits, (h.places = [] ∧ h.value = target) ∨
        ∃ x way, g.Has x ∧ q.toScope.CanCross x h.value ∧ g.FirstWalk q.toScope target way x.parent ∧
          h.path = way.path ++ [x.slot.key.step] ∧ h.places = way.places ++ [x.position] := by
  cases htarget : target.isNullish with
  | true =>
    refine ⟨.start log, by simp [searchNested, htarget], ?_, ?_, ?_⟩
    · simp [search, htarget, Course.outcome, Course.start]
    · intro id c hreach
      obtain ⟨start, rfl⟩ : ∃ start, target = .node start := by
        induction hreach with
        | target heq => exact ⟨_, heq⟩
        | child _ _ _ ih => exact ih
      cases htarget
    · simp [search_hits_of_isNullish htarget]
  | false =>
    obtain ⟨r, r₁, slots, hsearch, hexpands, hruns⟩ := exists_searchNested g target q log htarget
    have houtcome := outcome_searchNested htarget hexpands hruns
    have hroom : r.room q ≠ 0 := by
      have hhits : r.hits = (g.search target q log).hits := congrArg Outcome.hits houtcome
      unfold Course.room
      rw [hhits]
      omega
    refine ⟨r, hsearch, houtcome, ?_, ?_⟩
    · intro id c hreach hnode
      obtain ⟨way, henters⟩ := exists_enters_of_reachable log hg hdepth hreach hnode
      have hiff : ∀ way, (id, way) ∈ r.expanded ↔ g.Enters target q.toScope log id way := fun _ =>
        mem_expanded_iff hexpands hruns hroom hnode
      exact ⟨way, (hiff way).2 henters, henters.firstWalk hg hdepth hnode,
        fun way' hway' => ((hiff way').1 hway').unique henters⟩
    · intro h hh
      rcases mem_allHits.1 (mem_allHits_of_mem_search hh) with hh | ⟨v, hv, hh⟩
      · obtain ⟨-, rfl⟩ := mem_targetHits.1 hh
        exact .inl ⟨rfl, rfl⟩
      · obtain ⟨hpath, hplaces, hvalue, -⟩ := Visit.mem_hits.1 hh
        have hlocated := located_of_mem_visits hv
        refine .inr ⟨v.pending.child, v.pending.way, hlocated.has, hvalue ▸ canCross_of_mem_visits hv,
          (enters_of_mem_visits hv).firstWalk hg hdepth hlocated.has.node, ?_, ?_⟩
        · rw [hpath]
          simp [Visit.way, Pending.reach, Way.path]
        · rw [hplaces, Visit.way, Pending.reach, Way.places_append]
          rfl

theorem steady_detour : detour.Steady := by
  refine steady_iff.2 ?_
  simp [detour, Container.slots, Content.Steady]

/-- The record that `b` leads to is expanded at the end of `a.x.y`. -/
theorem search_expands_first_walks_detour :
    (detour.Steady ∧ (hitWithin 0).maxDepth = 0 ∧
      (detour.search (.node ⟨0⟩) (hitWithin 0) []).hits.length < (hitWithin 0).maxResults) ∧
    ∃ (x : Child) (way : Way), detour.FirstWalk (hitWithin 0).toScope (.node ⟨0⟩) way x.parent ∧
      way.places = [0, 0, 0, 0] ∧ x.position = 0 := by
  have hhits : (detour.search (.node ⟨0⟩) (hitWithin 0) []).hits =
      [⟨[.field "a", .field "x", .field "y", .field "v", .field "w"], [0, 0, 0, 0, 0],
        .string "hit", .value⟩] := by cbv
  have hlimit : (detour.search (.node ⟨0⟩) (hitWithin 0) []).hits.length < (hitWithin 0).maxResults := by
    rw [hhits]
    decide
  refine ⟨⟨steady_detour, rfl, hlimit⟩, ?_⟩
  obtain ⟨r, -, -, -, hfirst⟩ := search_expands_first_walks steady_detour rfl hlimit
  rw [hhits] at hfirst
  rcases hfirst _ (List.mem_singleton.2 rfl) with ⟨hnil, -⟩ | ⟨x, way, -, -, hwalk, -, hplaces⟩
  · simp at hnil
  · have hsplit : [0, 0, 0, 0] ++ [0] = way.places ++ [x.position] := hplaces
    obtain ⟨hbefore, hlast⟩ := List.append_inj' hsplit rfl
    exact ⟨x, way, hwalk, hbefore.symm, (List.singleton_inj.1 hlast).symm⟩

end Graph

end ObjectGraph
