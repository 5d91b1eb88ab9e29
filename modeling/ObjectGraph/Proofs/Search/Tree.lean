-- SUMMARY: Searching a tree: what a depth bound keeps of the hits, and what a search from within finds.
import ObjectGraph.Proofs.Graph.Tree
import ObjectGraph.Proofs.Search.Order
import Mathlib.Data.List.Sort

/-! # Searching trees

In a tree every container is met on one walk only, so no container is passed over
because it was entered before, and the hits are the tests that succeed at the
ends of the walks within the bound (`Graph.mem_allHits_of_treeBelow`). Hits are in
strict document order, and such a list is known by its members: so the hits under
a bound are those within it (`Graph.allHits_within`), and the hits of a search
from a slot are those at the slot and below it (`Graph.allHits_below`).
-/

namespace ObjectGraph

namespace Scope

variable {s : Scope}

/-- Where a container may be entered, so may those before it on the way. -/
theorem reaches_of_snoc {way : Way} {x : Child} (h : s.reaches (Way.path (way ++ [x])) = true) :
    s.reaches way.path = true := by
  rw [reaches_iff, Way.length_path, List.length_append] at h
  rw [reaches_iff, Way.length_path]
  exact h.imp_right fun hlt => Nat.lt_of_le_of_lt (Nat.le_add_right ..) hlt

end Scope

/-! ## Visits of a tree -/

namespace Graph

open Search

variable {g : Graph} {target : Value} {s : Scope} {way : Way} {x : Child}

/-- In a tree a container is entered at the end of the walk that leads to it. -/
theorem TreeBelow.enters_of_walk (htree : g.TreeBelow target) (hg : g.Steady) (log : ReadLog)
    {id : NodeId} {c : Container} (hwalk : g.Walk s.CanCross target way (.node id)) (hnode : g.node? id = some c)
    (hreaches : s.reaches way.path = true) : g.Enters target s log id way := by
  induction way using List.reverseRecOn generalizing id c with
  | nil => exact .inl ⟨hwalk.of_nil, rfl⟩
  | append_singleton init x ih =>
    obtain ⟨hinit, hx, hcross⟩ := hwalk.of_snoc
    have hparent := ih hinit hx.node (Scope.reaches_of_snoc hreaches)
    obtain ⟨v, hv, hpending, hvalue⟩ := hparent.exists_visit hx (hg.crosses hx hcross)
    have hway : v.way = init ++ [x] := Visit.way_of_pending hpending
    obtain ⟨way', henters⟩ := exists_enters hv hvalue (hway ▸ hreaches) hnode
    exact htree.walk_unique henters.walk hwalk ▸ henters

/-- Every walk within the bound is gone to its end. -/
theorem TreeBelow.exists_visit (htree : g.TreeBelow target) (hg : g.Steady) (log : ReadLog)
    {value : Value} (hwalk : g.Walk s.CanCross target (way ++ [x]) value)
    (hdepth : s.maxDepth = 0 ∨ (way ++ [x]).length ≤ s.maxDepth) :
    ∃ v ∈ g.visits target s log, v.pending = ⟨way, x⟩ ∧ v.value = value := by
  obtain ⟨hinit, hx, hcross⟩ := hwalk.of_snoc
  have hreaches : s.reaches way.path = true := by
    rw [Scope.reaches_iff, Way.length_path]
    rw [List.length_append, List.length_singleton] at hdepth
    exact hdepth
  have hparent := htree.enters_of_walk hg log hinit hx.node hreaches
  exact hparent.exists_visit hx (hg.crosses hx hcross)

end Graph

/-! ## Hits of a tree -/

namespace Hit

/-- Within the bound; a container before its end, since only there may it be entered. -/
def isWithin (depth : Nat) (h : Hit) : Bool :=
  if h.kind = .type ∧ h.value.isScalar = false then h.path.length < depth
  else h.path.length ≤ depth

/-- The hit is that of a test that the query makes, and that succeeds at the end of the walk. -/
structure Succeeds (h : Hit) (g : Graph) (q : Query) (target : Value) (way : Way) : Prop where
  walk : g.Walk q.toScope.CanCross target way h.value
  path : h.path = way.path
  places : h.places = way.places
  checks : q.mode.checks h.kind = true
  passes : h.Passes g q.criterion way

variable {h : Hit} {g : Graph} {q : Query} {target : Value} {way : Way}

theorem length_le_of_isWithin {depth : Nat} (hwithin : h.isWithin depth = true) :
    h.path.length ≤ depth := by
  unfold isWithin at hwithin
  split at hwithin
  · exact Nat.le_of_lt (of_decide_eq_true hwithin)
  · exact of_decide_eq_true hwithin

theorem length_lt_of_isWithin {depth : Nat} (hwithin : h.isWithin depth = true)
    (hkind : h.kind = .type) (hscalar : h.value.isScalar = false) : h.path.length < depth := by
  rw [isWithin, if_pos ⟨hkind, hscalar⟩] at hwithin
  exact of_decide_eq_true hwithin

/-- Whether a test succeeds does not depend on the bound. -/
theorem Succeeds.withDepth (hh : h.Succeeds g q target way) (depth : Nat) :
    h.Succeeds g { q with maxDepth := depth } target way :=
  ⟨hh.walk, hh.path, hh.places, hh.checks, hh.passes⟩

/-- At the end of an empty walk, where there is no slot, only a type is tested. -/
theorem ne_nil_or_type_of_passes {c : Criterion} (hpasses : h.Passes g c way) :
    way ≠ [] ∨ h.kind = .type := by
  unfold Passes at hpasses
  cases hkind : h.kind with
  | value =>
    rw [hkind] at hpasses
    exact .inl hpasses.1
  | key =>
    rw [hkind] at hpasses
    obtain ⟨x, hlast, -⟩ := hpasses
    refine .inl ?_
    rintro rfl
    cases hlast
  | type => exact .inr rfl

theorem Succeeds.of_nil (hh : h.Succeeds g q target []) : h ∈ g.targetHits target q := by
  obtain ⟨hwalk, hpath, hplaces, hchecks, hpasses⟩ := hh
  have hkind := (ne_nil_or_type_of_passes hpasses).resolve_left (fun hne => hne rfl)
  obtain ⟨path, places, value, kind⟩ := h
  obtain rfl : target = value := hwalk.of_nil
  obtain rfl : path = [] := hpath
  obtain rfl : places = [] := hplaces
  obtain rfl : kind = .type := hkind
  exact Graph.mem_targetHits.2 ⟨⟨hchecks, hpasses⟩, rfl⟩

end Hit

namespace Graph

open Search

variable {g : Graph} {target : Value} {q : Query} {log : ReadLog} {h : Hit} {way : Way} {x : Child}

theorem isWithin_of_finds {v : Visit} (hdepth : 0 < q.maxDepth)
    (hv : v ∈ g.visits target q.toScope log) (hh : h ∈ v.hits g q) :
    h.isWithin q.maxDepth = true := by
  obtain ⟨hpath, -, hvalue, hfinds⟩ := Visit.mem_hits.1 hh
  unfold Hit.isWithin
  split
  · rename_i hcontainer
    obtain ⟨hkind, hscalar⟩ := hcontainer
    rw [hkind] at hfinds
    have hreaches := reaches_of_finds_type hfinds (hvalue ▸ hscalar)
    exact decide_eq_true (hpath ▸ Scope.length_lt_of_reaches hdepth hreaches)
  · refine decide_eq_true ?_
    rw [hpath, Way.length_path]
    exact length_way_le hdepth hv

/-- What a visit at the end of the walk finds. -/
theorem mem_hits_of_succeeds {v : Visit} (hsucceeds : h.Succeeds g q target (way ++ [x]))
    (hdepth : q.maxDepth = 0 ∨ h.isWithin q.maxDepth = true) (hpending : v.pending = ⟨way, x⟩)
    (hvalue : v.value = h.value) : h ∈ v.hits g q := by
  have hway : v.way = way ++ [x] := Visit.way_of_pending hpending
  obtain ⟨-, hpath, hplaces, hchecks, hpasses⟩ := hsucceeds
  refine Visit.mem_hits.2 ⟨hway ▸ hpath, hway ▸ hplaces, hvalue.symm, ?_⟩
  rw [hpending, hvalue, hway, ← hpath]
  unfold Hit.Passes at hpasses
  cases hkind : h.kind with
  | value =>
    rw [hkind] at hchecks hpasses
    exact Bool.and_eq_true_iff.2 ⟨hchecks, hpasses.2⟩
  | key =>
    rw [hkind] at hchecks hpasses
    obtain ⟨y, hlast, hmatches⟩ := hpasses
    obtain rfl : x = y := by simpa using hlast
    exact Bool.and_eq_true_iff.2 ⟨hchecks, hmatches⟩
  | type =>
    rw [hkind] at hchecks hpasses
    refine Bool.and_eq_true_iff.2 ⟨Bool.and_eq_true_iff.2 ⟨hchecks, ?_⟩, hpasses⟩
    cases hscalar : h.value.isScalar with
    | true => rfl
    | false =>
      refine Scope.reaches_iff.2 (hdepth.imp_right fun hwithin => ?_)
      exact Hit.length_lt_of_isWithin hwithin hkind hscalar

/-- Every hit is that of a test that succeeds, and within the bound. -/
theorem succeeds_of_mem_allHits (hh : h ∈ g.allHits target q log) :
    (∃ way, h.Succeeds g q target way) ∧ (q.maxDepth = 0 ∨ h.isWithin q.maxDepth = true) := by
  rcases mem_allHits.1 hh with htarget | ⟨v, hv, hvisit⟩
  · obtain ⟨⟨hchecks, hmatches⟩, rfl⟩ := mem_targetHits.1 htarget
    refine ⟨⟨[], .here target, rfl, rfl, hchecks, hmatches⟩, ?_⟩
    refine (Nat.eq_zero_or_pos q.maxDepth).imp_right fun hdepth => ?_
    unfold Hit.isWithin
    split <;> exact decide_eq_true (by simp [hdepth])
  · obtain ⟨hpath, hplaces, hvalue, hfinds⟩ := Visit.mem_hits.1 hvisit
    have hpasses := Visit.passes_of_mem_hits hvisit
    have hwalk := hvalue ▸ walk_of_mem_visits hv
    refine ⟨⟨v.way, hwalk, hpath, hplaces, checks_of_finds hfinds, hpasses⟩, ?_⟩
    exact (Nat.eq_zero_or_pos q.maxDepth).imp_right fun hdepth => isWithin_of_finds hdepth hv hvisit

/-- In a tree, every test that succeeds within the bound gives a hit. -/
theorem TreeBelow.mem_allHits (htree : g.TreeBelow target) (hg : g.Steady) (log : ReadLog)
    (hsucceeds : h.Succeeds g q target way)
    (hdepth : q.maxDepth = 0 ∨ h.isWithin q.maxDepth = true) : h ∈ g.allHits target q log := by
  rcases List.eq_nil_or_concat' way with rfl | ⟨init, x, rfl⟩
  · exact Graph.mem_allHits.2 (.inl hsucceeds.of_nil)
  · have hlength : q.maxDepth = 0 ∨ (init ++ [x]).length ≤ q.maxDepth := by
      rw [← Way.length_path, ← hsucceeds.path]
      exact hdepth.imp_right Hit.length_le_of_isWithin
    obtain ⟨v, hv, hpending, hvalue⟩ := htree.exists_visit hg log hsucceeds.walk hlength
    have hvisit := mem_hits_of_succeeds hsucceeds hdepth hpending hvalue
    exact Graph.mem_allHits.2 (.inr ⟨v, hv, hvisit⟩)

theorem mem_allHits_of_treeBelow (hg : g.Steady) (htree : g.TreeBelow target) :
    h ∈ g.allHits target q log ↔
      (∃ way, h.Succeeds g q target way) ∧ (q.maxDepth = 0 ∨ h.isWithin q.maxDepth = true) :=
  ⟨succeeds_of_mem_allHits, fun ⟨⟨_, hsucceeds⟩, hdepth⟩ => htree.mem_allHits hg log hsucceeds hdepth⟩

end Graph

/-! ## Lists in document order -/

namespace Hit

instance : Std.Irrefl Before where
  irrefl h hbefore := by
    rcases hbefore with hlt | ⟨-, hrank⟩
    · exact List.lt_irrefl _ hlt
    · exact Nat.lt_irrefl _ hrank

instance : Std.Antisymm Before where
  antisymm h h' hbefore hafter := by
    exfalso
    rcases hbefore with hlt | ⟨hplaces, hrank⟩
    · rcases hafter with hgt | ⟨hplaces, -⟩
      · exact List.lt_asymm hlt hgt
      · exact List.lt_irrefl _ (hplaces ▸ hlt)
    · rcases hafter with hgt | ⟨-, hrank'⟩
      · exact List.lt_irrefl _ (hplaces ▸ hgt)
      · exact Nat.lt_asymm hrank hrank'

end Hit

namespace Graph

variable {g : Graph} {target x : Value} {q : Query} {log : ReadLog} {way : Way}

/-- In a tree, a bound keeps exactly the hits within it. -/
theorem allHits_within (hg : g.Steady) (htree : g.TreeBelow target) (q : Query) {depth : Nat}
    (hdepth : 0 < depth) (log log' : ReadLog) :
    g.allHits target { q with maxDepth := depth } log' =
      (g.allHits target { q with maxDepth := 0 } log).filter (Hit.isWithin depth) := by
  refine List.Pairwise.eq_of_mem_iff (sorted_allHits ..) ((sorted_allHits ..).filter _) fun h => ?_
  rw [List.mem_filter, mem_allHits_of_treeBelow hg htree, mem_allHits_of_treeBelow hg htree]
  constructor
  · rintro ⟨⟨way, hsucceeds⟩, hzero | hwithin⟩
    · exact absurd hzero (Nat.ne_of_gt hdepth)
    · exact ⟨⟨⟨way, hsucceeds.withDepth 0⟩, .inl rfl⟩, hwithin⟩
  · rintro ⟨⟨⟨way, hsucceeds⟩, -⟩, hwithin⟩
    exact ⟨⟨way, hsucceeds.withDepth depth⟩, .inr hwithin⟩

theorem search_hits_within (hg : g.Steady) (htree : g.TreeBelow target) {depth : Nat}
    (hdepth : 0 < depth) (hlimit : g.LimitSuffices target { q with maxDepth := 0 } log)
    (log' : ReadLog) :
    (g.search target { q with maxDepth := depth } log').hits =
      (g.search target { q with maxDepth := 0 } log).hits.filter (Hit.isWithin depth) := by
  cases htarget : target.isNullish with
  | true => rw [search_hits_of_isNullish htarget, search_hits_of_isNullish htarget, List.filter_nil]
  | false =>
    have hfits := length_le_of_limitSuffices htarget hlimit
    have hwithin := allHits_within hg htree q hdepth log log'
    have hlength : (g.allHits target { q with maxDepth := depth } log').length ≤ q.maxResults := by
      rw [hwithin]
      exact Nat.le_trans (List.length_filter_le ..) hfits
    rw [search_hits_of_limitSuffices htarget hlimit, ← hwithin]
    exact search_hits_of_limitSuffices htarget (limitSuffices_of_length_le hlength)

end Graph

/-! ## Parts of a tree -/

namespace Hit

/-- The hit as it is called from where the way starts. -/
def under (way : Way) (h : Hit) : Hit :=
  { h with path := way.path ++ h.path, places := way.places ++ h.places }

/-- Was the hit found at the end of the way or below it? The tests of the key and
the value there belong to the container before. -/
def isBelow (way : Way) (h : Hit) : Bool :=
  way.places.isPrefixOf h.places && (h.places != way.places || h.kind == .type)

variable {h h' : Hit} {g : Graph} {q : Query} {target x : Value} {way rest : Way}

theorem Before.under (hbefore : h.Before h') (way : Way) : (h.under way).Before (h'.under way) := by
  rcases hbefore with hlt | ⟨hplaces, hrank⟩
  · exact .inl (List.append_left_lt hlt)
  · exact .inr ⟨congrArg (way.places ++ ·) hplaces, hrank⟩

theorem isBelow_iff : h.isBelow way = true ↔
    ∃ later, h.places = way.places ++ later ∧ (later ≠ [] ∨ h.kind = .type) := by
  rw [isBelow, Bool.and_eq_true, Bool.or_eq_true, List.isPrefixOf_iff_prefix, bne_iff_ne, beq_iff_eq]
  constructor
  · rintro ⟨⟨later, hlater⟩, hrest⟩
    refine ⟨later, hlater.symm, hrest.imp_left fun hne hnil => hne ?_⟩
    rw [← hlater, hnil, List.append_nil]
  · rintro ⟨later, hlater, hrest⟩
    refine ⟨⟨later, hlater.symm⟩, hrest.imp_left fun hne heq => hne ?_⟩
    exact List.append_right_eq_self.1 (hlater.symm.trans heq)

theorem passes_under {c : Criterion} (htested : rest ≠ [] ∨ h.kind = .type) :
    (h.under way).Passes g c (way ++ rest) ↔ h.Passes g c rest := by
  have hlast : h.kind ≠ .type → (way ++ rest).getLast? = rest.getLast? := fun hkind =>
    List.getLast?_append_of_ne_nil _ (htested.resolve_right hkind)
  unfold Passes
  cases hkind : h.kind with
  | value => simp [under, hkind, htested.resolve_right (by simp [hkind])]
  | key => simp only [under, hkind, hlast (by simp [hkind])]
  | type => simp only [under, hkind]

theorem path_under (hpath : h.path = rest.path) : (h.under way).path = (way ++ rest).path := by
  rw [Way.path, List.map_append, ← Way.path, ← Way.path, ← hpath]
  rfl

theorem places_under (hplaces : h.places = rest.places) :
    (h.under way).places = (way ++ rest).places := by
  rw [Way.places_append, ← hplaces]
  rfl

/-- A test that succeeds below is, called from above, one that succeeds and was made below. -/
theorem Succeeds.under (hwalk : g.Walk q.toScope.CanCross target way x)
    (hh : h.Succeeds g q x rest) :
    (h.under way).Succeeds g q target (way ++ rest) ∧ (h.under way).isBelow way = true := by
  have htested := ne_nil_or_type_of_passes hh.passes
  refine ⟨⟨hwalk.append hh.walk, path_under hh.path, places_under hh.places, hh.checks,
    (passes_under htested).2 hh.passes⟩, isBelow_iff.2 ⟨rest.places, ?_, ?_⟩⟩
  · exact congrArg (way.places ++ ·) hh.places
  · exact htested.imp_left fun hne hnil => hne (List.map_eq_nil_iff.1 hnil)

/-- What was made below is such a test. -/
theorem Succeeds.exists_under (hg : g.Steady) (hwalk : g.Walk q.toScope.CanCross target way x)
    {way' : Way} (hh : h.Succeeds g q target way') (hbelow : h.isBelow way = true) :
    ∃ (h' : Hit) (rest : Way), h'.Succeeds g q x rest ∧ h'.under way = h := by
  obtain ⟨later, hlater, htested⟩ := isBelow_iff.1 hbelow
  obtain ⟨rest, rfl, hrest, hend⟩ := hg.exists_append hwalk hh.walk (hh.places.symm.trans hlater)
  let inner : Hit := { h with path := Way.path rest, places := Way.places rest }
  have hunder : inner.under way = h := by
    have hpath : (inner.under way).path = h.path := (path_under rfl).trans hh.path.symm
    have hplaces : (inner.under way).places = h.places := (places_under rfl).trans hh.places.symm
    obtain ⟨path, places, value, kind⟩ := h
    exact congrArg₂ (Hit.mk · · value kind) hpath hplaces
  have htested : rest ≠ [] ∨ inner.kind = .type := by
    refine htested.imp_left fun hne hnil => hne ?_
    rw [← hrest, hnil]
    rfl
  have hpasses : (inner.under way).Passes g q.criterion (way ++ rest) := hunder.symm ▸ hh.passes
  exact ⟨inner, rest, ⟨hend, rfl, rfl, hh.checks, (passes_under htested).1 hpasses⟩, hunder⟩

end Hit

namespace Graph

variable {g : Graph} {target x : Value} {q : Query} {way : Way}

/-- In a tree, the hits at a slot and below it are those of a search that starts there. -/
theorem allHits_below (hg : g.Steady) (htree : g.TreeBelow target) (hdepth : q.maxDepth = 0)
    (hwalk : g.Walk q.toScope.CanCross target way x) (log log' : ReadLog) :
    (g.allHits target q log).filter (Hit.isBelow way) = (g.allHits x q log').map (Hit.under way) := by
  have hsorted : ((g.allHits x q log').map (Hit.under way)).Pairwise Hit.Before :=
    (sorted_allHits ..).map _ fun _ _ hbefore => hbefore.under way
  refine List.Pairwise.eq_of_mem_iff ((sorted_allHits ..).filter _) hsorted fun h => ?_
  rw [List.mem_filter, List.mem_map, mem_allHits_of_treeBelow hg htree]
  constructor
  · rintro ⟨⟨⟨way', hsucceeds⟩, -⟩, hbelow⟩
    obtain ⟨h', rest, hinner, rfl⟩ := hsucceeds.exists_under hg hwalk hbelow
    exact ⟨h', (mem_allHits_of_treeBelow hg (htree.of_walk hwalk)).2 ⟨⟨rest, hinner⟩, .inl hdepth⟩, rfl⟩
  · rintro ⟨h', hmem, rfl⟩
    obtain ⟨⟨rest, hinner⟩, -⟩ := (mem_allHits_of_treeBelow hg (htree.of_walk hwalk)).1 hmem
    obtain ⟨hsucceeds, hbelow⟩ := hinner.under hwalk
    exact ⟨⟨⟨way ++ rest, hsucceeds⟩, .inl hdepth⟩, hbelow⟩

theorem search_hits_below (hg : g.Steady) (htree : g.TreeBelow target) (hdepth : q.maxDepth = 0)
    {log : ReadLog} (hlimit : g.LimitSuffices target q log)
    (hwalk : g.Walk q.toScope.CanCross target way x) (hx : x.isNullish = false) (log' : ReadLog) :
    (g.search target q log).hits.filter (Hit.isBelow way) =
      (g.search x q log').hits.map (Hit.under way) := by
  have htarget : target.isNullish = false := by
    cases hwalk with
    | here => exact hx
    | cross => rfl
  have hbelow := allHits_below hg htree hdepth hwalk log log'
  have hlength : (g.allHits x q log').length ≤ q.maxResults := by
    rw [← List.length_map (Hit.under way), ← hbelow]
    exact Nat.le_trans (List.length_filter_le ..) (length_le_of_limitSuffices htarget hlimit)
  rw [search_hits_of_limitSuffices htarget hlimit, hbelow,
    search_hits_of_limitSuffices hx (limitSuffices_of_length_le hlength)]

/-- A hit is below a slot if it was found along a walk through it, but not by the
key or the value of the slot itself. -/
theorem isBelow_iff_foundAlong (hg : g.Steady) {s : Scope} {h : Hit}
    (hfound : ∃ way', h.FoundAlong g s target way') (hwalk : g.Walk s.CanCross target way x) :
    h.isBelow way = true ↔
      ∃ rest, h.FoundAlong g s target (way ++ rest) ∧ (rest ≠ [] ∨ h.kind = .type) := by
  rw [Hit.isBelow_iff]
  constructor
  · rintro ⟨later, hlater, htested⟩
    obtain ⟨way', halong⟩ := hfound
    obtain ⟨rest, rfl, rfl, -⟩ := hg.exists_append hwalk halong.walk (halong.places.symm.trans hlater)
    exact ⟨rest, halong, htested.imp_left fun hne hnil => hne (hnil ▸ rfl)⟩
  · rintro ⟨rest, halong, htested⟩
    refine ⟨rest.places, halong.places.trans (Way.places_append ..), ?_⟩
    exact htested.imp_left fun hne hnil => hne (List.map_eq_nil_iff.1 hnil)

end Graph

end ObjectGraph
