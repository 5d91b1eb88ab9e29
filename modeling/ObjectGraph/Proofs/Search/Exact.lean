-- SUMMARY: An unbounded search reports exactly what is due, and everything once.
import ObjectGraph.Proofs.Search.Hits

/-! # Exactly the hits that are due

Without a depth bound a search enters exactly the containers that can be reached
from its target through slots that are accepted and can be read. It therefore
visits each of their slots once (`Graph.exists_visit_of_reachable`), and reports
the tests that succeed there (`Graph.search_reports_due`).
-/

namespace ObjectGraph

namespace Graph

/-- What a search from a target has to report: the tests that succeed at the
slots of reachable containers, and the type test of the target itself. -/
inductive Due (g : Graph) (target : Value) (q : Query) : Site → HitKind → Value → Prop
  | target : q.mode.checks .type = true → q.criterion.matchesType g target = true →
    Due g target q .target .type target
  | value {x : Child} {v : Value} : g.Reachable q.toScope.CanCross target x.parent → g.Has x →
    q.toScope.CanCross x v → q.mode.checks .value = true → q.criterion.matchesValue v = true →
    Due g target q x.site .value v
  | key {x : Child} {v : Value} : g.Reachable q.toScope.CanCross target x.parent → g.Has x →
    q.toScope.CanCross x v → q.mode.checks .key = true →
    q.criterion.matchesSlotKey x.slot.key = true → Due g target q x.site .key v
  | type {x : Child} {v : Value} : g.Reachable q.toScope.CanCross target x.parent → g.Has x →
    q.toScope.CanCross x v → q.mode.checks .type = true → q.criterion.matchesType g v = true →
    Due g target q x.site .type v

open Search

variable {g : Graph} {target : Value} {q : Query} {s : Scope} {log : ReadLog}

/-! ## Reachable containers are entered -/

theorem reaches_of_unbounded (hdepth : s.maxDepth = 0) (path : Path) : s.reaches path = true :=
  Scope.reaches_iff.2 (.inl hdepth)

theorem exists_enters_of_reachable (log : ReadLog) (hg : g.Steady) (hdepth : s.maxDepth = 0) {id : NodeId}
    {c : Container} (hreach : g.Reachable s.CanCross target id) (hnode : g.node? id = some c) :
    ∃ way, g.Enters target s log id way := by
  induction hreach generalizing c with
  | target htarget => exact ⟨[], .inl ⟨htarget, rfl⟩⟩
  | @child x id _ hx hcross ih =>
    obtain ⟨way, henters⟩ := ih hx.node
    obtain ⟨v, hv, _, hvalue⟩ := henters.exists_visit hx (hg.crosses hx hcross)
    exact exists_enters hv hvalue (reaches_of_unbounded hdepth _) hnode

theorem exists_visit_of_reachable (log : ReadLog) (hg : g.Steady) (hdepth : s.maxDepth = 0)
    {x : Child} {value : Value}
    (hreach : g.Reachable s.CanCross target x.parent) (hx : g.Has x) (hcross : s.CanCross x value) :
    ∃ v ∈ g.visits target s log, v.pending.child = x ∧ v.value = value := by
  obtain ⟨way, henters⟩ := exists_enters_of_reachable log hg hdepth hreach hx.node
  obtain ⟨v, hv, hpending, hvalue⟩ := henters.exists_visit hx (hg.crosses hx hcross)
  exact ⟨v, hv, by rw [hpending], hvalue⟩

theorem reachable_of_mem_visits {v : Visit} (hv : v ∈ g.visits target s log) :
    g.Reachable s.CanCross target v.pending.child.parent :=
  (located_of_mem_visits hv).walk.reachable

/-! ## Hits and what is due -/

theorem foundAt_of_mem_hits {v : Visit} (hv : v ∈ g.visits target q.toScope log) {h : Hit}
    (hh : h ∈ v.hits g q) : h.FoundAt g q.toScope target v.pending.child.site :=
  ⟨v.way, foundAlong_of_mem_hits hv hh, Way.site_snoc ..⟩

theorem due_of_mem_hits {v : Visit} (hv : v ∈ g.visits target q.toScope log) {h : Hit}
    (hh : h ∈ v.hits g q) : g.Due target q v.pending.child.site h.kind h.value := by
  obtain ⟨_, _, hvalue, hfinds⟩ := Visit.mem_hits.1 hh
  have hreach := reachable_of_mem_visits hv
  have hx := (located_of_mem_visits hv).has
  have hcross := canCross_of_mem_visits hv
  rw [hvalue]
  obtain ⟨path, places, value, kind⟩ := h
  cases kind with
  | value =>
    obtain ⟨hchecks, hmatches⟩ := Bool.and_eq_true_iff.1 hfinds
    exact .value hreach hx hcross hchecks hmatches
  | key =>
    obtain ⟨hchecks, hmatches⟩ := Bool.and_eq_true_iff.1 hfinds
    exact .key hreach hx hcross hchecks hmatches
  | type =>
    obtain ⟨htests, hmatches⟩ := Bool.and_eq_true_iff.1 hfinds
    exact .type hreach hx hcross (Bool.and_eq_true_iff.1 htests).1 hmatches

theorem due_of_mem_allHits (hg : g.Steady) {h : Hit} (hh : h ∈ g.allHits target q log) {site : Site}
    (hfound : h.FoundAt g q.toScope target site) : g.Due target q site h.kind h.value := by
  rcases mem_allHits.1 hh with hh | ⟨v, hv, hh⟩
  · have hsite := hfound.unique hg ⟨[], foundAlong_of_mem_targetHits hh, rfl⟩
    obtain ⟨⟨hchecks, hmatches⟩, rfl⟩ := mem_targetHits.1 hh
    exact hsite ▸ .target hchecks hmatches
  · rw [hfound.unique hg (foundAt_of_mem_hits hv hh)]
    exact due_of_mem_hits hv hh

/-- A test that succeeds at a slot of a reachable container is reported. -/
theorem exists_hit_of_reachable (hg : g.Steady) (hdepth : q.maxDepth = 0) {x : Child} {value : Value}
    {kind : HitKind} (hreach : g.Reachable q.toScope.CanCross target x.parent) (hx : g.Has x)
    (hcross : q.toScope.CanCross x value)
    (hfinds : ∀ path, finds g q x.slot.key path value kind = true) :
    ∃ h ∈ g.allHits target q log, h.FoundAt g q.toScope target x.site ∧ h.kind = kind ∧
      h.value = value := by
  obtain ⟨v, hv, hchild, hvalue⟩ := exists_visit_of_reachable log hg hdepth hreach hx hcross
  subst hchild hvalue
  have hh : ⟨v.way.path, v.way.places, v.value, kind⟩ ∈ v.hits g q :=
    Visit.mem_hits.2 ⟨rfl, rfl, rfl, hfinds _⟩
  exact ⟨_, mem_allHits.2 (.inr ⟨v, hv, hh⟩), foundAt_of_mem_hits hv hh, rfl, rfl⟩

theorem exists_hit_of_due (hg : g.Steady) (hdepth : q.maxDepth = 0) {site : Site} {kind : HitKind}
    {value : Value} (hdue : g.Due target q site kind value) :
    ∃ h ∈ g.allHits target q log, h.FoundAt g q.toScope target site ∧ h.kind = kind ∧
      h.value = value := by
  cases hdue with
  | target hchecks hmatches =>
    have hh := mem_targetHits.2 ⟨⟨hchecks, hmatches⟩, rfl⟩
    exact ⟨_, mem_allHits.2 (.inl hh), ⟨[], foundAlong_of_mem_targetHits hh, rfl⟩, rfl, rfl⟩
  | value hreach hx hcross hchecks hmatches =>
    refine exists_hit_of_reachable hg hdepth hreach hx hcross fun path => ?_
    simp [finds, hchecks, hmatches]
  | key hreach hx hcross hchecks hmatches =>
    refine exists_hit_of_reachable hg hdepth hreach hx hcross fun path => ?_
    simp [finds, hchecks, hmatches]
  | type hreach hx hcross hchecks hmatches =>
    refine exists_hit_of_reachable hg hdepth hreach hx hcross fun path => ?_
    simp [finds, testsType, hchecks, hmatches, reaches_of_unbounded hdepth]

/-! ## Nothing is reported twice -/

/-- Two hits that say the same of the same site. -/
def SameFinding (g : Graph) (target : Value) (s : Scope) (h h' : Hit) : Prop :=
  h.kind = h'.kind ∧ ∃ site, h.FoundAt g s target site ∧ h'.FoundAt g s target site

theorem pairwise_allHits (hg : g.Steady) :
    (g.allHits target q log).Pairwise fun h h' => ¬ g.SameFinding target q.toScope h h' := by
  refine List.pairwise_append.2 ⟨?_, List.pairwise_flatMap.2 ⟨?_, ?_⟩, ?_⟩
  · unfold targetHits
    split
    · exact List.pairwise_singleton _ _
    · exact .nil
  · exact fun v _ => Visit.pairwise_hits.imp fun hne hsame => hne hsame.1
  · have hsites := List.pairwise_map.1 (nodup_visits g target q.toScope log)
    refine hsites.imp_of_mem fun hv hv' hne h hh h' hh' hsame => ?_
    obtain ⟨_, site, hfound, hfound'⟩ := hsame
    have hsite := hfound.unique hg (foundAt_of_mem_hits hv hh)
    have hsite' := hfound'.unique hg (foundAt_of_mem_hits hv' hh')
    exact hne (hsite.symm.trans hsite')
  · intro h hh h' hh' hsame
    obtain ⟨v, hv, hh'⟩ := List.mem_flatMap.1 hh'
    obtain ⟨_, site, hfound, hfound'⟩ := hsame
    have hsite := hfound.unique hg ⟨[], foundAlong_of_mem_targetHits hh, rfl⟩
    have hsite' := hfound'.unique hg (foundAt_of_mem_hits hv hh')
    cases hsite.symm.trans hsite'

/-- A search without depth bound and with room enough reports what is due and
nothing else, and everything once. -/
theorem search_reports_due (hg : g.Steady) (htarget : target.isNullish = false)
    (hdepth : q.maxDepth = 0) (hlimit : g.LimitSuffices target q log) :
    let hits := (g.search target q log).hits
    (∀ site kind value, g.Due target q site kind value ↔
      ∃ h ∈ hits, h.FoundAt g q.toScope target site ∧ h.kind = kind ∧ h.value = value) ∧
    (∀ h ∈ hits, ∃ site, h.FoundAt g q.toScope target site) ∧
    hits.Pairwise fun h h' => ¬ g.SameFinding target q.toScope h h' := by
  intro hits
  have hhits : hits = g.allHits target q log := search_hits_of_limitSuffices htarget hlimit
  rw [hhits]
  refine ⟨fun site kind value => ⟨exists_hit_of_due hg hdepth, ?_⟩, fun h hh => ?_,
    pairwise_allHits hg⟩
  · rintro ⟨h, hh, hfound, rfl, rfl⟩
    exact due_of_mem_allHits hg hh hfound
  · obtain ⟨way, halong⟩ := exists_foundAlong hh
    exact ⟨way.site, way, halong, rfl⟩

/-- Three references to one sequence, the last of them computed; the sequence
refers back to where it came from and to a container that does not exist. -/
def braided : Graph :=
  { empty with
    nodes := #[
      .record ⟨none, [
        (.name "a", ⟨.stored (.node ⟨1⟩), true⟩),
        (.name "b", ⟨.stored (.node ⟨1⟩), true⟩),
        (.name "x", ⟨.computed ⟨0, fun _ => .ok (.node ⟨1⟩)⟩, true⟩)], by decide⟩,
      .sequence [.string "x", .node ⟨0⟩, .node ⟨7⟩]] }

theorem steady_braided : braided.Steady := by
  refine steady_iff.2 ?_
  simp [braided, Container.slots, Content.Steady, Accessor.Steady]

theorem search_reports_due_braided :
    let q : Query := .plain .all (.exact (.string "x"))
    (braided.Steady ∧ (Value.node ⟨0⟩).isNullish = false ∧ q.maxDepth = 0 ∧
      braided.LimitSuffices (.node ⟨0⟩) q []) ∧
    ∃ h ∈ (braided.search (.node ⟨0⟩) q []).hits,
      h.FoundAt braided q.toScope (.node ⟨0⟩) (.slot ⟨1⟩ 0) ∧ h.kind = .value ∧
        h.value = .string "x" := by
  intro q
  have hlimit : braided.LimitSuffices (.node ⟨0⟩) q [] := limitSuffices_of_length_le (by cbv)
  refine ⟨⟨steady_braided, rfl, rfl, hlimit⟩, ?_⟩
  have hroot : braided.Reachable q.toScope.CanCross (.node ⟨0⟩) ⟨0⟩ := .target rfl
  have hitems : braided.Reachable q.toScope.CanCross (.node ⟨0⟩) ⟨1⟩ :=
    .child (x := ⟨⟨0⟩, _, 0, _⟩) hroot ⟨rfl, rfl⟩ ⟨rfl, [], rfl⟩
  have hdue : braided.Due (.node ⟨0⟩) q (.slot ⟨1⟩ 0) .value (.string "x") :=
    .value (x := ⟨⟨1⟩, _, 0, _⟩) hitems ⟨rfl, rfl⟩ ⟨rfl, [], rfl⟩ rfl (by decide)
  exact ((search_reports_due steady_braided rfl rfl hlimit).1 _ _ _).1 hdue

end Graph

end ObjectGraph
