-- SUMMARY: What a depth bound keeps, and what it can cost: a slot near the target is reported or cut off.
import ObjectGraph.Proofs.Search.Hits

/-! # Depth bounds

Under a depth bound no path to a hit is longer than the bound. The converse
fails: a container is entered once, along the way on which it is first met, and
that way may be too long to go on from, although a shorter walk leads there too.
Nothing else is lost (`Graph.search_reports_within_depth`).
-/

namespace ObjectGraph

namespace Scope

variable {s : Scope} {path : Path}

theorem reaches_of_length_lt (h : path.length < s.maxDepth) : s.reaches path = true :=
  reaches_iff.2 (.inr h)

theorem length_lt_of_reaches (hdepth : 0 < s.maxDepth) (h : s.reaches path = true) :
    path.length < s.maxDepth :=
  (reaches_iff.1 h).resolve_left (Nat.ne_of_gt hdepth)

end Scope

namespace Graph

open Search

/-- The walk passes a container that was entered along a longer way, from where
the rest of the walk exceeds the bound. -/
def CutOff (g : Graph) (target : Value) (s : Scope) (log : ReadLog) (walk : Way) : Prop :=
  ∃ before x after late, walk = before ++ x :: after ∧ g.Enters target s log x.parent late ∧
    before.length < late.length ∧ s.maxDepth < late.length + (x :: after).length

/-- A value is reported at a site, along a path within the bound. -/
def ReportsValue (g : Graph) (target : Value) (q : Query) (log : ReadLog) (site : Site)
    (value : Value) : Prop :=
  ∃ h ∈ (g.search target q log).hits, h.FoundAt g q.toScope target site ∧ h.kind = .value ∧
    h.value = value ∧ h.path.length ≤ q.maxDepth

variable {g : Graph} {target value : Value} {q : Query} {s : Scope} {log : ReadLog}

/-! ## What the bound keeps -/

theorem length_way_le (hdepth : 0 < s.maxDepth) {v : Visit} (hv : v ∈ g.visits target s log) :
    v.way.length ≤ s.maxDepth := by
  have hlt := s.length_lt_of_reaches hdepth (enters_of_mem_visits hv).reaches
  rw [Way.length_path] at hlt
  simpa [Visit.way, Pending.reach] using Nat.succ_le_of_lt hlt

/-- A value hit comes from a visit. -/
theorem exists_visit_of_value {h : Hit} (hh : h ∈ (g.search target q log).hits)
    (hkind : h.kind = .value) :
    ∃ v ∈ g.visits target q.toScope log, h.FoundAlong g q.toScope target v.way ∧
      q.criterion.matchesValue h.value = true := by
  rcases mem_allHits.1 (mem_allHits_of_mem_search hh) with hh | ⟨v, hv, hh⟩
  · obtain ⟨_, rfl⟩ := mem_targetHits.1 hh
    cases hkind
  · obtain ⟨_, _, hvalue, hfinds⟩ := Visit.mem_hits.1 hh
    rw [hkind] at hfinds
    exact ⟨v, hv, foundAlong_of_mem_hits hv hh, hvalue ▸ (Bool.and_eq_true_iff.1 hfinds).2⟩

/-- The search goes no way that is cut off: each container on it was entered there. -/
theorem not_cutOff_of_mem_visits {v : Visit} (hv : v ∈ g.visits target s log) :
    ¬ g.CutOff target s log v.way := by
  rintro ⟨before, x, after, late, hway, henters, hlate, _⟩
  obtain rfl := henters.unique (enters_of_way hv hway)
  exact Nat.lt_irrefl _ hlate

/-! ## What it can cost -/

theorem Enters.exists_visit_of_walk {late after : Way} {x : Child}
    (henters : g.Enters target s log x.parent late)
    (hwalk : g.Walk s.Crosses (.node x.parent) (x :: after) value) :
    ∃ v ∈ g.visits target s log, v.pending = ⟨late, x⟩ ∧ g.Walk s.Crosses v.value after value := by
  obtain ⟨-, hx, next, hcross, hrest⟩ := hwalk.of_cons
  obtain ⟨v, hv, hpending, rfl⟩ := henters.exists_visit hx hcross
  exact ⟨v, hv, hpending, hrest⟩

/-- From a container that is entered early enough, a walk is visited to its end,
unless it is cut off at a later container. -/
theorem exists_visit_or_cutOff (before : Way) {after late : Way} {x : Child}
    (henters : g.Enters target s log x.parent late)
    (hwalk : g.Walk s.Crosses (.node x.parent) (x :: after) value)
    (hfits : late.length + (x :: after).length ≤ s.maxDepth)
    (hlength : (before ++ x :: after).length ≤ s.maxDepth) :
    (∃ v ∈ g.visits target s log, v.pending.child.site = Way.site (x :: after) ∧ v.value = value) ∨
      g.CutOff target s log (before ++ x :: after) := by
  induction after generalizing before late x with
  | nil =>
    obtain ⟨v, hv, hpending, hrest⟩ := henters.exists_visit_of_walk hwalk
    exact .inl ⟨v, hv, by simp [hpending, Way.site], hrest.of_nil⟩
  | cons y rest ih =>
    obtain ⟨v, hv, hpending, hrest⟩ := henters.exists_visit_of_walk hwalk
    obtain ⟨hvalue, hy, _⟩ := hrest.of_cons
    have hway : v.way = late ++ [x] := Visit.way_of_pending hpending
    have hreaches : s.reaches v.way.path = true := by
      refine s.reaches_of_length_lt ?_
      simp only [List.length_cons] at hfits
      rw [Way.length_path, hway, List.length_append, List.length_singleton]
      omega
    obtain ⟨late', henters'⟩ := exists_enters hv hvalue hreaches hy.node
    have hsplit : before ++ x :: y :: rest = (before ++ [x]) ++ y :: rest := by simp
    rw [hsplit] at hlength ⊢
    rw [Way.site_cons_cons]
    by_cases hfits' : late'.length + (y :: rest).length ≤ s.maxDepth
    · exact ih _ henters' (hvalue ▸ hrest) hfits' hlength
    · rw [List.length_append] at hlength
      exact .inr ⟨before ++ [x], y, rest, late', rfl, henters', by omega, by omega⟩

theorem reportsValue_or_cutOff (hchecks : q.mode.checks .value = true)
    (hlimit : g.LimitSuffices target q log) {way : Way} (hne : way ≠ [])
    (hwalk : g.Walk q.toScope.Crosses target way value) (hlength : way.length ≤ q.maxDepth)
    (hmatches : q.criterion.matchesValue value = true) :
    g.ReportsValue target q log way.site value ∨ g.CutOff target q.toScope log way := by
  cases way with
  | nil => exact absurd rfl hne
  | cons x after =>
    obtain ⟨rfl, _⟩ := hwalk.of_cons
    have henters : g.Enters (.node x.parent) q.toScope log x.parent [] := .inl ⟨rfl, rfl⟩
    refine (exists_visit_or_cutOff [] henters hwalk (by simpa using hlength) hlength).imp_left ?_
    rintro ⟨v, hv, hsite, rfl⟩
    have hh : ⟨v.way.path, v.way.places, v.value, .value⟩ ∈ v.hits g q :=
      Visit.mem_hits.2 ⟨rfl, rfl, rfl, by simp [finds, hchecks, hmatches]⟩
    refine ⟨_, ?_, ⟨v.way, foundAlong_of_mem_hits hv hh, (Way.site_snoc ..).trans hsite⟩, rfl, rfl, ?_⟩
    · rw [search_hits_of_limitSuffices rfl hlimit]
      exact mem_allHits.2 (.inr ⟨v, hv, hh⟩)
    · rw [Way.length_path]
      refine length_way_le ?_ hv
      exact Nat.lt_of_lt_of_le (Nat.succ_pos _) hlength

/-- What a walk within the bound leads to is reported within the bound, unless
the walk is cut off. So what a smaller bound reports is lost under a greater one
only where the walk to it is cut off; and whatever is reported is at the end of
a walk within the bound that is not. -/
theorem search_reports_within_depth (hchecks : q.mode.checks .value = true)
    (hdepth : 0 < q.maxDepth) (hlimit : g.LimitSuffices target q log) :
    (∀ (way : Way) value, way ≠ [] → g.Walk q.toScope.Crosses target way value →
      way.length ≤ q.maxDepth → q.criterion.matchesValue value = true →
        g.ReportsValue target q log way.site value ∨ g.CutOff target q.toScope log way) ∧
    (∀ d log', 0 < d → d ≤ q.maxDepth →
      ∀ h ∈ (g.search target { q with maxDepth := d } log').hits, h.kind = .value →
      ∀ way, h.FoundAlong g q.toScope target way → g.Walk q.toScope.Crosses target way h.value →
        g.ReportsValue target q log way.site h.value ∨ g.CutOff target q.toScope log way) ∧
    (∀ h ∈ (g.search target q log).hits, h.kind = .value →
      ∃ way, h.FoundAlong g q.toScope target way ∧ way.length ≤ q.maxDepth ∧
        ¬ g.CutOff target q.toScope log way) := by
  refine ⟨fun way value => reportsValue_or_cutOff hchecks hlimit, ?_, ?_⟩
  · intro d log' hd hle h hh hkind way halong hwalk
    obtain ⟨v, hv, hfound, hmatches⟩ := exists_visit_of_value hh hkind
    have hlength : way.length = v.way.length := by
      rw [← way.length_path, ← halong.path, hfound.path, Way.length_path]
    have hbound : v.way.length ≤ d := length_way_le hd hv
    have hne : way ≠ [] := by
      rintro rfl
      simp [Visit.way, Pending.reach] at hlength
    exact reportsValue_or_cutOff hchecks hlimit hne hwalk (by omega) hmatches
  · intro h hh hkind
    obtain ⟨v, hv, hfound, _⟩ := exists_visit_of_value hh hkind
    exact ⟨v.way, hfound, length_way_le hdepth hv, not_cutOff_of_mem_visits hv⟩

/-- A record that is reached by two ways: `a.x.y` is met first, `b` is shorter. -/
def detour : Graph :=
  { empty with
    nodes := #[
      .record ⟨none, [
        (.name "a", ⟨.stored (.node ⟨1⟩), true⟩),
        (.name "b", ⟨.stored (.node ⟨3⟩), true⟩)], by decide⟩,
      .record ⟨none, [(.name "x", ⟨.stored (.node ⟨2⟩), true⟩)], by decide⟩,
      .record ⟨none, [(.name "y", ⟨.stored (.node ⟨3⟩), true⟩)], by decide⟩,
      .record ⟨none, [(.name "v", ⟨.stored (.node ⟨4⟩), true⟩)], by decide⟩,
      .record ⟨none, [(.name "w", ⟨.stored (.string "hit"), true⟩)], by decide⟩] }

def hitWithin (depth : Nat) : Query :=
  { Query.plain .value (.exact (.string "hit")) with maxDepth := depth }

/-- The walk along `b.v.w`. -/
theorem exists_walk_detour (depth : Nat) :
    ∃ way, detour.Walk (hitWithin depth).toScope.Crosses (.node ⟨0⟩) way (.string "hit") ∧
      way.path = [.field "b", .field "v", .field "w"] ∧ way.places = [1, 0, 0] ∧
      way.site = .slot ⟨4⟩ 0 :=
  ⟨_, .cross (x := ⟨⟨0⟩, _, 1, _⟩) ⟨rfl, rfl⟩ ⟨rfl, fun _ => rfl⟩ <|
    .cross (x := ⟨⟨3⟩, _, 0, _⟩) ⟨rfl, rfl⟩ ⟨rfl, fun _ => rfl⟩ <|
    .cross (x := ⟨⟨4⟩, _, 0, _⟩) ⟨rfl, rfl⟩ ⟨rfl, fun _ => rfl⟩ <| .here _, rfl, rfl, rfl⟩

theorem search_reports_within_depth_detour :
    ((hitWithin 3).mode.checks .value = true ∧ 0 < (hitWithin 3).maxDepth ∧
      detour.LimitSuffices (.node ⟨0⟩) (hitWithin 3) []) ∧
    ∃ way, detour.Walk (hitWithin 3).toScope.Crosses (.node ⟨0⟩) way (.string "hit") ∧
      (detour.ReportsValue (.node ⟨0⟩) (hitWithin 3) [] (.slot ⟨4⟩ 0) (.string "hit") ∨
        detour.CutOff (.node ⟨0⟩) (hitWithin 3).toScope [] way) := by
  have hlimit : detour.LimitSuffices (.node ⟨0⟩) (hitWithin 3) [] :=
    limitSuffices_of_length_le (by cbv)
  obtain ⟨way, hwalk, hpath, -, hsite⟩ := exists_walk_detour 3
  have hlength : way.length = 3 := way.length_path.symm.trans (congrArg List.length hpath)
  have hne : way ≠ [] := List.ne_nil_of_length_eq_add_one hlength
  have hreport := (search_reports_within_depth rfl (by decide) hlimit).1 way _ hne hwalk
    (Nat.le_of_eq hlength) (by decide)
  exact ⟨⟨rfl, by decide, hlimit⟩, way, hwalk, hsite ▸ hreport⟩

/-- A bound of four misses what a bound of three reports. -/
theorem search_loses_detour :
    (∃ way, detour.Walk (hitWithin 4).toScope.Crosses (.node ⟨0⟩) way (.string "hit") ∧
      way.length ≤ (hitWithin 4).maxDepth ∧ way.site = .slot ⟨4⟩ 0) ∧
    (hitWithin 4).criterion.matchesValue (.string "hit") = true ∧
    detour.LimitSuffices (.node ⟨0⟩) (hitWithin 4) [] ∧
    ¬ detour.ReportsValue (.node ⟨0⟩) (hitWithin 4) [] (.slot ⟨4⟩ 0) (.string "hit") ∧
    detour.LimitSuffices (.node ⟨0⟩) (hitWithin 3) [] ∧
    detour.ReportsValue (.node ⟨0⟩) (hitWithin 3) [] (.slot ⟨4⟩ 0) (.string "hit") := by
  have hnone : (detour.search (.node ⟨0⟩) (hitWithin 4) []).hits = [] := by cbv
  have hone : (detour.search (.node ⟨0⟩) (hitWithin 3) []).hits =
      [⟨[.field "b", .field "v", .field "w"], [1, 0, 0], .string "hit", .value⟩] := by cbv
  obtain ⟨way, hwalk, hpath, hplaces, hsite⟩ := exists_walk_detour 4
  have hlength : way.length = 3 := way.length_path.symm.trans (congrArg List.length hpath)
  refine ⟨⟨way, hwalk, hlength ▸ by decide, hsite⟩, by decide, limitSuffices_of_length_le (by cbv),
    ?_, limitSuffices_of_length_le (by cbv), ?_⟩
  · rintro ⟨h, hh, _⟩
    simp [hnone] at hh
  · have hcan : detour.Walk (hitWithin 3).toScope.CanCross (.node ⟨0⟩) way (.string "hit") :=
      hwalk.mono fun _ _ _ h => h.canCross
    exact ⟨_, hone ▸ List.mem_singleton.2 rfl, ⟨way, ⟨hcan, hpath.symm, hplaces.symm⟩, hsite⟩,
      rfl, rfl, by decide⟩

end Graph

end ObjectGraph
