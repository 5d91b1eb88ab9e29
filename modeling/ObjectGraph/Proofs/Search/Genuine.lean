-- SUMMARY: Every hit is genuine: it lies at the end of a walk that the search itself has read.
import ObjectGraph.Proofs.Search.DepthLimit

/-! # Genuine hits

An accessor may answer each read differently, so a walk to a hit is worth
something only if its slots gave their values in the reads of this very search.
The log tells them: it starts with what was read before, and grows at every read
(`Search.walk_log_suffix`). A pending slot has a way that was read so far, and
stays within the depth bound (`Pending.Reached`); what holds of the hits follows
(`Graph.exists_walk_of_mem_search`).
-/

namespace ObjectGraph

/-! ## Reads between two logs -/

theorem Content.suffix_of_read {c : Content} {log log' : ReadLog} {found : Except AccessError Value}
    (h : c.read log = (found, log')) : log <:+ log' := by
  cases c with
  | stored v =>
    obtain ⟨-, rfl⟩ := Prod.mk.inj h
    exact List.suffix_refl _
  | computed a =>
    obtain ⟨-, rfl⟩ := Prod.mk.inj h
    exact List.suffix_cons ..

namespace Scope

variable {s : Scope} {start log log' : ReadLog} {x : Child} {v : Value}

/-- The filter accepts the slot, and a read of it between the logs gave the value. -/
def CrossesBetween (s : Scope) (start stop : ReadLog) (x : Child) (v : Value) : Prop :=
  s.accepts x.container x.slot.key = true ∧
    ∃ log log', start <:+ log ∧ x.slot.content.read log = (.ok v, log') ∧ log' <:+ stop

theorem CrossesBetween.mono (h : s.CrossesBetween start log x v) (hlog : log <:+ log') :
    s.CrossesBetween start log' x v := by
  obtain ⟨haccepts, before, after, hstart, hread, hafter⟩ := h
  exact ⟨haccepts, before, after, hstart, hread, hafter.trans hlog⟩

end Scope

namespace Search

/-- The way to the slot was read between the logs, and its container may be
entered at the end of it. -/
structure Pending.Reached (p : Pending) (g : Graph) (s : Scope) (target : Value)
    (start stop : ReadLog) : Prop where
  walk : g.Walk (s.CrossesBetween start stop) target p.way (.node p.child.parent)
  has : g.Has p.child
  reaches : s.reaches p.way.path = true

variable {g : Graph} {q : Query} {s : Scope} {target : Value} {seen : List NodeId} {room : Nat}
  {start log log' : ReadLog} {p : Pending} {pending : List Pending}

namespace Pending.Reached

theorem mono (h : p.Reached g s target start log) (hlog : log <:+ log') :
    p.Reached g s target start log' :=
  ⟨h.walk.mono fun _ _ _ hcross => hcross.mono hlog, h.has, h.reaches⟩

/-- The slots of a container that is entered are reached, if the slot that leads to it is. -/
theorem of_mem_pendingOf {r : Pending} {v : Value} {id : NodeId} {c : Container}
    (h : p.Reached g s target start log) (hcross : s.CrossesBetween start log p.child v)
    (hopened : entered? g s seen p.reach.path v = some (id, c)) (hr : r ∈ pendingOf id c p.reach) :
    r.Reached g s target start log := by
  obtain ⟨rfl, hreaches, -, hnode⟩ := entered?_eq_some hopened
  obtain ⟨hway, hchild⟩ := mem_pendingOf.1 hr
  refine ⟨?_, Graph.has_of_mem_children hnode hchild, hway ▸ hreaches⟩
  rw [hway, Container.parent_of_mem_children hchild]
  exact h.walk.snoc h.has hcross

end Pending.Reached

/-! ## The run -/

/-- A run only adds to the log. -/
theorem walk_log_suffix (g : Graph) (q : Query) (seen : List NodeId) (room : Nat) (log : ReadLog)
    (pending : List Pending) : log <:+ (walk g q seen room log pending).log := by
  fun_induction walk g q seen room log pending with
  | case1 => exact List.suffix_refl _
  | case2 => exact List.suffix_refl _
  | case3 seen room log p rest _ key accepted asked haccepted e log' hread later ih =>
    exact (Content.suffix_of_read hread).trans ih
  | case4 seen room log p rest _ key accepted asked haccepted v log' hread path hits later ih ihnone =>
    refine (Content.suffix_of_read hread).trans ?_
    show log' <:+ later.log
    unfold later
    split
    · exact ih _ _ ‹_›
    · exact ihnone
  | case5 seen room log p rest _ key accepted asked hrejected later ih => exact ih

/-- Each hit of a run was made at a slot that it reached and read. -/
theorem exists_visit_of_mem_walk (hstart : start <:+ log)
    (hpending : ∀ p ∈ pending, p.Reached g q.toScope target start log) {h : Hit}
    (hh : h ∈ (walk g q seen room log pending).hits) :
    ∃ v : Visit, let stop := (walk g q seen room log pending).log
      v.pending.Reached g q.toScope target start stop ∧
      q.toScope.CrossesBetween start stop v.pending.child v.value ∧ h ∈ v.hits g q := by
  fun_induction walk g q seen room log pending with
  | case1 => simp at hh
  | case2 => simp at hh
  | case3 seen room log p rest _ key accepted asked haccepted e log' hread later ih =>
    have hlog := Content.suffix_of_read hread
    exact ih (hstart.trans hlog) (fun r hr => (hpending r (List.mem_cons_of_mem _ hr)).mono hlog) hh
  | case4 seen room log p rest _ key accepted asked haccepted v log' hread path hits later ih ihnone =>
    have hlog := Content.suffix_of_read hread
    have hlater : log' <:+ later.log := by
      unfold later
      split <;> exact walk_log_suffix ..
    have hfirst := (hpending p (List.mem_cons_self ..)).mono hlog
    have hrest : ∀ r ∈ rest, r.Reached g q.toScope target start log' := fun r hr =>
      (hpending r (List.mem_cons_of_mem _ hr)).mono hlog
    have hcross : q.toScope.CrossesBetween start log' p.child v :=
      ⟨haccepted, log, log', hstart, hread, List.suffix_refl _⟩
    rcases List.mem_append.1 hh with hh | hh
    · -- the hits of a visit do not depend on what it opens
      exact ⟨⟨p, v, none⟩, hfirst.mono hlater, hcross.mono hlater, List.mem_of_mem_take hh⟩
    · show ∃ u : Visit, u.pending.Reached g q.toScope target start later.log ∧
        q.toScope.CrossesBetween start later.log u.pending.child u.value ∧ h ∈ u.hits g q
      -- both continuations start from the log after this read
      revert hh
      unfold later
      split
      · rename_i id c hopened
        intro hh
        refine ih id c hopened (hstart.trans hlog) (fun r hr => ?_) hh
        rcases List.mem_append.1 hr with hr | hr
        · exact hfirst.of_mem_pendingOf hcross hopened hr
        · exact hrest r hr
      · intro hh
        exact ihnone (hstart.trans hlog) hrest hh
  | case5 seen room log p rest _ key accepted asked hrejected later ih =>
    exact ih hstart (fun r hr => hpending r (List.mem_cons_of_mem _ hr)) hh

end Search

/-! ## What a hit says -/

namespace Search

variable {g : Graph} {q : Query} {key : SlotKey} {path : Path} {v : Value} {kind : HitKind}

theorem checks_of_finds (h : finds g q key path v kind = true) : q.mode.checks kind = true := by
  cases kind with
  | key => exact (Bool.and_eq_true_iff.1 h).1
  | value => exact (Bool.and_eq_true_iff.1 h).1
  | type => exact (Bool.and_eq_true_iff.1 (Bool.and_eq_true_iff.1 h).1).1

/-- The type of a container is tested only where it may be entered. -/
theorem reaches_of_finds_type (h : finds g q key path v .type = true) (hv : v.isScalar = false) :
    q.reaches path = true := by
  obtain ⟨htests, -⟩ := Bool.and_eq_true_iff.1 h
  simpa [testsType, hv] using (Bool.and_eq_true_iff.1 htests).2

end Search

/-- The test that the hit was found by succeeds at the end of the way: a value
or a key is tested at a slot, a type also at the target. -/
def Hit.Passes (h : Hit) (g : Graph) (c : Criterion) (way : Way) : Prop :=
  match h.kind with
  | .value => way ≠ [] ∧ c.matchesValue h.value = true
  | .key => ∃ x, way.getLast? = some x ∧ c.matchesSlotKey x.slot.key = true
  | .type => c.matchesType g h.value = true

theorem Search.Visit.passes_of_mem_hits {g : Graph} {q : Query} {v : Visit} {h : Hit}
    (hh : h ∈ v.hits g q) : h.Passes g q.criterion v.way := by
  obtain ⟨-, -, hvalue, hfinds⟩ := mem_hits.1 hh
  unfold Hit.Passes
  cases hkind : h.kind <;> rw [hkind] at hfinds <;> obtain ⟨_, hmatches⟩ := Bool.and_eq_true_iff.1 hfinds
  · exact ⟨by simp [way, Pending.reach], hvalue ▸ hmatches⟩
  · exact ⟨v.pending.child, by simp [way, Pending.reach], hmatches⟩
  · exact hvalue ▸ hmatches

/-! ## Whole searches -/

namespace Graph

open Search

variable {g : Graph} {target : Value} {q : Query} {log : ReadLog} {h : Hit}

/-- A hit of a search was made at the target, or at a slot that the search reached. -/
theorem exists_visit_of_mem_search (hh : h ∈ (g.search target q log).hits) :
    h ∈ g.targetHits target q ∨
    ∃ v : Visit, let stop := (g.search target q log).log
      v.pending.Reached g q.toScope target log stop ∧
      q.toScope.CrossesBetween log stop v.pending.child v.value ∧ h ∈ v.hits g q := by
  cases htarget : target.isNullish with
  | true => simp [search_hits_of_isNullish htarget] at hh
  | false =>
    simp only [search, htarget, Bool.false_eq_true, if_false] at hh ⊢
    rcases List.mem_append.1 hh with hh | hh
    · exact .inl (List.mem_of_mem_take hh)
    · refine .inr ?_
      cases hentered : entered? g q.toScope [] [] target with
      | none => simp [hentered] at hh
      | some opened =>
        obtain ⟨id, c⟩ := opened
        obtain ⟨rfl, hreaches, -, hnode⟩ := entered?_eq_some hentered
        simp only [hentered] at hh ⊢
        refine exists_visit_of_mem_walk (List.suffix_refl _) (fun p hp => ?_) hh
        obtain ⟨hway, hchild⟩ := mem_pendingOf.1 hp
        refine ⟨?_, has_of_mem_children hnode hchild, hway ▸ hreaches⟩
        rw [hway, Container.parent_of_mem_children hchild]
        exact .here _

/-- A hit lies at the end of a walk that the search has read, through slots that
the filter accepts; the walk is written as its path, the test of its kind
succeeds there and is one that the mode makes, and the depth bound is kept. -/
theorem exists_walk_of_mem_search (hh : h ∈ (g.search target q log).hits) :
    ∃ way, g.Walk (q.toScope.CrossesBetween log (g.search target q log).log) target way h.value ∧
      h.path = way.path ∧ h.places = way.places ∧
      q.mode.checks h.kind = true ∧ h.Passes g q.criterion way ∧
      (0 < q.maxDepth → h.path.length ≤ q.maxDepth ∧
        (h.kind = .type → h.value.isScalar = false → h.path.length < q.maxDepth)) := by
  rcases exists_visit_of_mem_search hh with htarget | ⟨v, hreached, hcross, hv⟩
  · obtain ⟨⟨hchecks, hmatches⟩, rfl⟩ := mem_targetHits.1 htarget
    exact ⟨[], .here _, rfl, rfl, hchecks, hmatches, fun hdepth => ⟨Nat.zero_le _, fun _ _ => hdepth⟩⟩
  · obtain ⟨hpath, hplaces, hvalue, hfinds⟩ := Visit.mem_hits.1 hv
    refine ⟨v.way, hvalue ▸ hreached.walk.snoc hreached.has hcross, hpath, hplaces,
      checks_of_finds hfinds, Visit.passes_of_mem_hits hv, fun hdepth => ⟨?_, fun hkind hscalar => ?_⟩⟩
    · have hlt := Scope.length_lt_of_reaches hdepth hreached.reaches
      rw [Way.length_path] at hlt
      rw [hpath, Way.length_path, Visit.way, Pending.reach, List.length_append, List.length_singleton]
      exact hlt
    · rw [hkind] at hfinds
      rw [hpath]
      exact Scope.length_lt_of_reaches hdepth (reaches_of_finds_type hfinds (hvalue ▸ hscalar))

/-- Three fields with one accessor: its first read gives a map that leads back,
its second read a string, and later reads fail. -/
def flicker : Graph :=
  let accessor : Accessor :=
    .ofOutcomes 0 (.ok (.node ⟨1⟩)) [.ok (.string "x"), .error ⟨"spent"⟩]
  { empty with
    nodes := #[
      .record ⟨none, [
        (.name "first", ⟨.computed accessor, true⟩),
        (.name "second", ⟨.computed accessor, true⟩),
        (.name "third", ⟨.computed accessor, true⟩)], by decide⟩,
      .map [(.null, .string "x"), (.string "back", .node ⟨0⟩)]] }

theorem exists_walk_of_mem_search_flicker :
    let q : Query := { Query.plain .all (.exact (.string "x")) with maxDepth := 2 }
    ∃ h ∈ (flicker.search (.node ⟨0⟩) q []).hits, h.path = [.field "first", .entry "null" false] ∧
      ∃ way, flicker.Walk (q.toScope.CrossesBetween [] [0, 0, 0]) (.node ⟨0⟩) way (.string "x") ∧
        way.places = [0, 0] := by
  intro q
  have hhits : (flicker.search (.node ⟨0⟩) q []).hits =
      [⟨[.field "first", .entry "null" false], [0, 0], .string "x", .value⟩,
        ⟨[.field "second"], [1], .string "x", .value⟩] := by cbv
  have hlog : (flicker.search (.node ⟨0⟩) q []).log = [0, 0, 0] := by cbv
  have hh := hhits ▸ List.mem_cons_self
  obtain ⟨way, hwalk, -, hplaces, -⟩ := exists_walk_of_mem_search hh
  exact ⟨_, hh, rfl, way, hlog ▸ hwalk, hplaces.symm⟩

end Graph

end ObjectGraph
