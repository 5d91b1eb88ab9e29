-- SUMMARY: Hits come in document order: by their positions, then key before value before type.
import ObjectGraph.Proofs.Search.Genuine

/-! # Document order

The positions of two slots are compared like words in a dictionary. One list of
positions comes before another either because it stops earlier, as that of a
parent does, or because it turns off earlier (`TurnsOff`). The slots that wait
in a search turn off one after the other, so everything below one of them is
visited before the next (`Search.sorted_visits`), and the hits are in order
(`Graph.search_hits_sorted`).
-/

namespace ObjectGraph

/-! ## Lists of positions -/

/-- Where the two lists part, the first one has the smaller position. -/
inductive TurnsOff : List Nat → List Nat → Prop
  | here {i j : Nat} {a b : List Nat} : i < j → TurnsOff (i :: a) (j :: b)
  | along {i : Nat} {a b : List Nat} : TurnsOff a b → TurnsOff (i :: a) (i :: b)

namespace TurnsOff

variable {a b : List Nat}

theorem lt (h : TurnsOff a b) : a < b := by
  induction h with
  | here hij => exact List.Lex.rel hij
  | along _ ih => exact List.Lex.cons ih

theorem exists_append (h : TurnsOff a b) : ∃ (common : List Nat) (i j : Nat) (s t : List Nat),
    a = common ++ i :: s ∧ b = common ++ j :: t ∧ i < j := by
  induction h with
  | @here i j a b hij => exact ⟨[], i, j, a, b, rfl, rfl, hij⟩
  | @along k _ _ _ ih =>
    obtain ⟨common, i, j, s, t, ha, hb, hij⟩ := ih
    exact ⟨k :: common, i, j, s, t, congrArg _ ha, congrArg _ hb, hij⟩

/-- What follows does not change where two lists part. -/
theorem append (h : TurnsOff a b) (s t : List Nat) : TurnsOff (a ++ s) (b ++ t) := by
  induction h with
  | here hij => exact .here hij
  | along _ ih => exact .along ih

theorem append_left (h : TurnsOff a b) (init : List Nat) : TurnsOff (init ++ a) (init ++ b) := by
  induction init with
  | nil => exact h
  | cons i rest ih => exact .along ih

end TurnsOff

/-- A list comes before another because it stops earlier or turns off earlier. -/
theorem prefix_or_turnsOff_of_lt {a b : List Nat} (h : a < b) : a <+: b ∨ TurnsOff a b := by
  induction h with
  | nil => exact .inl (List.nil_prefix)
  | @cons i a b _ ih =>
    rcases ih with hprefix | hturns
    · exact .inl (List.cons_prefix_cons.2 ⟨rfl, hprefix⟩)
    · exact .inr (.along hturns)
  | rel hij => exact .inr (.here hij)

theorem lt_of_prefix_of_length_lt {a b : List Nat} (h : a <+: b) (hlength : a.length < b.length) : a < b := by
  induction a generalizing b with
  | nil =>
    cases b with
    | nil => simp at hlength
    | cons j rest => exact List.Lex.nil
  | cons i rest ih =>
    obtain ⟨s, rfl⟩ := h
    have hrest : rest.length < (rest ++ s).length := Nat.lt_of_succ_lt_succ hlength
    exact List.Lex.cons (ih (List.prefix_append rest s) hrest)

namespace Way

theorem places_append (w w' : Way) : Way.places (w ++ w') = w.places ++ w'.places :=
  List.map_append

theorem places_snoc (w : Way) (x : Child) : Way.places (w ++ [x]) = w.places ++ [x.position] :=
  places_append ..

theorem places_prefix {w w' : Way} (h : w <+: w') : w.places <+: w'.places := h.map _

end Way

/-! ## Visits in order -/

namespace Search

variable {g : Graph} {s : Scope} {seen : List NodeId} {log : ReadLog} {pending : List Pending}

/-- The slots of a container turn off one after the other. -/
theorem pairwise_pendingOf (id : NodeId) (c : Container) (way : Way) :
    (pendingOf id c way).Pairwise fun p r => TurnsOff p.reach.places r.reach.places := by
  rw [pendingOf, List.pairwise_map, Container.children, List.pairwise_iff_getElem]
  intro i j hi hj hij
  simp only [List.getElem_mapIdx, Pending.reach, Way.places_append]
  exact (TurnsOff.here hij).append_left _

/-- What is visited lies at or below a slot that waits. -/
theorem exists_reach_prefix {v : Visit} (hv : v ∈ visits g s seen log pending) :
    ∃ p ∈ pending, p.reach <+: v.way := by
  fun_induction visits g s seen log pending with
  | case1 => simp at hv
  | case2 seen log p rest log' hlook ih =>
    obtain ⟨r, hr, hprefix⟩ := ih hv
    exact ⟨r, List.mem_cons_of_mem _ hr, hprefix⟩
  | case3 seen log p rest value log' hlook visit ih =>
    rcases List.mem_cons.1 hv with rfl | hv
    · exact ⟨p, List.mem_cons_self .., List.prefix_refl _⟩
    · obtain ⟨r, hr, hprefix⟩ := ih hv
      rcases List.mem_append.1 hr with hr | hr
      · obtain ⟨_, _, _, hway, _⟩ := Visit.mem_children.1 hr
        have hbelow : p.reach <+: r.reach := by
          change p.reach <+: r.way ++ [r.child]
          rw [hway]
          exact List.prefix_append _ _
        exact ⟨p, List.mem_cons_self .., hbelow.trans hprefix⟩
      · exact ⟨r, List.mem_cons_of_mem _ hr, hprefix⟩

theorem Visit.pairwise_children (v : Visit) :
    v.children.Pairwise fun p r => TurnsOff p.reach.places r.reach.places := by
  cases hopened : v.opened with
  | none => simp [children, hopened]
  | some opened => simpa [children, hopened] using pairwise_pendingOf opened.1 opened.2 v.way

theorem Visit.reach_of_mem_children {v : Visit} {r : Pending} (hr : r ∈ v.children) :
    r.reach.places = v.way.places ++ [r.child.position] := by
  obtain ⟨_, _, _, hway, _⟩ := mem_children.1 hr
  rw [Pending.reach, hway, Way.places_snoc]

/-- Slots that wait in order are visited in order, with all that lies below them. -/
theorem sorted_visits
    (hpending : pending.Pairwise fun p r => TurnsOff p.reach.places r.reach.places) :
    (visits g s seen log pending).Pairwise fun u v => u.way.places < v.way.places := by
  fun_induction visits g s seen log pending with
  | case1 => exact .nil
  | case2 seen log p rest log' hlook ih => exact ih (List.pairwise_cons.1 hpending).2
  | case3 seen log p rest value log' hlook visit ih =>
    obtain ⟨hfirst, hrest⟩ := List.pairwise_cons.1 hpending
    refine List.pairwise_cons.2 ⟨?_, ih ?_⟩
    · intro v hv
      obtain ⟨r, hr, hprefix⟩ := exists_reach_prefix hv
      obtain ⟨later, hlater⟩ := Way.places_prefix hprefix
      rw [← hlater]
      rcases List.mem_append.1 hr with hr | hr
      · -- below the slot itself
        rw [Visit.reach_of_mem_children hr, List.append_assoc]
        exact lt_of_prefix_of_length_lt (List.prefix_append _ _) (by simp [visit, Visit.way])
      · have happart := (hfirst r hr).append [] later
        rw [List.append_nil] at happart
        exact happart.lt
    · refine List.pairwise_append.2 ⟨visit.pairwise_children, hrest, ?_⟩
      intro r hr t ht
      rw [Visit.reach_of_mem_children hr]
      have happart := (hfirst t ht).append [r.child.position] []
      rw [List.append_nil] at happart
      exact happart

end Search

/-! ## Hits in order -/

/-- The order of the tests that are made at one slot. -/
def HitKind.rank : HitKind → Nat
  | .key => 0
  | .value => 1
  | .type => 2

/-- By positions, a prefix before its extensions; at one place by kind. -/
def Hit.Before (h h' : Hit) : Prop :=
  h.places < h'.places ∨ h.places = h'.places ∧ h.kind.rank < h'.kind.rank

theorem Search.Visit.sorted_hits (g : Graph) (q : Query) (v : Visit) :
    (v.hits g q).Pairwise Hit.Before := by
  have hkinds : [HitKind.key, .value, .type].Pairwise (·.rank < ·.rank) := by decide
  rw [hits_eq]
  refine (hkinds.filter _).map _ ?_
  intro k k' hrank
  exact .inr ⟨rfl, hrank⟩

namespace Graph

open Search

variable {g : Graph} {target : Value} {q : Query} {s : Scope} {log : ReadLog}

theorem sorted_visits (g : Graph) (target : Value) (s : Scope) (log : ReadLog) :
    (g.visits target s log).Pairwise fun u v => u.way.places < v.way.places := by
  cases hentered : entered? g s [] [] target with
  | none => simp [visits, hentered]
  | some opened =>
    simp only [visits, hentered]
    exact Search.sorted_visits (pairwise_pendingOf opened.1 opened.2 [])

theorem sorted_allHits (g : Graph) (target : Value) (q : Query) (log : ReadLog) :
    (g.allHits target q log).Pairwise Hit.Before := by
  refine List.pairwise_append.2 ⟨?_, ?_, ?_⟩
  · unfold targetHits
    split <;> simp
  · refine List.pairwise_flatMap.2 ⟨fun v _ => v.sorted_hits g q, ?_⟩
    refine (sorted_visits g target q.toScope log).imp ?_
    intro u v hlt h hh h' hh'
    rw [Hit.Before, (Visit.mem_hits.1 hh).2.1, (Visit.mem_hits.1 hh').2.1]
    exact .inl hlt
  · intro h hh h' hh'
    obtain ⟨-, rfl⟩ := mem_targetHits.1 hh
    obtain ⟨v, -, hv⟩ := List.mem_flatMap.1 hh'
    have hplaces : h'.places = v.pending.way.places ++ [v.pending.child.position] := by
      rw [(Visit.mem_hits.1 hv).2.1, Visit.way, Pending.reach, Way.places_snoc]
    rw [Hit.Before, hplaces]
    exact .inl (lt_of_prefix_of_length_lt List.nil_prefix (by simp))

/-- The hits of a search are in strict document order, their positions being
those of a walk that the search has read: a parent before its descendants, slots
of one container as they are declared, and never two of one kind at one place. -/
theorem search_hits_sorted (g : Graph) (target : Value) (q : Query) (log : ReadLog) :
    (∀ h ∈ (g.search target q log).hits, ∃ way,
      g.Walk (q.toScope.CrossesBetween log (g.search target q log).log) target way h.value ∧
        h.path = way.path ∧ h.places = way.places) ∧
    (g.search target q log).hits.Pairwise Hit.Before := by
  constructor
  · intro h hh
    rcases exists_visit_of_mem_search hh with htarget | ⟨v, hreached, hcross, hv⟩
    · obtain ⟨-, rfl⟩ := mem_targetHits.1 htarget
      exact ⟨[], .here _, rfl, rfl⟩
    · obtain ⟨hpath, hplaces, hvalue, -⟩ := Visit.mem_hits.1 hv
      exact ⟨v.way, hvalue ▸ hreached.walk.snoc hreached.has hcross, hpath, hplaces⟩
  · cases htarget : target.isNullish with
    | true => simp [search_hits_of_isNullish htarget]
    | false =>
      rw [search_hits htarget]
      exact (sorted_allHits g target q log).sublist (List.take_sublist _ _)

end Graph

end ObjectGraph
