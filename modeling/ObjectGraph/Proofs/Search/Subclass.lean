-- SUMMARY: A criterion that asks for less finds at least as much; so a class finds what its subclasses find.
import ObjectGraph.Proofs.Graph.Ancestry
import ObjectGraph.Proofs.Search.Selection
import Mathlib

/-! # Weaker criteria

One criterion is weaker than another if it passes every test that the other one
passes (`Criterion.Entails`). What a search visits does not depend on its criterion, so the weaker one
finds the same hits in the same order, and maybe others between them
(`Graph.search_sublist_of_entails`). An instance of a class is an instance of every
class that the first one inherits from, hence a search for a class finds the
instances of its subclasses (`Graph.search_subclass_sublist`).
-/

namespace ObjectGraph

/-! ## Inherited classes -/

/-- What a class inherits from, its subclasses inherit from as well. -/
theorem Registry.isSubclass_trans {r : Registry} {a b c : String} (hab : r.isSubclass a b = true)
    (hbc : r.isSubclass b c = true) : r.isSubclass a c = true :=
  isSubclass_iff_inherits.2 ((isSubclass_iff_inherits.1 hab).trans (isSubclass_iff_inherits.1 hbc))

theorem Graph.isInstance_of_isSubclass {g : Graph} {sub super : String}
    (hsub : g.classes.isSubclass sub super = true) {v : Value}
    (hv : g.isInstance v (.ofClass sub) = true) : g.isInstance v (.ofClass super) = true := by
  cases v with
  | node id =>
    simp only [isInstance] at hv ⊢
    cases hclass : (g.record? id).bind (·.className) with
    | some className =>
      rw [hclass] at hv
      exact Registry.isSubclass_trans hv hsub
    | none =>
      rw [hclass] at hv
      cases hv
  | _ => cases hv

/-! ## Weaker criteria -/

/-- The query for something else in the same scope. -/
def Query.seeking (q : Query) (criterion : Criterion) : Query := { q with criterion }

/-- Every test that the first criterion passes, the second one passes too. -/
structure Criterion.Entails (c c' : Criterion) (g : Graph) : Prop where
  value : ∀ v, c.matchesValue v = true → c'.matchesValue v = true
  key : ∀ key, c.matchesSlotKey key = true → c'.matchesSlotKey key = true
  type : ∀ v, c.matchesType g v = true → c'.matchesType g v = true

/-- A tag is compared with types only. -/
theorem Criterion.matchesSlotKey_type (tag : TypeTag) (key : SlotKey) :
    (Criterion.type tag).matchesSlotKey key = false := by
  cases key with
  | field key => cases key <;> rfl
  | index => rfl
  | entry key => cases key <;> rfl

theorem Criterion.entails_of_isSubclass {g : Graph} {sub super : String}
    (hsub : g.classes.isSubclass sub super = true) :
    (Criterion.type (.ofClass sub)).Entails (.type (.ofClass super)) g where
  value v hv := by cases hv
  key key hkey := by simp [matchesSlotKey_type] at hkey
  type v hv := Graph.isInstance_of_isSubclass hsub hv

namespace Search

variable {g : Graph} {q : Query} {c c' : Criterion}

theorem finds_of_entails (h : c.Entails c' g) {key : SlotKey} {path : Path} {v : Value} {kind : HitKind}
    (hfinds : finds g (q.seeking c) key path v kind = true) :
    finds g (q.seeking c') key path v kind = true := by
  cases kind with
  | key =>
    obtain ⟨hchecks, hmatches⟩ := Bool.and_eq_true_iff.1 hfinds
    exact Bool.and_eq_true_iff.2 ⟨hchecks, h.key _ hmatches⟩
  | value =>
    obtain ⟨hchecks, hmatches⟩ := Bool.and_eq_true_iff.1 hfinds
    exact Bool.and_eq_true_iff.2 ⟨hchecks, h.value _ hmatches⟩
  | type =>
    obtain ⟨htests, hmatches⟩ := Bool.and_eq_true_iff.1 hfinds
    exact Bool.and_eq_true_iff.2 ⟨htests, h.type _ hmatches⟩

/-- A slot gives the hits of a criterion among those of a weaker one. -/
theorem Visit.hits_sublist (h : c.Entails c' g) (v : Visit) :
    (v.hits g (q.seeking c)).Sublist (v.hits g (q.seeking c')) := by
  rw [Visit.hits_eq, Visit.hits_eq]
  exact (List.monotone_filter_right _ fun _ => finds_of_entails h).map _

end Search

namespace Graph

open Search

variable {g : Graph} {target : Value} {q : Query} {c c' : Criterion} {log : ReadLog}

theorem targetHits_sublist (h : c.Entails c' g) :
    (g.targetHits target (q.seeking c)).Sublist (g.targetHits target (q.seeking c')) := by
  by_cases htests : (q.mode.checks .type && c.matchesType g target) = true
  · obtain ⟨hchecks, hmatches⟩ := Bool.and_eq_true_iff.1 htests
    have htests' : (q.mode.checks .type && c'.matchesType g target) = true :=
      Bool.and_eq_true_iff.2 ⟨hchecks, h.type _ hmatches⟩
    simp [targetHits, Query.seeking, htests, htests']
  · simp [targetHits, Query.seeking, htests]

theorem allHits_sublist (h : c.Entails c' g) :
    (g.allHits target (q.seeking c) log).Sublist (g.allHits target (q.seeking c') log) :=
  (targetHits_sublist h).append (.flatMap_right _ fun v _ => v.hits_sublist h)

/-- With room enough for the weaker criterion, its hits are those of the other one, in
the same order, and maybe more. -/
theorem search_sublist_of_entails (h : c.Entails c' g) (hlimit : g.LimitSuffices target (q.seeking c') log) :
    (g.search target (q.seeking c) log).hits.Sublist (g.search target (q.seeking c') log).hits := by
  cases htarget : target.isNullish with
  | true => simp [search_hits_of_isNullish htarget]
  | false =>
    rw [search_hits htarget, search_hits_of_limitSuffices htarget hlimit]
    exact (List.take_sublist ..).trans (allHits_sublist h)

/-- A search for a class finds what a search for one of its subclasses finds, at the
same paths and in the same order: after the same reads, and in a steady graph after
any reads. The limit has to be great enough for the class. -/
theorem search_subclass_sublist {sub super : String} (hsub : g.classes.isSubclass sub super = true)
    (hlimit : g.LimitSuffices target (q.seeking (.type (.ofClass super))) log) :
    let hits (name : String) (log : ReadLog) :=
      (g.search target (q.seeking (.type (.ofClass name))) log).hits
    (hits sub log).Sublist (hits super log) ∧
    (g.Steady → ∀ log', (hits sub log').Sublist (hits super log)) := by
  intro hits
  have hsublist : (hits sub log).Sublist (hits super log) :=
    search_sublist_of_entails (Criterion.entails_of_isSubclass hsub) hlimit
  refine ⟨hsublist, fun hg log' => ?_⟩
  have hsame : hits sub log' = hits sub log := hg.search_hits_eq target _ log' log
  rwa [hsame]

/-- Instances of two classes that inherit from each other, and of one that has nothing to do with them. -/
def kennel : Graph :=
  { empty with
    nodes := #[
      .record ⟨some "Dog", [
        (.name "puppy", ⟨.stored (.node ⟨1⟩), true⟩),
        (.name "owner", ⟨.stored (.node ⟨2⟩), true⟩)], by decide⟩,
      .record ⟨some "Puppy", [(.name "parent", ⟨.computed ⟨0, fun _ => .ok (.node ⟨0⟩)⟩, true⟩)], by decide⟩,
      .record ⟨some "Animal", [(.name "pet", ⟨.stored (.node ⟨1⟩), true⟩)], by decide⟩]
    classes :=
      let registered := (Registry.initial.register "Animal").register "Dog"
      (registered.setParent "Puppy" "Dog").setParent "Dog" "Puppy" }

/-- What is found as a dog is found as a puppy, since each inherits from the other. -/
theorem search_subclass_sublist_kennel :
    let q := Query.plain .type (.type (.ofClass "Puppy"))
    (kennel.classes.isSubclass "Dog" "Puppy" = true ∧ kennel.LimitSuffices (.node ⟨2⟩) q []) ∧
    [⟨[.field "pet"], [0], .node ⟨1⟩, .type⟩,
      ⟨[.field "pet", .field "parent"], [0, 0], .node ⟨0⟩, .type⟩,
      ⟨[.field "pet", .field "parent", .field "puppy"], [0, 0, 0], .node ⟨1⟩, .type⟩].Sublist
      (kennel.search (.node ⟨2⟩) q []).hits := by
  intro q
  have hsub : kennel.classes.isSubclass "Dog" "Puppy" = true := by decide
  have hlimit : kennel.LimitSuffices (.node ⟨2⟩) q [] := limitSuffices_of_length_le (by cbv)
  have hdogs : (kennel.search (.node ⟨2⟩) (q.seeking (.type (.ofClass "Dog"))) []).hits =
      [⟨[.field "pet"], [0], .node ⟨1⟩, .type⟩,
        ⟨[.field "pet", .field "parent"], [0, 0], .node ⟨0⟩, .type⟩,
        ⟨[.field "pet", .field "parent", .field "puppy"], [0, 0, 0], .node ⟨1⟩, .type⟩] := by cbv
  exact ⟨⟨hsub, hlimit⟩, hdogs ▸ (search_subclass_sublist (q := q) hsub hlimit).1⟩

end Graph

end ObjectGraph
