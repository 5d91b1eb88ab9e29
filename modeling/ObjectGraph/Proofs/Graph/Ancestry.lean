-- SUMMARY: Class hierarchies: the bounded walk along parent links meets exactly the ancestors of a class.
import ObjectGraph.Proofs.Graph.Operation
import Mathlib.Data.List.Nodup
import Mathlib.Data.Nat.Find

/-! # Ancestry

A class inherits from whatever its parent links lead to, in any number of steps
(`Registry.Inherits`). The walk that decides this takes at most one step more than
there are classes. That suffices in every registry, with cycles or without: on a
shortest way up no name comes twice, and all names but the last are registered
(`Registry.exists_le_size_of_above?`). Parents are registered themselves in every
registry that registrations lead to (`Registry.Closed`).
-/

namespace ObjectGraph

namespace Registry

variable {r : Registry} {name parent ancestor : String} {n : Nat}

/-! ## Registered names and their parents -/

theorem contains_iff : r.contains name = true ↔ name ∈ r.parents.map Prod.fst := by
  simp [contains]

theorem contains_of_parent? (h : r.parent? name = some parent) : r.contains name = true := by
  simp only [parent?, Option.join_eq_some_iff, Option.map_eq_some_iff] at h
  obtain ⟨entry, hfind, -⟩ := h
  have hname := List.find?_some hfind
  exact List.any_eq_true.2 ⟨entry, List.mem_of_find?_eq_some hfind, hname⟩

theorem contains_register (r : Registry) (name other : String) :
    (r.register name).contains other = (r.contains other || name == other) := by
  unfold register
  split
  · rename_i hknown
    by_cases hname : name = other
    · simp [← hname, hknown]
    · simp [hname]
  · simp [contains]

/-- A class that is registered as a root keeps the parent that it has. -/
theorem parent?_register (r : Registry) (name other : String) :
    (r.register name).parent? other = r.parent? other := by
  unfold register
  split
  · rfl
  · simp only [parent?, List.find?_append]
    cases r.parents.find? (·.1 == other) with
    | some entry => rfl
    | none => by_cases hname : name = other <;> simp [hname]

theorem names_setParent (r : Registry) (name parent : String) :
    (r.setParent name parent).parents.map Prod.fst =
      if r.contains name then r.parents.map Prod.fst else r.parents.map Prod.fst ++ [name] := by
  unfold setParent
  split
  · rw [List.map_map]
    refine List.map_congr_left fun entry _ => ?_
    simp only [Function.comp_apply]
    split <;> rfl
  · simp

theorem contains_setParent (r : Registry) (name parent other : String) :
    (r.setParent name parent).contains other = (r.contains other || name == other) := by
  rw [Bool.eq_iff_iff, Bool.or_eq_true, contains_iff, contains_iff, names_setParent, beq_iff_eq]
  split
  · rename_i hknown
    refine ⟨.inl, fun h => h.elim id fun hname => ?_⟩
    exact hname ▸ contains_iff.1 hknown
  · simp [eq_comm]

theorem find?_eq_none_iff : r.parents.find? (·.1 == name) = none ↔ r.contains name = false := by
  rw [← Option.isNone_iff_eq_none, ← Option.not_isSome, List.isSome_find?, Bool.not_eq_true', contains]

/-- Entries that change only behind their names are found by them as before. -/
theorem find?_map_of_fst {change : String × Option String → String × Option String}
    (hchange : ∀ entry, (change entry).1 = entry.1) (entries : List (String × Option String)) (name : String) :
    (entries.map change).find? (·.1 == name) = (entries.find? (·.1 == name)).map change := by
  have hsame : ((·.1 == name) ∘ change) = (·.1 == name) := by
    funext entry
    rw [Function.comp_apply, hchange]
  rw [List.find?_map, hsame]

theorem parent?_setParent (r : Registry) (name parent other : String) :
    (r.setParent name parent).parent? other = if other = name then some parent else r.parent? other := by
  unfold setParent
  split
  · rename_i hknown
    rw [parent?, parent?, find?_map_of_fst fun entry => by dsimp only; split <;> rfl]
    cases hfind : r.parents.find? (·.1 == other) with
    | some entry =>
      have hname : entry.1 = other := by simpa using List.find?_some hfind
      by_cases hother : other = name <;> simp [hname, hother]
    | none =>
      have hother : other ≠ name := fun h => by
        rw [h, find?_eq_none_iff, hknown] at hfind
        cases hfind
      simp [hother]
  · rename_i hnew
    have hnone : r.parents.find? (·.1 == name) = none := find?_eq_none_iff.2 (Bool.eq_false_iff.2 hnew)
    simp only [parent?, List.find?_append]
    by_cases hother : other = name
    · subst hother
      simp [hnone]
    · have hne : name ≠ other := Ne.symm hother
      cases r.parents.find? (·.1 == other) <;> simp [hother, hne]

/-! ## Registrations -/

/-- Every recorded parent is registered. -/
def Closed (r : Registry) : Prop := ∀ name parent, r.parent? name = some parent → r.contains parent = true

/-- What one registration can do. -/
inductive Step : Registry → Registry → Prop
  | register (r : Registry) (name : String) : Step r (r.register name)
  | setParent {r : Registry} (name : String) {parent : String} : r.contains parent = true →
    Step r (r.setParent name parent)

theorem closed_initial : Closed initial := by
  intro name parent h
  simp only [parent?, Option.join_eq_some_iff, Option.map_eq_some_iff] at h
  obtain ⟨entry, hfind, hparent⟩ := h
  have hroot : ∀ entry ∈ initial.parents, entry.2 = none := by decide
  rw [hroot entry (List.mem_of_find?_eq_some hfind)] at hparent
  cases hparent

theorem Closed.step {r' : Registry} (h : r.Closed) (hstep : Step r r') : r'.Closed := by
  intro child parent hparent
  cases hstep with
  | register name =>
    rw [parent?_register] at hparent
    rw [contains_register, h child parent hparent, Bool.true_or]
  | @setParent name given hgiven =>
    rw [parent?_setParent] at hparent
    rw [contains_setParent]
    split at hparent
    · cases hparent
      rw [hgiven, Bool.true_or]
    · rw [h child parent hparent, Bool.true_or]

/-! ## Inheriting -/

/-- The class itself, or one that its parent links lead to. -/
abbrev Inherits (r : Registry) : String → String → Prop :=
  Relation.ReflTransGen fun name parent => r.parent? name = some parent

/-- The class that is so many links above, if there is one. -/
def above? (r : Registry) : Nat → String → Option String
  | 0, name => some name
  | n + 1, name => (r.parent? name).bind (r.above? n)

theorem above?_add (r : Registry) (m n : Nat) (name : String) :
    r.above? (m + n) name = (r.above? m name).bind (r.above? n) := by
  induction m generalizing name with
  | zero => rw [Nat.zero_add]; rfl
  | succ m ih =>
    rw [Nat.add_right_comm, above?, above?, Option.bind_assoc]
    exact congrArg (Option.bind _) (funext ih)

theorem inherits_iff : r.Inherits name ancestor ↔ ∃ n, r.above? n name = some ancestor := by
  constructor
  · intro h
    induction h with
    | refl => exact ⟨0, rfl⟩
    | tail _ hparent ih =>
      obtain ⟨n, hn⟩ := ih
      refine ⟨n + 1, ?_⟩
      rw [above?_add, hn]
      simp [above?, hparent]
  · rintro ⟨n, hn⟩
    induction n generalizing name with
    | zero =>
      obtain rfl := Option.some.inj hn
      exact .refl
    | succ n ih =>
      obtain ⟨parent, hparent, hrest⟩ := Option.bind_eq_some_iff.1 hn
      exact .head hparent (ih hrest)

theorem meets_iff : r.meets ancestor n (some name) = true ↔ ∃ k < n, r.above? k name = some ancestor := by
  induction n generalizing name with
  | zero => simp [meets]
  | succ n ih =>
    rw [meets, Bool.or_eq_true, beq_iff_eq]
    constructor
    · rintro (rfl | hmeets)
      · exact ⟨0, Nat.succ_pos n, rfl⟩
      · cases hparent : r.parent? name with
        | none =>
          rw [hparent] at hmeets
          cases n <;> cases hmeets
        | some parent =>
          rw [hparent] at hmeets
          obtain ⟨k, hk, habove⟩ := ih.1 hmeets
          exact ⟨k + 1, Nat.succ_lt_succ hk, by rw [above?, hparent]; exact habove⟩
    · rintro ⟨k, hk, habove⟩
      cases k with
      | zero => exact .inl (Option.some.inj habove)
      | succ k =>
        obtain ⟨parent, hparent, hrest⟩ := Option.bind_eq_some_iff.1 habove
        rw [hparent]
        exact .inr (ih.2 ⟨k, Nat.lt_of_succ_lt_succ hk, hrest⟩)

/-- Before the end of a way up all names are registered. -/
theorem exists_contains_of_above? {k : Nat} (hk : k < n) (hn : r.above? n name = some ancestor) :
    ∃ other, r.above? k name = some other ∧ r.contains other = true := by
  obtain ⟨m, rfl⟩ := Nat.exists_eq_add_of_lt hk
  rw [Nat.add_assoc, above?_add] at hn
  obtain ⟨other, hother, hrest⟩ := Option.bind_eq_some_iff.1 hn
  obtain ⟨parent, hparent, -⟩ := Option.bind_eq_some_iff.1 hrest
  exact ⟨other, hother, contains_of_parent? hparent⟩

/-- On a shortest way up no name comes twice. -/
theorem above?_ne_of_lt {i j : Nat} (hij : i < j) (hjn : j ≤ n) (hn : r.above? n name = some ancestor)
    (hshortest : ∀ k < n, r.above? k name ≠ some ancestor) : r.above? i name ≠ r.above? j name := by
  intro heq
  -- what is left of the way from the second place can be gone from the first
  refine hshortest (i + (n - j)) (by omega) ?_
  rw [above?_add, heq, ← above?_add, Nat.add_sub_cancel' hjn, hn]

/-- A way up need not have more links than there are classes. -/
theorem exists_le_size_of_above? (h : ∃ n, r.above? n name = some ancestor) :
    ∃ n ≤ r.size, r.above? n name = some ancestor := by
  classical
  have hn := Nat.find_spec h
  have hshortest : ∀ k < Nat.find h, r.above? k name ≠ some ancestor := fun k hk => Nat.find_min h hk
  refine ⟨Nat.find h, ?_, hn⟩
  let names := (List.range (Nat.find h)).map (r.above? · name)
  have hnodup : names.Nodup := by
    refine List.pairwise_map.2 (List.pairwise_lt_range.imp_of_mem fun {i j} _ hj hij => ?_)
    exact above?_ne_of_lt hij (Nat.le_of_lt (List.mem_range.1 hj)) hn hshortest
  have hsub : names ⊆ r.parents.map fun entry => some entry.1 := by
    intro above habove
    obtain ⟨k, hk, rfl⟩ := List.mem_map.1 habove
    obtain ⟨other, hother, hcontains⟩ := exists_contains_of_above? (List.mem_range.1 hk) hn
    obtain ⟨entry, hentry, rfl⟩ := List.mem_map.1 (contains_iff.1 hcontains)
    exact List.mem_map.2 ⟨entry, hentry, hother.symm⟩
  simpa [names, size] using List.Nodup.length_le_of_subset hnodup hsub

theorem isSubclass_iff_inherits : r.isSubclass name ancestor = true ↔ r.Inherits name ancestor := by
  rw [isSubclass, meets_iff, inherits_iff]
  constructor
  · rintro ⟨n, -, hn⟩
    exact ⟨n, hn⟩
  · intro h
    obtain ⟨n, hle, hn⟩ := exists_le_size_of_above? h
    exact ⟨n, Nat.lt_succ_of_le hle, hn⟩

end Registry

/-! ## Registries of graphs -/

theorem Draft.classes_sharedSymbol (d : Draft) (description : String) :
    (d.sharedSymbol description).2.graph.classes = d.graph.classes := by
  rcases d.sharedSymbol_cases description with ⟨s, -, heq⟩ | ⟨-, s, supply, -, heq⟩ <;> rw [heq]

namespace Operation

variable {o : Operation} {d d' : Draft} {reply : Reply}

/-- An operation leaves the registry as it is, or makes one registration. -/
theorem classes_of_apply (h : o.apply d = .ok (reply, d')) :
    d'.graph.classes = d.graph.classes ∨ Registry.Step d.graph.classes d'.graph.classes := by
  cases hedit : o.edit? with
  | some edit =>
    rw [apply_of_edit? hedit, Graph.edit] at h
    split at h
    · split at h <;> cases h
      exact .inl rfl
    · cases h
  | none =>
    cases o <;> cases hedit
    · cases h
      exact .inl rfl
    · rw [apply, Graph.addInstance] at h
      split at h <;> cases h
      exact .inl rfl
    · cases h
      exact .inl rfl
    · cases h
      exact .inl rfl
    · cases h
      exact .inr (.register ..)
    · rw [apply, Graph.registerSubclass] at h
      split at h <;> cases h
      rename_i hparent
      exact .inr (.setParent _ hparent)
    · rename_i description
      cases h
      exact .inl (d.classes_sharedSymbol description)

theorem closed_after (o : Operation) (h : d.graph.classes.Closed) : (o.after d).graph.classes.Closed := by
  unfold after
  split
  · rename_i reply d' hperform
    rcases classes_of_apply (perform_eq_ok_iff.1 hperform) with hsame | hstep
    · exact hsame ▸ h
    · exact h.step hstep
  · rename_i e d' hperform
    rwa [(perform_eq_error_iff.1 hperform).2]

theorem closed_run (ops : List Operation) (h : d.graph.classes.Closed) :
    (run ops d).graph.classes.Closed := by
  induction ops generalizing d with
  | nil => exact h
  | cons o rest ih => exact ih (closed_after o h)

/-- After any operations, those that fail among them, every recorded parent is
registered, and the classes that a class is a subclass of are exactly those that
its parent links lead to. -/
theorem run_isSubclass_iff_inherits (ops : List Operation) (s : Supply) :
    let r := (run ops ⟨.empty, s⟩).graph.classes
    (∀ name parent, r.parent? name = some parent → r.contains parent = true) ∧
    ∀ name ancestor, r.isSubclass name ancestor = true ↔ r.Inherits name ancestor :=
  ⟨closed_run ops Registry.closed_initial, fun _ _ => Registry.isSubclass_iff_inherits⟩

end Operation

end ObjectGraph
