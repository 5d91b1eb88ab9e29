-- SUMMARY: What loading makes has an identity of its own: symbols by description, callables and containers one by one.
import ObjectGraph.Proofs.Document.Loading

/-! # Identity of loaded values

The symbols of the table carry different numbers (`Draft.Numbered`), and the
numbers of callables and the places of containers only go up while a document is
loaded (`Draft.Precedes`). So the value of a part is told apart from those of the
parts before it (`Yaml.beq_of_makes`): only the symbols of one description and
numbers of one magnitude are equal where the parts are not the same.
-/

namespace ObjectGraph

namespace Draft

/-! ## Numbers of symbols -/

/-- The symbols of the table carry different numbers, all of them below the next. -/
structure Numbered (d : Draft) : Prop where
  once : (d.graph.shared.map (·.2.id)).Nodup
  below : ∀ entry ∈ d.graph.shared, entry.2.id < d.supply.symbols

theorem numbered_empty (s : Supply) : Numbered ⟨.empty, s⟩ := by
  constructor <;> simp [Graph.empty]

theorem sharedSymbol_of_lookup {d : Draft} {description : String} {s : Symbol}
    (h : d.graph.shared.lookup description = some s) : d.sharedSymbol description = (s, d) := by
  simp [sharedSymbol, Graph.sharedSymbol, h]

/-- A description that is not in the table gets a symbol with the next number. -/
theorem sharedSymbol_of_new {d : Draft} {description : String}
    (h : d.graph.shared.lookup description = none) :
    d.sharedSymbol description =
      (⟨d.supply.symbols, some description⟩,
        ⟨{ d.graph with shared := d.graph.shared ++ [(description, ⟨d.supply.symbols, some description⟩)] },
          { d.supply with symbols := d.supply.symbols + 1 }⟩) := by
  simp [sharedSymbol, Graph.sharedSymbol, Supply.newSymbol, h]

theorem sharedSymbol_entry_mem (d : Draft) (description : String) :
    (description, (d.sharedSymbol description).1) ∈ (d.sharedSymbol description).2.graph.shared := by
  cases hlookup : d.graph.shared.lookup description with
  | some s =>
    obtain ⟨before, after, heq, -⟩ := List.lookup_eq_some_iff.1 hlookup
    simp [sharedSymbol_of_lookup hlookup, heq]
  | none => simp [sharedSymbol_of_new hlookup]

theorem Numbered.step {d d' : Draft} (h : d.Numbered) (hstep : Step d d') : d'.Numbered := by
  cases hstep with
  | symbol description =>
    cases hlookup : d.graph.shared.lookup description with
    | some s => rwa [sharedSymbol_of_lookup hlookup]
    | none =>
      rw [sharedSymbol_of_new hlookup]
      refine ⟨?_, ?_⟩
      · rw [List.map_append, List.map_singleton]
        refine List.nodup_append.2 ⟨h.once, List.nodup_singleton _, ?_⟩
        intro a ha b hb heq
        obtain ⟨entry, hentry, rfl⟩ := List.mem_map.1 ha
        exact Nat.ne_of_lt (h.below entry hentry) (heq.trans (List.mem_singleton.1 hb))
      · intro entry hentry
        rcases List.mem_append.1 hentry with hentry | hentry
        · exact Nat.lt_succ_of_lt (h.below entry hentry)
        · rw [List.mem_singleton.1 hentry]
          exact Nat.lt_succ_self _
  | callable => exact ⟨h.once, h.below⟩
  | register => exact ⟨h.once, h.below⟩
  | add => exact ⟨h.once, h.below⟩

theorem Numbered.steps {d d' : Draft} (h : d.Numbered) (hsteps : Steps d d') : d'.Numbered := by
  induction hsteps with
  | refl => exact h
  | tail _ hstep ih => exact ih.step hstep

/-- Two symbols of the table are equal exactly if they stand under one description. -/
theorem Numbered.beq_iff {d : Draft} (h : d.Numbered) (hsound : d.Sound) {a b : String} {s t : Symbol}
    (hs : (a, s) ∈ d.graph.shared) (ht : (b, t) ∈ d.graph.shared) : (s == t) = true ↔ a = b := by
  rw [Symbol.beq_iff]
  constructor
  · intro hid
    exact congrArg Prod.fst (List.inj_on_of_nodup_map h.once hs ht hid)
  · rintro rfl
    exact congrArg (·.2.id) (List.inj_on_of_nodup_map hsound.once hs ht rfl)

/-! ## What only goes up -/

/-- The second draft has at least the containers and the callables of the first. -/
structure Precedes (d d' : Draft) : Prop where
  size : d.graph.size ≤ d'.graph.size
  callables : d.supply.callables ≤ d'.supply.callables

theorem Precedes.refl (d : Draft) : d.Precedes d := ⟨Nat.le_refl _, Nat.le_refl _⟩

theorem Precedes.trans {d d' d'' : Draft} (h : d.Precedes d') (h' : d'.Precedes d'') :
    d.Precedes d'' :=
  ⟨Nat.le_trans h.size h'.size, Nat.le_trans h.callables h'.callables⟩

theorem size_add (d : Draft) (c : Container) : (d.add c).2.graph.size = d.graph.size + 1 :=
  Array.size_push ..

theorem Step.precedes {d d' : Draft} (h : Step d d') : d.Precedes d' := by
  cases h with
  | symbol description =>
    refine ⟨Nat.le_of_eq (congrArg Array.size (d.nodes_sharedSymbol description).symm), ?_⟩
    cases hlookup : d.graph.shared.lookup description with
    | some s => exact Nat.le_of_eq (by rw [sharedSymbol_of_lookup hlookup])
    | none => exact Nat.le_of_eq (by rw [sharedSymbol_of_new hlookup])
  | callable name => exact ⟨Nat.le_refl _, Nat.le_succ _⟩
  | register className => exact ⟨Nat.le_refl _, Nat.le_refl _⟩
  | @add c hc => exact ⟨d.size_add c ▸ Nat.le_succ _, Nat.le_refl _⟩

theorem Steps.precedes {d d' : Draft} (h : Steps d d') : d.Precedes d' := by
  induction h with
  | refl => exact .refl d
  | tail _ hstep ih => exact ih.trans hstep.precedes

end Draft

/-! ## What a part is loaded as -/

/-- A callable or a container that was made between two drafts. -/
inductive Value.MadeBetween (d d' : Draft) : Value → Prop
  | callable {c : Callable} : d.supply.callables ≤ c.id → c.id < d'.supply.callables →
    MadeBetween d d' (.callable c)
  | node {id : NodeId} : d.graph.size ≤ id.index → id.index < d'.graph.size →
    MadeBetween d d' (.node id)

/-- What is made later is something else. -/
theorem Value.MadeBetween.beq_eq_false {d₁ d₁' d₂ d₂' : Draft} {x y : Value}
    (hx : x.MadeBetween d₁ d₁') (hy : y.MadeBetween d₂ d₂') (hbetween : d₁'.Precedes d₂) :
    (x == y) = false := by
  have hcallables := hbetween.callables
  have hsize := hbetween.size
  cases hx with
  | @callable c _ hlt =>
    cases hy with
    | @callable c' hle =>
      have hne : c.id ≠ c'.id := by omega
      have hbeq : (c == c') = false := Bool.eq_false_iff.2 fun h => hne (Callable.beq_iff.1 h)
      exact hbeq
    | node => rfl
  | @node id _ hlt =>
    cases hy with
    | callable => rfl
    | @node id' hle =>
      have hne : id ≠ id' := fun h => by
        subst h
        omega
      have hbeq : (id == id') = false := beq_false_of_ne hne
      exact hbeq

namespace Yaml

/-- A scalar without a tag, and what it is loaded as. -/
def scalar? : Yaml → Option Value
  | .null => some .null
  | .boolean b => some (.boolean b)
  | .integer n => some (.number (numberOf n))
  | .float x => some (.number (.float x))
  | .string s => some (.string s)
  | _ => none

/-- Loading the part in the first draft gives this value, and the second draft. -/
inductive Makes (d d' : Draft) : Yaml → Value → Prop
  | scalar {v : Yaml} {x : Value} : v.scalar? = some x → Makes d d' v x
  | symbol {inner : Yaml} {s : Symbol} : (labelText inner, s) ∈ d'.graph.shared →
    Makes d d' (.tagged symbolTag inner) (.symbol s)
  | other {v : Yaml} {x : Value} : v.scalar? = none → (∀ inner, v ≠ .tagged symbolTag inner) →
    x.MadeBetween d d' → Makes d d' v x

theorem madeBetween_add {d d' : Draft} (h : d.Steps d') (c : Container) :
    (d'.add c).1.MadeBetween d (d'.add c).2 :=
  .node h.precedes.size (d'.size_add c ▸ Nat.lt_succ_self _)

theorem madeBetween_hold {d d' : Draft} (h : d.Steps d') (name : String) (x : Value) :
    (hold (some name) x d').1.MadeBetween d (hold (some name) x d').2 :=
  madeBetween_add h _

theorem madeBetween_sequence (className : Option String) (items : List Yaml) (d : Draft) :
    (loadAs className (.sequence items) d).1.MadeBetween d (loadAs className (.sequence items) d).2 := by
  rw [loadAs]
  exact madeBetween_add (steps_loadItems items d) _

theorem madeBetween_mapping (className : Option String) (entries : List (Yaml × Yaml)) (d : Draft) :
    (loadAs className (.mapping entries) d).1.MadeBetween d
      (loadAs className (.mapping entries) d).2 := by
  have hkeys := (steps_registerClass className d).trans (steps_recordKeys entries _)
  rw [loadAs]
  cases heq : recordKeys entries (registerClass className d) with
  | mk keys d' =>
    rw [heq] at hkeys
    cases keys with
    | some keys => exact madeBetween_add (hkeys.trans (steps_loadValues entries d')) _
    | none => exact madeBetween_add (hkeys.trans (steps_loadEntries entries d')) _

/-- Under a class, every value becomes a container. -/
theorem madeBetween_loadAs_some (name : String) (v : Yaml) (d : Draft) :
    (loadAs (some name) v d).1.MadeBetween d (loadAs (some name) v d).2 := by
  have hregister := steps_registerClass (some name) d
  cases v with
  | sequence items => exact madeBetween_sequence (some name) items d
  | mapping entries => exact madeBetween_mapping (some name) entries d
  | tagged inner w =>
    by_cases hsymbol : inner = symbolTag
    · rw [loadAs, if_pos hsymbol]
      exact madeBetween_hold (hregister.tail (.symbol _ (labelText w))) name _
    · rw [loadAs, if_neg hsymbol]
      by_cases hcallable : inner = callableTag
      · rw [if_pos hcallable]
        exact madeBetween_hold (hregister.tail (.callable _ (labelText w))) name _
      · rw [if_neg hcallable]
        exact madeBetween_hold (hregister.trans (steps_loadAs (some inner) w _)) name _
  | null => exact madeBetween_hold hregister name _
  | boolean b => exact madeBetween_hold hregister name _
  | integer n => exact madeBetween_hold hregister name _
  | float x => exact madeBetween_hold hregister name _
  | string s => exact madeBetween_hold hregister name _

theorem makes_loadAs_none (v : Yaml) (d : Draft) :
    Makes d (loadAs none v d).2 v (loadAs none v d).1 := by
  cases v with
  | sequence items => exact .other rfl (fun inner h => by cases h) (madeBetween_sequence none items d)
  | mapping entries => exact .other rfl (fun inner h => by cases h) (madeBetween_mapping none entries d)
  | tagged name inner =>
    by_cases hsymbol : name = symbolTag
    · subst hsymbol
      rw [loadAs, if_pos rfl]
      exact .symbol (d.sharedSymbol_entry_mem _)
    · refine .other rfl (fun _ h => hsymbol (by injection h)) ?_
      rw [loadAs, if_neg hsymbol]
      by_cases hcallable : name = callableTag
      · rw [if_pos hcallable]
        exact .callable (Nat.le_refl _) (Nat.lt_succ_self _)
      · rw [if_neg hcallable]
        exact madeBetween_loadAs_some name inner d
  | null => exact .scalar rfl
  | boolean b => exact .scalar rfl
  | integer n => exact .scalar rfl
  | float x => exact .scalar rfl
  | string s => exact .scalar rfl

/-! ## Equal values of parts that are not the same -/

/-- The number that a part is loaded as, if it is one. -/
def number? : Yaml → Option Number
  | .integer n => some (numberOf n)
  | .float x => some (.float x)
  | _ => none

/-- Both parts are numbers, and equal once they are loaded. -/
def SameNumber (v w : Yaml) : Prop :=
  ∃ m n, v.number? = some m ∧ w.number? = some n ∧ (m == n) = true

/-- Both parts are symbols, of one description. -/
def SameDescription (v w : Yaml) : Prop :=
  ∃ a b, v = .tagged symbolTag a ∧ w = .tagged symbolTag b ∧ labelText a = labelText b

theorem not_sameNumber {v w : Yaml} (h : v.scalar? = none ∨ w.scalar? = none) : ¬ SameNumber v w := by
  rintro ⟨m, n, hm, hn, -⟩
  rcases h with h | h
  · cases v <;> simp [number?, scalar?] at hm h
  · cases w <;> simp [number?, scalar?] at hn h

theorem not_sameDescription {v w : Yaml}
    (h : (∀ a, v ≠ .tagged symbolTag a) ∨ ∀ a, w ≠ .tagged symbolTag a) : ¬ SameDescription v w := by
  rintro ⟨a, b, rfl, rfl, -⟩
  rcases h with h | h
  · exact h a rfl
  · exact h b rfl

theorem ne_tagged_of_scalar {v : Yaml} {x : Value} (h : v.scalar? = some x) (inner : Yaml) :
    v ≠ .tagged symbolTag inner := by
  rintro rfl
  cases h

/-- A scalar without a tag is loaded neither as a symbol nor as anything that is made. -/
theorem beq_eq_false_of_scalar {v : Yaml} {x y : Value} (hx : v.scalar? = some x)
    (hy : (∃ s, y = .symbol s) ∨ ∃ d d', y.MadeBetween d d') : (x == y) = false ∧ (y == x) = false := by
  have hkind : (∃ s, y = .symbol s) ∨ (∃ c, y = .callable c) ∨ ∃ id, y = .node id := by
    rcases hy with hy | ⟨d, d', hy | hy⟩
    · exact .inl hy
    · exact .inr (.inl ⟨_, rfl⟩)
    · exact .inr (.inr ⟨_, rfl⟩)
  rcases hkind with ⟨s, rfl⟩ | ⟨c, rfl⟩ | ⟨id, rfl⟩ <;> cases v <;> cases hx <;> exact ⟨rfl, rfl⟩

theorem beq_eq_false_of_made {d d' : Draft} {s : Symbol} {x : Value} (hx : x.MadeBetween d d') :
    (Value.symbol s == x) = false ∧ (x == Value.symbol s) = false := by
  cases hx <;> exact ⟨rfl, rfl⟩

theorem beq_iff_of_scalar {v w : Yaml} {x y : Value} (hv : v.scalar? = some x) (hw : w.scalar? = some y)
    (hdistinct : same v w = false) : (x == y) = true ↔ SameNumber v w := by
  -- two scalars of one kind, other than numbers, differ as the parts do
  cases v <;> cases w <;> cases hv <;> cases hw <;>
    simp_all [SameNumber, number?, same, BEq.beq, Value.equals]

/-- Parts that are not the same are loaded as equal values exactly if they are
numbers that become equal, or symbols of one description. -/
theorem beq_iff_of_makes {d₁ d₁' d₂ d₂' : Draft} {v w : Yaml} {x y : Value} (hx : Makes d₁ d₁' v x)
    (hy : Makes d₂ d₂' w y) (hbetween : d₁'.Steps d₂) (hsteps : d₂.Steps d₂') (hnumbered : d₂'.Numbered)
    (hsound : d₂'.Sound) (hdistinct : same v w = false) :
    (x == y) = true ↔ SameNumber v w ∨ SameDescription v w := by
  have hneither (hbeq : (x == y) = false) (hnumber : ¬ SameNumber v w)
      (hdescription : ¬ SameDescription v w) :
      (x == y) = true ↔ SameNumber v w ∨ SameDescription v w := by
    simp [hbeq, hnumber, hdescription]
  cases hx with
  | scalar hv =>
    have hdescription : ¬ SameDescription v w := not_sameDescription (.inl (ne_tagged_of_scalar hv))
    cases hy with
    | scalar hw => rw [beq_iff_of_scalar hv hw hdistinct, or_iff_left hdescription]
    | symbol =>
      exact hneither (beq_eq_false_of_scalar hv (.inl ⟨_, rfl⟩)).1 (not_sameNumber (.inr rfl)) hdescription
    | other hw _ hmade =>
      exact hneither (beq_eq_false_of_scalar hv (.inr ⟨_, _, hmade⟩)).1 (not_sameNumber (.inr hw))
        hdescription
  | @symbol a s hs =>
    have hnumber : ¬ SameNumber (.tagged symbolTag a) w := not_sameNumber (.inl rfl)
    cases hy with
    | scalar hw =>
      exact hneither (beq_eq_false_of_scalar hw (.inl ⟨_, rfl⟩)).2 hnumber
        (not_sameDescription (.inr (ne_tagged_of_scalar hw)))
    | @symbol b t ht =>
      have hbeq : (s == t) = true ↔ labelText a = labelText b :=
        hnumbered.beq_iff hsound (Draft.Steps.shared_subset (hbetween.trans hsteps) hs) ht
      rw [or_iff_right hnumber]
      constructor
      · exact fun h => ⟨a, b, rfl, rfl, hbeq.1 h⟩
      · rintro ⟨a', b', ha, hb, hlabel⟩
        cases ha
        cases hb
        exact hbeq.2 hlabel
    | other _ hw hmade =>
      exact hneither (beq_eq_false_of_made hmade).1 hnumber (not_sameDescription (.inr hw))
  | other hv hne hmade =>
    have hnumber : ¬ SameNumber v w := not_sameNumber (.inl hv)
    have hdescription : ¬ SameDescription v w := not_sameDescription (.inl hne)
    cases hy with
    | scalar hw => exact hneither (beq_eq_false_of_scalar hw (.inr ⟨_, _, hmade⟩)).2 hnumber hdescription
    | symbol => exact hneither (beq_eq_false_of_made hmade).2 hnumber hdescription
    | other _ _ hmade' =>
      exact hneither (hmade.beq_eq_false hmade' hbetween.precedes) hnumber hdescription

end Yaml

end ObjectGraph
