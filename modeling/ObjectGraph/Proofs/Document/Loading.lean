-- SUMMARY: Loading a document is a run of four kinds of steps; what each step keeps, every document has.
import ObjectGraph.Document
import ObjectGraph.Proofs.Graph.Walk
import Mathlib.Data.List.Nodup
import Mathlib.Logic.Relation

/-! # Loading

Whatever the value, loading it does nothing but intern symbols, make callables,
register classes and add containers (`Yaml.steps_load`). So a property of drafts
that each of these steps keeps holds of every document. Here it is what the
steps keep of containers and of the table of symbols (`Draft.Sound`).
-/

namespace ObjectGraph

/-- A symbol used as a key is in the table of the graph. -/
def Key.InternedIn (key : Key) (g : Graph) : Prop := ∀ s, key = .symbol s → s ∈ g.shared.map (·.2)

def Content.IsStored (c : Content) : Prop := ∃ v, c = .stored v

/-- Every slot holds a stored value, and the field keys are interned. -/
structure Container.Loadable (c : Container) (g : Graph) : Prop where
  stored : ∀ slot ∈ c.slots, slot.content.IsStored
  interned : ∀ slot ∈ c.slots, ∀ key, slot.key = .field key → key.InternedIn g

theorem Key.InternedIn.mono {key : Key} {g g' : Graph} (h : key.InternedIn g)
    (hsub : g.shared ⊆ g'.shared) : key.InternedIn g' :=
  fun s hs => List.map_subset _ hsub (h s hs)

namespace Container

theorem Loadable.mono {c : Container} {g g' : Graph} (h : c.Loadable g) (hsub : g.shared ⊆ g'.shared) :
    c.Loadable g' :=
  ⟨h.stored, fun slot hslot key hkey => (h.interned slot hslot key hkey).mono hsub⟩

theorem loadable_sequence (items : List Value) (g : Graph) : (Container.sequence items).Loadable g := by
  constructor
  · intro slot hslot
    obtain ⟨i, hi, rfl⟩ := List.mem_mapIdx.1 hslot
    exact ⟨_, rfl⟩
  · intro slot hslot key hkey
    obtain ⟨i, hi, rfl⟩ := List.mem_mapIdx.1 hslot
    cases hkey

theorem loadable_map (entries : List (Value × Value)) (g : Graph) : (Container.map entries).Loadable g := by
  constructor
  · intro slot hslot
    obtain ⟨entry, hentry, rfl⟩ := List.mem_map.1 hslot
    exact ⟨_, rfl⟩
  · intro slot hslot key hkey
    obtain ⟨entry, hentry, rfl⟩ := List.mem_map.1 hslot
    cases hkey

theorem loadable_record {r : Record} {g : Graph}
    (h : ∀ field ∈ r.fields, field.1.InternedIn g ∧ field.2.content.IsStored) :
    (Container.record r).Loadable g := by
  constructor
  · intro slot hslot
    obtain ⟨field, hfield, rfl⟩ := List.mem_map.1 hslot
    exact (h field hfield).2
  · intro slot hslot key hkey
    obtain ⟨field, hfield, rfl⟩ := List.mem_map.1 hslot
    exact SlotKey.field.inj hkey ▸ (h field hfield).1

end Container

/-! ## Steps -/

namespace Draft

inductive Step : Draft → Draft → Prop
  | symbol (d : Draft) (description : String) : Step d (d.sharedSymbol description).2
  | callable (d : Draft) (name : String) : Step d (d.newCallable name).2
  | register (d : Draft) (className : String) : Step d (d.register className)
  | add {d : Draft} {c : Container} : c.Loadable d.graph → Step d (d.add c).2

abbrev Steps : Draft → Draft → Prop := Relation.ReflTransGen Step

/-- The symbol of a description is looked up, or made and put last in the table. -/
theorem sharedSymbol_cases (d : Draft) (description : String) :
    (∃ s, (description, s) ∈ d.graph.shared ∧ d.sharedSymbol description = (s, d)) ∨
    (description ∉ d.graph.shared.map (·.1) ∧ ∃ s supply, s.description = some description ∧
      d.sharedSymbol description =
        (s, ⟨{ d.graph with shared := d.graph.shared ++ [(description, s)] }, supply⟩)) := by
  cases hlookup : d.graph.shared.lookup description with
  | some s =>
    obtain ⟨before, after, heq, -⟩ := List.lookup_eq_some_iff.1 hlookup
    exact .inl ⟨s, by simp [heq], by simp [sharedSymbol, Graph.sharedSymbol, hlookup]⟩
  | none =>
    refine .inr ⟨?_, (d.supply.newSymbol (some description)).1, (d.supply.newSymbol (some description)).2,
      rfl, ?_⟩
    · intro hmem
      obtain ⟨⟨_, s⟩, hs, rfl⟩ := List.mem_map.1 hmem
      simpa using List.lookup_eq_none_iff.1 hlookup _ hs
    · simp [sharedSymbol, Graph.sharedSymbol, hlookup]

theorem sharedSymbol_mem (d : Draft) (description : String) :
    (d.sharedSymbol description).1 ∈ (d.sharedSymbol description).2.graph.shared.map (·.2) := by
  rcases d.sharedSymbol_cases description with ⟨s, hs, heq⟩ | ⟨_, s, supply, _, heq⟩
  · rw [heq]
    exact List.mem_map.2 ⟨_, hs, rfl⟩
  · simp [heq]

theorem nodes_sharedSymbol (d : Draft) (description : String) :
    (d.sharedSymbol description).2.graph.nodes = d.graph.nodes := by
  rcases d.sharedSymbol_cases description with ⟨s, -, heq⟩ | ⟨-, s, supply, -, heq⟩ <;> rw [heq]

theorem nodes_newCallable (d : Draft) (name : String) :
    (d.newCallable name).2.graph.nodes = d.graph.nodes := rfl

theorem Step.shared_subset {d d' : Draft} (h : Step d d') : d.graph.shared ⊆ d'.graph.shared := by
  cases h with
  | symbol description =>
    rcases d.sharedSymbol_cases description with ⟨s, hs, heq⟩ | ⟨_, s, supply, _, heq⟩
    · simp [heq]
    · simp [heq]
  | callable => exact List.Subset.refl _
  | register => exact List.Subset.refl _
  | add => exact List.Subset.refl _

theorem Steps.shared_subset {d d' : Draft} (h : Steps d d') : d.graph.shared ⊆ d'.graph.shared := by
  induction h with
  | refl => exact List.Subset.refl _
  | tail _ hstep ih => exact List.Subset.trans ih hstep.shared_subset

end Draft

/-! ## Records of mappings -/

namespace Record

variable {g : Graph}

theorem forall_insertField {key : Key} {p : Property} {fields : List (Key × Property)}
    (hfields : ∀ field ∈ fields, field.1.InternedIn g ∧ field.2.content.IsStored)
    (hkey : key.InternedIn g) (hp : p.content.IsStored) :
    ∀ field ∈ insertField key p fields, field.1.InternedIn g ∧ field.2.content.IsStored := by
  induction fields with
  | nil => exact List.forall_mem_singleton.2 ⟨hkey, hp⟩
  | cons field rest ih =>
    obtain ⟨k, q⟩ := field
    obtain ⟨⟨hk, hq⟩, hrest⟩ := List.forall_mem_cons.1 hfields
    unfold insertField
    split
    · exact List.forall_mem_cons.2 ⟨⟨hk, hp⟩, hrest⟩
    · exact List.forall_mem_cons.2 ⟨⟨hk, hq⟩, ih hrest⟩

theorem forall_foldl_insert {pairs : List (Key × Value)} {r : Record}
    (hpairs : ∀ pair ∈ pairs, pair.1.InternedIn g)
    (hr : ∀ field ∈ r.fields, field.1.InternedIn g ∧ field.2.content.IsStored) :
    ∀ field ∈ (pairs.foldl (fun (r : Record) (key, v) => r.insert key ⟨.stored v, true⟩) r).fields,
      field.1.InternedIn g ∧ field.2.content.IsStored := by
  induction pairs generalizing r with
  | nil => exact hr
  | cons pair rest ih =>
    obtain ⟨hpair, hrest⟩ := List.forall_mem_cons.1 hpairs
    exact ih hrest (forall_insertField hr hpair ⟨pair.2, rfl⟩)

end Record

namespace Yaml

theorem loadable_recordOf {g : Graph} (className : Option String) {keys : List Key}
    (values : List Value) (hkeys : ∀ key ∈ keys, key.InternedIn g) :
    (Container.record (recordOf className keys values)).Loadable g := by
  refine Container.loadable_record (Record.forall_foldl_insert (fun pair hpair => ?_) (by simp))
  exact hkeys _ (List.of_mem_zip hpair).1

theorem steps_recordKey (key : Yaml) (d : Draft) : d.Steps (recordKey key d).2 := by
  unfold recordKey
  split
  · exact .refl
  · split
    · exact .single (.symbol d _)
    · exact .refl
  · exact .refl

theorem interned_of_recordKey {key : Yaml} {k : Key} {d d' : Draft}
    (h : recordKey key d = (some k, d')) : k.InternedIn d'.graph := by
  unfold recordKey at h
  split at h
  · cases h
    rintro s ⟨⟩
  · split at h
    · cases h
      rintro s ⟨⟩
      exact d.sharedSymbol_mem _
    · cases h
  · cases h

theorem steps_recordKeys (entries : List (Yaml × Yaml)) (d : Draft) :
    d.Steps (recordKeys entries d).2 := by
  induction entries generalizing d with
  | nil => exact .refl
  | cons entry rest ih =>
    obtain ⟨key, v⟩ := entry
    have hfirst := steps_recordKey key d
    unfold recordKeys
    split
    · rename_i d' heq
      simpa [heq] using hfirst
    · rename_i k d' heq
      rw [heq] at hfirst
      have hrest := ih d'
      split <;> rename_i heq' <;> rw [heq'] at hrest <;> exact hfirst.trans hrest

theorem interned_of_recordKeys {entries : List (Yaml × Yaml)} {d d' : Draft} {keys : List Key}
    (h : recordKeys entries d = (some keys, d')) : ∀ key ∈ keys, key.InternedIn d'.graph := by
  induction entries generalizing d keys with
  | nil =>
    cases h
    simp
  | cons entry rest ih =>
    obtain ⟨key, v⟩ := entry
    unfold recordKeys at h
    split at h
    · cases h
    · rename_i k d₁ hkey
      split at h
      · cases h
      · rename_i ks d₂ hrest
        cases h
        have hsub := (steps_recordKeys rest d₁).shared_subset
        rw [hrest] at hsub
        exact List.forall_mem_cons.2 ⟨(interned_of_recordKey hkey).mono hsub, ih hrest⟩

/-! ## Runs -/

theorem steps_registerClass (className : Option String) (d : Draft) :
    d.Steps (registerClass className d) := by
  cases className with
  | none => exact .refl
  | some name => exact .single (.register d name)

theorem steps_hold (className : Option String) (v : Value) (d : Draft) :
    d.Steps (hold className v d).2 := by
  cases className with
  | none => exact .refl
  | some name =>
    refine .single (.add (Container.loadable_record ?_))
    refine Record.forall_insertField (by simp [Record.instanceOf]) ?_ ⟨v, rfl⟩
    rintro s ⟨⟩

theorem steps_scalar (className : Option String) (v : Value) (d : Draft) :
    d.Steps (hold className v (registerClass className d)).2 :=
  (steps_registerClass className d).trans (steps_hold className v _)

mutual

theorem steps_loadAs (className : Option String) (v : Yaml) (d : Draft) :
    d.Steps (loadAs className v d).2 := by
  match v with
  | .sequence items =>
    rw [loadAs]
    exact (steps_loadItems items d).tail (.add (Container.loadable_sequence _ _))
  | .mapping entries =>
    have hregister := steps_registerClass className d
    have hkeys := steps_recordKeys entries (registerClass className d)
    rw [loadAs]
    cases heq : recordKeys entries (registerClass className d) with
    | mk keys d' =>
      rw [heq] at hkeys
      cases keys with
      | some keys =>
        -- the keys are interned before the values are loaded, and stay so
        have hvalues := steps_loadValues entries d'
        refine ((hregister.trans hkeys).trans hvalues).tail (.add (loadable_recordOf _ _ ?_))
        exact fun key hkey => (interned_of_recordKeys heq key hkey).mono hvalues.shared_subset
      | none =>
        have hentries := steps_loadEntries entries d'
        exact ((hregister.trans hkeys).trans hentries).tail (.add (Container.loadable_map _ _))
  | .tagged name inner =>
    have hregister := steps_registerClass className d
    by_cases hsymbol : name = symbolTag
    · rw [loadAs, if_pos hsymbol]
      exact (hregister.tail (.symbol _ (labelText inner))).trans (steps_hold className _ _)
    · rw [loadAs, if_neg hsymbol]
      by_cases hcallable : name = callableTag
      · rw [if_pos hcallable]
        exact (hregister.tail (.callable _ (labelText inner))).trans (steps_hold className _ _)
      · rw [if_neg hcallable]
        exact (hregister.trans (steps_loadAs (some name) inner _)).trans (steps_hold className _ _)
  | .null => exact steps_scalar className .null d
  | .boolean b => exact steps_scalar className (.boolean b) d
  | .integer n => exact steps_scalar className (.number (numberOf n)) d
  | .float x => exact steps_scalar className (.number (.float x)) d
  | .string s => exact steps_scalar className (.string s) d

theorem steps_loadItems (items : List Yaml) (d : Draft) : d.Steps (loadItems items d).2 := by
  match items with
  | [] => rw [loadItems]
  | item :: rest =>
    rw [loadItems]
    exact (steps_loadAs none item d).trans (steps_loadItems rest _)

theorem steps_loadValues (entries : List (Yaml × Yaml)) (d : Draft) :
    d.Steps (loadValues entries d).2 := by
  match entries with
  | [] => rw [loadValues]
  | (_, v) :: rest =>
    rw [loadValues]
    exact (steps_loadAs none v d).trans (steps_loadValues rest _)

theorem steps_loadEntries (entries : List (Yaml × Yaml)) (d : Draft) :
    d.Steps (loadEntries entries d).2 := by
  match entries with
  | [] => rw [loadEntries]
  | (k, v) :: rest =>
    rw [loadEntries]
    exact ((steps_loadAs none k d).trans (steps_loadAs none v _)).trans (steps_loadEntries rest _)

end

theorem steps_load (v : Yaml) (d : Draft) : d.Steps (load v d).2 := steps_loadAs none v d

end Yaml

/-! ## What every step keeps -/

/-- Containers are loadable, and the table has one symbol for each description in it. -/
structure Draft.Sound (d : Draft) : Prop where
  described : ∀ entry ∈ d.graph.shared, entry.2.description = some entry.1
  once : (d.graph.shared.map (·.1)).Nodup
  loadable : ∀ c ∈ d.graph.nodes, c.Loadable d.graph

namespace Draft

theorem sound_empty (s : Supply) : Sound ⟨.empty, s⟩ := by
  constructor <;> simp [Graph.empty]

theorem Sound.step {d d' : Draft} (h : d.Sound) (hstep : Step d d') : d'.Sound := by
  have hloadable : ∀ c ∈ d.graph.nodes, c.Loadable d'.graph := fun c hc =>
    (h.loadable c hc).mono hstep.shared_subset
  cases hstep with
  | symbol description =>
    rcases d.sharedSymbol_cases description with ⟨s, hs, heq⟩ | ⟨hnew, s, supply, hdescription, heq⟩
    · rw [heq]
      exact h
    · rw [heq] at hloadable ⊢
      refine ⟨?_, ?_, hloadable⟩
      · intro entry hentry
        rcases List.mem_append.1 hentry with hentry | hentry
        · exact h.described entry hentry
        · obtain rfl := List.mem_singleton.1 hentry
          exact hdescription
      · rw [List.map_append, List.map_singleton]
        refine List.nodup_append.2 ⟨h.once, List.nodup_singleton _, fun a ha b hb heq => hnew ?_⟩
        have hdescribed : b = description := List.mem_singleton.1 hb
        exact hdescribed ▸ heq ▸ ha
  | callable => exact ⟨h.described, h.once, hloadable⟩
  | register => exact ⟨h.described, h.once, hloadable⟩
  | @add c hc =>
    refine ⟨h.described, h.once, fun c' hc' => ?_⟩
    rcases Array.mem_push.1 hc' with hc' | rfl
    · exact hloadable c' hc'
    · exact hc.mono (List.Subset.refl _)

theorem Sound.entry_label {d : Draft} (h : d.Sound) {s : Symbol} (hs : s ∈ d.graph.shared.map (·.2)) :
    (s.label, s) ∈ d.graph.shared := by
  obtain ⟨⟨description, s⟩, hentry, rfl⟩ := List.mem_map.1 hs
  have hdescription : s.description = some description := h.described _ hentry
  rwa [Symbol.label, hdescription, Option.getD_some]

theorem Sound.steps {d d' : Draft} (h : d.Sound) (hsteps : Steps d d') : d'.Sound := by
  induction hsteps with
  | refl => exact h
  | tail _ hstep ih => exact ih.step hstep

end Draft

/-! ## Documents -/

namespace Document

variable (v : Yaml) (s : Supply)

theorem sound_ofYaml : ∃ supply, Draft.Sound ⟨(ofYaml v s).1.graph, supply⟩ :=
  ⟨_, (Draft.sound_empty s).steps (Yaml.steps_load v _)⟩

theorem loadable_of_has {x : Child} (hx : (ofYaml v s).1.graph.Has x) :
    x.container.Loadable (ofYaml v s).1.graph := by
  obtain ⟨supply, hsound⟩ := sound_ofYaml v s
  obtain ⟨hi, hc⟩ := Graph.node?_eq_some_iff.1 hx.node
  exact hsound.loadable _ (hc ▸ Array.getElem_mem hi)

theorem isStored_of_has {x : Child} (hx : (ofYaml v s).1.graph.Has x) : x.slot.content.IsStored :=
  (loadable_of_has v s hx).stored _ (List.mem_of_getElem? hx.slot)

/-- A document computes nothing. -/
theorem steady_ofYaml : (ofYaml v s).1.graph.Steady := by
  intro x hx
  obtain ⟨value, hvalue⟩ := isStored_of_has v s hx
  rw [hvalue]
  trivial

/-- Symbols that stand as field keys are equal when their labels are. -/
theorem eq_of_label_eq {x y : Child} (hx : (ofYaml v s).1.graph.Has x) (hy : (ofYaml v s).1.graph.Has y)
    {a b : Symbol} (ha : x.slot.key = .field (.symbol a)) (hb : y.slot.key = .field (.symbol b))
    (hlabel : a.label = b.label) : a = b := by
  obtain ⟨supply, hsound⟩ := sound_ofYaml v s
  have hinterned : ∀ x : Child, (ofYaml v s).1.graph.Has x → ∀ c, x.slot.key = .field (.symbol c) →
      (c.label, c) ∈ (ofYaml v s).1.graph.shared := fun x hx c hc =>
    hsound.entry_label ((loadable_of_has v s hx).interned _ (List.mem_of_getElem? hx.slot) _ hc c rfl)
  have hentries := List.inj_on_of_nodup_map hsound.once (hinterned x hx a ha) (hinterned y hy b hb) hlabel
  exact (Prod.mk.inj hentries).2

end Document

end ObjectGraph
