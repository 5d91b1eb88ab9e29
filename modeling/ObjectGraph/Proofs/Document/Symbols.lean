-- SUMMARY: Symbols of documents: wherever they stand, they are in the table, and told apart by their descriptions.
import ObjectGraph.Proofs.Document.Forest
import ObjectGraph.Proofs.Graph.Interning

/-! # Symbols of documents

Every symbol that a document holds, be it a key or a value, is in the table of its graph
(`Document.interned_of_hasSymbol`): while a document is loaded, this is kept for the
containers that are there, and for the values at hand (`Yaml.interned_loadAs`). The table
is the outcome of a series of calls, so symbols of a document are equal exactly if their
descriptions are (`Document.beq_iff_of_hasSymbol`).
-/

namespace ObjectGraph

/-! ## Symbols in values and containers -/

/-- A symbol used as a value is in the table of the graph. -/
def Value.InternedIn (x : Value) (g : Graph) : Prop := ∀ s, x = .symbol s → s ∈ g.shared.map (·.2)

theorem Value.InternedIn.mono {x : Value} {g g' : Graph} (h : x.InternedIn g) (hsub : g.shared ⊆ g'.shared) :
    x.InternedIn g' :=
  fun s hs => List.map_subset _ hsub (h s hs)

/-- The map keys and the stored values are interned. -/
def Container.InternedIn (c : Container) (g : Graph) : Prop :=
  ∀ slot ∈ c.slots, ∀ x ∈ slot.values, x.InternedIn g

namespace Container

variable {g g' : Graph}

theorem InternedIn.mono {c : Container} (h : c.InternedIn g) (hsub : g.shared ⊆ g'.shared) : c.InternedIn g' :=
  fun slot hslot x hx => (h slot hslot x hx).mono hsub

theorem internedIn_sequence {items : List Value} (h : ∀ x ∈ items, x.InternedIn g) :
    (Container.sequence items).InternedIn g := by
  intro slot hslot x hx
  obtain ⟨i, hi, rfl⟩ := List.mem_mapIdx.1 hslot
  rw [List.mem_singleton.1 hx]
  exact h _ (List.getElem_mem hi)

theorem internedIn_map {entries : List (Value × Value)}
    (h : ∀ entry ∈ entries, entry.1.InternedIn g ∧ entry.2.InternedIn g) :
    (Container.map entries).InternedIn g := by
  intro slot hslot x hx
  obtain ⟨entry, hentry, rfl⟩ := List.mem_map.1 hslot
  obtain ⟨hkey, hvalue⟩ := h entry hentry
  rcases List.mem_cons.1 hx with rfl | hx
  · exact hkey
  · rw [List.mem_singleton.1 hx]
    exact hvalue

theorem internedIn_record {r : Record}
    (h : ∀ field ∈ r.fields, ∀ x, field.2.content = .stored x → x.InternedIn g) :
    (Container.record r).InternedIn g := by
  intro slot hslot x hx
  obtain ⟨⟨key, p⟩, hfield, rfl⟩ := List.mem_map.1 hslot
  refine h _ hfield x ?_
  cases hcontent : p.content with
  | stored v =>
    have hv : x ∈ [v] := by simpa [Slot.values, SlotKey.value?, Content.stored?, hcontent] using hx
    rw [List.mem_singleton.1 hv]
  | computed a => simp [Slot.values, SlotKey.value?, Content.stored?, hcontent] at hx

end Container

namespace Record

/-- A field was there, or has the property that is put in. -/
theorem mem_insertField {key : Key} {p : Property} {fields : List (Key × Property)} {field : Key × Property}
    (h : field ∈ insertField key p fields) : field ∈ fields ∨ field.2 = p := by
  induction fields with
  | nil => exact .inr (congrArg Prod.snd (List.mem_singleton.1 h))
  | cons other rest ih =>
    obtain ⟨k, q⟩ := other
    unfold insertField at h
    split at h
    · rcases List.mem_cons.1 h with rfl | h
      · exact .inr rfl
      · exact .inl (List.mem_cons_of_mem _ h)
    · rcases List.mem_cons.1 h with rfl | h
      · exact .inl (List.mem_cons_self ..)
      · exact (ih h).imp (List.mem_cons_of_mem _) id

theorem mem_foldl_insert {pairs : List (Key × Value)} {r : Record} {field : Key × Property}
    (h : field ∈ (pairs.foldl (fun (r : Record) (key, v) => r.insert key ⟨.stored v, true⟩) r).fields) :
    field ∈ r.fields ∨ ∃ pair ∈ pairs, field.2 = ⟨.stored pair.2, true⟩ := by
  induction pairs generalizing r with
  | nil => exact .inl h
  | cons pair rest ih =>
    rcases ih h with hinsert | ⟨other, hother, hfield⟩
    · exact (mem_insertField hinsert).imp id fun hfield => ⟨pair, List.mem_cons_self .., hfield⟩
    · exact .inr ⟨other, List.mem_cons_of_mem _ hother, hfield⟩

end Record

theorem Yaml.internedIn_recordOf {g : Graph} (className : Option String) (keys : List Key) {values : List Value}
    (h : ∀ x ∈ values, x.InternedIn g) : (Container.record (recordOf className keys values)).InternedIn g := by
  refine Container.internedIn_record fun field hfield x hx => ?_
  rcases Record.mem_foldl_insert hfield with hnone | ⟨pair, hpair, hp⟩
  · cases hnone
  · rw [hp] at hx
    exact Content.stored.inj hx ▸ h _ (List.of_mem_zip hpair).2

/-! ## Loading -/

namespace Draft

/-- The symbols in the containers are in the table. -/
def Interned (d : Draft) : Prop := ∀ c ∈ d.graph.nodes, c.InternedIn d.graph

variable {d d' : Draft}

theorem interned_empty (s : Supply) : Interned ⟨.empty, s⟩ := by
  simp [Interned, Graph.empty]

theorem Interned.keep (h : d.Interned) (hnodes : d'.graph.nodes = d.graph.nodes)
    (hsub : d.graph.shared ⊆ d'.graph.shared) : d'.Interned := by
  intro c hc
  rw [hnodes] at hc
  exact (h c hc).mono hsub

theorem Interned.add (h : d.Interned) {c : Container} (hc : c.InternedIn d.graph) : (d.add c).2.Interned := by
  intro c' hc'
  rcases Array.mem_push.1 hc' with hc' | rfl
  · exact h c' hc'
  · exact hc

end Draft

namespace Yaml

variable {d : Draft}

theorem interned_registerClass (className : Option String) (h : d.Interned) :
    (registerClass className d).Interned :=
  h.keep (nodes_registerClass className d) (steps_registerClass className d).shared_subset

theorem interned_recordKeys (entries : List (Yaml × Yaml)) (h : d.Interned) :
    (recordKeys entries d).2.Interned :=
  h.keep (nodes_recordKeys entries d) (steps_recordKeys entries d).shared_subset

theorem interned_hold (className : Option String) {x : Value} (h : d.Interned) (hx : x.InternedIn d.graph) :
    (hold className x d).2.Interned ∧ (hold className x d).1.InternedIn (hold className x d).2.graph := by
  cases className with
  | none => exact ⟨h, hx⟩
  | some name =>
    refine ⟨h.add (Container.internedIn_record fun field hfield y hy => ?_), nofun⟩
    rcases Record.mem_insertField hfield with hnone | hp
    · cases hnone
    · rw [hp] at hy
      exact Content.stored.inj hy ▸ hx

theorem interned_scalar (className : Option String) {x : Value} (hx : x.symbol? = none) (h : d.Interned) :
    (hold className x (registerClass className d)).2.Interned ∧
      (hold className x (registerClass className d)).1.InternedIn
        (hold className x (registerClass className d)).2.graph := by
  refine interned_hold className (interned_registerClass className h) ?_
  rintro s rfl
  cases hx

mutual

/-- Loading keeps the draft interned, and gives a value that is. -/
theorem interned_loadAs (className : Option String) (v : Yaml) {d : Draft} (h : d.Interned) :
    (loadAs className v d).2.Interned ∧ (loadAs className v d).1.InternedIn (loadAs className v d).2.graph := by
  match v with
  | .sequence items =>
    obtain ⟨hitems, hvalues⟩ := interned_loadItems items h
    rw [loadAs]
    exact ⟨hitems.add (Container.internedIn_sequence hvalues), nofun⟩
  | .mapping entries =>
    have hkeys := interned_recordKeys entries (interned_registerClass className h)
    rw [loadAs]
    -- what was interned to find out about the keys stays in the table
    cases heq : recordKeys entries (registerClass className d) with
    | mk keys d' =>
      rw [heq] at hkeys
      cases keys with
      | some keys =>
        obtain ⟨hloaded, hvalues⟩ := interned_loadValues entries hkeys
        exact ⟨hloaded.add (internedIn_recordOf className keys hvalues), nofun⟩
      | none =>
        obtain ⟨hloaded, hentries⟩ := interned_loadEntries entries hkeys
        exact ⟨hloaded.add (Container.internedIn_map hentries), nofun⟩
  | .tagged name inner =>
    have hregister := interned_registerClass className h
    by_cases hsymbol : name = symbolTag
    · rw [loadAs, if_pos hsymbol]
      refine interned_hold className (hregister.keep (Draft.nodes_sharedSymbol ..) ?_) ?_
      · exact (Draft.Step.symbol _ (labelText inner)).shared_subset
      · rintro s ⟨⟩
        exact Draft.sharedSymbol_mem _ (labelText inner)
    · rw [loadAs, if_neg hsymbol]
      by_cases hcallable : name = callableTag
      · rw [if_pos hcallable]
        exact interned_hold className (hregister.keep rfl (List.Subset.refl _)) nofun
      · rw [if_neg hcallable]
        obtain ⟨hinner, hvalue⟩ := interned_loadAs (some name) inner hregister
        exact interned_hold className hinner hvalue
  | .null => exact interned_scalar className rfl h
  | .boolean b => exact interned_scalar className rfl h
  | .integer n => exact interned_scalar className rfl h
  | .float x => exact interned_scalar className rfl h
  | .string s => exact interned_scalar className rfl h

theorem interned_loadItems (items : List Yaml) {d : Draft} (h : d.Interned) :
    (loadItems items d).2.Interned ∧
      ∀ x ∈ (loadItems items d).1, x.InternedIn (loadItems items d).2.graph := by
  match items with
  | [] =>
    rw [loadItems]
    exact ⟨h, nofun⟩
  | item :: rest =>
    obtain ⟨hitem, hvalue⟩ := interned_loadAs none item h
    obtain ⟨hrest, hvalues⟩ := interned_loadItems rest hitem
    rw [loadItems]
    exact ⟨hrest, List.forall_mem_cons.2 ⟨hvalue.mono (steps_loadItems rest _).shared_subset, hvalues⟩⟩

theorem interned_loadValues (entries : List (Yaml × Yaml)) {d : Draft} (h : d.Interned) :
    (loadValues entries d).2.Interned ∧
      ∀ x ∈ (loadValues entries d).1, x.InternedIn (loadValues entries d).2.graph := by
  match entries with
  | [] =>
    rw [loadValues]
    exact ⟨h, nofun⟩
  | (_, v) :: rest =>
    obtain ⟨hfirst, hvalue⟩ := interned_loadAs none v h
    obtain ⟨hrest, hvalues⟩ := interned_loadValues rest hfirst
    rw [loadValues]
    exact ⟨hrest, List.forall_mem_cons.2 ⟨hvalue.mono (steps_loadValues rest _).shared_subset, hvalues⟩⟩

theorem interned_loadEntries (entries : List (Yaml × Yaml)) {d : Draft} (h : d.Interned) :
    (loadEntries entries d).2.Interned ∧ ∀ entry ∈ (loadEntries entries d).1,
      entry.1.InternedIn (loadEntries entries d).2.graph ∧
        entry.2.InternedIn (loadEntries entries d).2.graph := by
  match entries with
  | [] =>
    rw [loadEntries]
    exact ⟨h, nofun⟩
  | (k, v) :: rest =>
    obtain ⟨hfirst, hkey⟩ := interned_loadAs none k h
    obtain ⟨hsecond, hvalue⟩ := interned_loadAs none v hfirst
    obtain ⟨hrest, hentries⟩ := interned_loadEntries rest hsecond
    have hstays := (steps_loadEntries rest (loadAs none v (loadAs none k d).2).2).shared_subset
    have hkey' := hkey.mono (steps_loadAs none v _).shared_subset
    rw [loadEntries]
    exact ⟨hrest, List.forall_mem_cons.2 ⟨⟨hkey'.mono hstays, hvalue.mono hstays⟩, hentries⟩⟩

end

end Yaml

/-! ## Documents -/

/-- The document holds the symbol: as its root, as a field key, as a map key or as a stored value. -/
inductive Document.HasSymbol (doc : Document) (s : Symbol) : Prop
  | root : doc.root = .symbol s → HasSymbol doc s
  | fieldKey {x : Child} : doc.graph.Has x → x.slot.key = .field (.symbol s) → HasSymbol doc s
  | mapKey {x : Child} : doc.graph.Has x → x.slot.key = .entry (.symbol s) → HasSymbol doc s
  | value {x : Child} : doc.graph.Has x → x.slot.content = .stored (.symbol s) → HasSymbol doc s

namespace Document

variable (v : Yaml) (s : Supply)

theorem interned_ofYaml : Draft.Interned ⟨(ofYaml v s).1.graph, (ofYaml v s).2⟩ ∧
    (ofYaml v s).1.root.InternedIn (ofYaml v s).1.graph :=
  Yaml.interned_loadAs none v (Draft.interned_empty s)

/-- Loading is a series of calls for the symbols of one graph. -/
theorem history_ofYaml : ∃ past, History s.symbols past
    (Workspace.mk (fun _ : Unit => (ofYaml v s).1.graph) (ofYaml v s).2) := by
  have hstart : History s.symbols [] (Workspace.mk (fun _ : Unit => .empty) s) := .start (fun _ => rfl) rfl
  obtain ⟨past, hpast⟩ := hstart.steps (i := ()) (Yaml.steps_load v _)
  have hgraph : Function.update (fun _ : Unit => Graph.empty) () (ofYaml v s).1.graph =
      fun _ => (ofYaml v s).1.graph := funext fun _ => Function.update_self ..
  exact ⟨past, hgraph ▸ hpast⟩

variable {v s} {a b : Symbol}

/-- The symbols that a document holds are in its table. -/
theorem interned_of_hasSymbol (h : (ofYaml v s).1.HasSymbol a) :
    a ∈ (ofYaml v s).1.graph.shared.map (·.2) := by
  obtain ⟨hcontainers, hroot⟩ := interned_ofYaml v s
  have hvalues : ∀ x : Child, (ofYaml v s).1.graph.Has x → ∀ y ∈ x.slot.values,
      y.InternedIn (ofYaml v s).1.graph := by
    intro x hx y hy
    obtain ⟨hid, hc⟩ := Graph.node?_eq_some_iff.1 hx.node
    exact hcontainers _ (hc ▸ Array.getElem_mem hid) _ (List.mem_of_getElem? hx.slot) y hy
  cases h with
  | root heq => exact hroot a heq
  | fieldKey hx hkey =>
    exact (loadable_of_has v s hx).interned _ (List.mem_of_getElem? hx.slot) _ hkey a rfl
  | mapKey hx hkey =>
    refine hvalues _ hx (.symbol a) ?_ a rfl
    simp [Slot.values, SlotKey.value?, hkey]
  | value hx hcontent =>
    refine hvalues _ hx (.symbol a) ?_ a rfl
    simp [Slot.values, Content.stored?, hcontent]

/-- A symbol that a document holds is the answer of a call for its description. -/
theorem answered_of_hasSymbol {past : List (SymbolCall Unit × Symbol)}
    (hpast : History s.symbols past (Workspace.mk (fun _ => (ofYaml v s).1.graph) (ofYaml v s).2))
    (h : (ofYaml v s).1.HasSymbol a) :
    ∃ description, a.description = some description ∧ (.shared () description, a) ∈ past := by
  obtain ⟨⟨description, a⟩, hentry, rfl⟩ := List.mem_map.1 (interned_of_hasSymbol h)
  have hcall : (.shared () description, a) ∈ past := (hpast.recorded.entries () description a).1 hentry
  exact ⟨description, hpast.recorded.described () description a hcall, hcall⟩

/-- Symbols of a document are equal exactly if their descriptions are. -/
theorem beq_iff_of_hasSymbol (ha : (ofYaml v s).1.HasSymbol a) (hb : (ofYaml v s).1.HasSymbol b) :
    (a == b) = true ↔ a.description = b.description := by
  obtain ⟨past, hpast⟩ := history_ofYaml v s
  obtain ⟨description, hdescription, hcall⟩ := answered_of_hasSymbol hpast ha
  obtain ⟨description', hdescription', hcall'⟩ := answered_of_hasSymbol hpast hb
  rw [hpast.beq_iff_of_shared hcall hcall', hdescription, hdescription', Option.some_inj]
  exact and_iff_right rfl

theorem word_eq_iff_of_hasSymbol (hfew : (ofYaml v s).2.symbols ≤ s.symbols + UInt64.size)
    (ha : (ofYaml v s).1.HasSymbol a) (hb : (ofYaml v s).1.HasSymbol b) :
    a.word = b.word ↔ (a == b) = true := by
  obtain ⟨past, hpast⟩ := history_ofYaml v s
  obtain ⟨_, -, hcall⟩ := answered_of_hasSymbol hpast ha
  obtain ⟨_, -, hcall'⟩ := answered_of_hasSymbol hpast hb
  exact hpast.word_eq_iff hfew hcall hcall'

end Document

/-- In every run of calls on any number of graphs, two answers are equal exactly if one call
gave both or both are the symbol of one description in one graph, and a shared symbol has the
description under which it stands in its table. The symbols that a document holds, as keys
or as values, are therefore equal exactly if their descriptions are. A counter of 64 bits
tells them apart as well, as long as it does not repeat itself. -/
theorem symbols_told_apart :
    (∀ {ι : Type} [DecidableEq ι] {first : Nat} {past : List (SymbolCall ι × Symbol)} {w : Workspace ι},
      History first past w →
        (∀ {m n : Nat} {x y : SymbolCall ι × Symbol}, past[m]? = some x → past[n]? = some y →
          ((x.2 == y.2) = true ↔ m = n ∨ x.1.SameShared y.1) ∧
          (w.supply.symbols ≤ first + UInt64.size → (x.2.word = y.2.word ↔ (x.2 == y.2) = true))) ∧
        ∀ {i : ι} {description : String} {s : Symbol}, (.shared i description, s) ∈ past →
          (description, s) ∈ (w.graph i).shared ∧ s.description = some description) ∧
    ∀ {v : Yaml} {s : Supply} {a b : Symbol},
      (Document.ofYaml v s).1.HasSymbol a → (Document.ofYaml v s).1.HasSymbol b →
        ((a == b) = true ↔ a.description = b.description) ∧
        ((Document.ofYaml v s).2.symbols ≤ s.symbols + UInt64.size → (a.word = b.word ↔ (a == b) = true)) := by
  constructor
  · intro ι _ first past w h
    refine ⟨fun hx hy => ⟨h.beq_iff hx hy, fun hfew => ?_⟩, fun hcall => ⟨?_, ?_⟩⟩
    · exact h.word_eq_iff hfew (List.mem_of_getElem? hx) (List.mem_of_getElem? hy)
    · exact (h.recorded.entries ..).2 hcall
    · exact h.recorded.described _ _ _ hcall
  · intro v s a b ha hb
    exact ⟨Document.beq_iff_of_hasSymbol ha hb, fun hfew => Document.word_eq_iff_of_hasSymbol hfew ha hb⟩

/-- Two graphs are asked for one description, the first of them twice, and a symbol with that
description is made by a call of its own. -/
def askedTwice : List (SymbolCall Bool × Symbol) :=
  [(.shared false "a", ⟨0, some "a"⟩), (.fresh (some "a"), ⟨1, some "a"⟩),
    (.shared true "a", ⟨2, some "a"⟩), (.shared false "a", ⟨0, some "a"⟩)]

/-- The second key is none of a record, and when that is found out, the first one is interned. -/
def probed : Yaml :=
  .mapping [(.tagged Yaml.symbolTag (.string "a"), .tagged Yaml.symbolTag (.string "b")),
    (.integer 1, .tagged Yaml.symbolTag (.string "a"))]

theorem history_askedTwice : ∃ w, History 0 askedTwice w ∧ w.supply.symbols = 3 := by
  have hstart : History 0 [] (Workspace.mk (fun _ : Bool => .empty) .initial) := .start (fun _ => rfl) rfl
  have hcalls := (((hstart.call (.shared false "a")).call (.fresh (some "a"))).call (.shared true "a")).call
    (.shared false "a")
  exact ⟨_, hcalls, rfl⟩

theorem hasSymbol_probed : (Document.ofYaml probed .initial).1.HasSymbol ⟨0, some "a"⟩ ∧
    (Document.ofYaml probed .initial).1.HasSymbol ⟨1, some "b"⟩ := by
  have hfirst : (Document.ofYaml probed .initial).1.graph.Has
      ⟨⟨0⟩, .map [(.symbol ⟨0, some "a"⟩, .symbol ⟨1, some "b"⟩), (.number (.integer 1), .symbol ⟨0, some "a"⟩)],
        0, ⟨.entry (.symbol ⟨0, some "a"⟩), .stored (.symbol ⟨1, some "b"⟩)⟩⟩ := ⟨rfl, rfl⟩
  exact ⟨.mapKey hfirst rfl, .value hfirst rfl⟩

theorem symbols_told_apart_probed :
    (∃ w, (History 0 askedTwice w ∧ w.supply.symbols ≤ 0 + UInt64.size) ∧
      (askedTwice[0]? = some (.shared false "a", ⟨0, some "a"⟩) ∧
        (.shared false "a", ⟨0, some "a"⟩) ∈ askedTwice) ∧
      ("a", ⟨0, some "a"⟩) ∈ (w.graph false).shared ∧
      ∀ n y, askedTwice[n]? = some y →
        (((⟨0, some "a"⟩ : Symbol) == y.2) = true ↔ 0 = n ∨ (SymbolCall.shared false "a").SameShared y.1) ∧
        ((⟨0, some "a"⟩ : Symbol).word = y.2.word ↔ ((⟨0, some "a"⟩ : Symbol) == y.2) = true)) ∧
    ((Document.ofYaml probed .initial).1.HasSymbol ⟨0, some "a"⟩ ∧
      (Document.ofYaml probed .initial).1.HasSymbol ⟨1, some "b"⟩ ∧
      (Document.ofYaml probed .initial).2.symbols ≤ Supply.initial.symbols + UInt64.size) ∧
    ((⟨0, some "a"⟩ : Symbol) == ⟨1, some "b"⟩) = false ∧
    (⟨0, some "a"⟩ : Symbol).word ≠ (⟨1, some "b"⟩ : Symbol).word := by
  obtain ⟨w, hcalls, hsymbols⟩ := history_askedTwice
  obtain ⟨ha, hb⟩ := hasSymbol_probed
  have hfew : w.supply.symbols ≤ 0 + UInt64.size := by
    rw [hsymbols]
    decide
  have hmade : (Document.ofYaml probed .initial).2.symbols = 2 := rfl
  have hfew' : (Document.ofYaml probed .initial).2.symbols ≤ Supply.initial.symbols + UInt64.size := by
    rw [hmade]
    decide
  have hmem : (.shared false "a", ⟨0, some "a"⟩) ∈ askedTwice := List.mem_cons_self ..
  obtain ⟨hapart, hshared⟩ := symbols_told_apart.1 hcalls
  refine ⟨⟨w, ⟨hcalls, hfew⟩, ⟨rfl, hmem⟩, (hshared hmem).1, fun n y hy => ?_⟩, ⟨ha, hb, hfew'⟩, ?_⟩
  · obtain ⟨hbeq, hword⟩ := hapart (m := 0) rfl hy
    exact ⟨hbeq, hword hfew⟩
  · obtain ⟨hbeq, hword⟩ := symbols_told_apart.2 ha hb
    have hne : ((⟨0, some "a"⟩ : Symbol) == ⟨1, some "b"⟩) ≠ true := fun heq => absurd (hbeq.1 heq) (by decide)
    exact ⟨Bool.eq_false_iff.2 hne, fun heq => hne ((hword hfew').1 heq)⟩

end ObjectGraph
