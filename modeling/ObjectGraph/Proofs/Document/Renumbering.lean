-- SUMMARY: Symbols and callables that are counted from other numbers: loading does not look at the numbers.
import ObjectGraph.Document

/-! # Renumbering

Symbols and callables take their numbers from a supply that all documents share, so two
documents of one text are not equal. Here the numbers are counted from others on
(`Document.renumber`). That keeps which values are equal (`Value.beq_renumber`), and as
loading compares numbers and nothing else (`Yaml.load_renumber`), all documents of one
value are renumberings of one document (`Document.ofYaml_renumber`).
-/

namespace ObjectGraph

variable {k : Supply}

/-! ## Renumbered graphs -/

/-- The supply that is this much further on than another one. -/
def Supply.renumber (k s : Supply) : Supply :=
  ⟨k.symbols + s.symbols, k.callables + s.callables, k.accessors + s.accessors⟩

def Symbol.renumber (k : Supply) (s : Symbol) : Symbol := ⟨k.symbols + s.id, s.description⟩

def Callable.renumber (k : Supply) (c : Callable) : Callable := ⟨k.callables + c.id, c.name⟩

def Value.renumber (k : Supply) : Value → Value
  | .symbol s => .symbol (s.renumber k)
  | .callable c => .callable (c.renumber k)
  | v => v

def Key.renumber (k : Supply) : Key → Key
  | .symbol s => .symbol (s.renumber k)
  | .name s => .name s

def Accessor.renumber (k : Supply) (a : Accessor) : Accessor :=
  ⟨a.id, fun n => (a.answer n).map (Value.renumber k)⟩

def Content.renumber (k : Supply) : Content → Content
  | .stored v => .stored (v.renumber k)
  | .computed a => .computed (a.renumber k)

def Property.renumber (k : Supply) (p : Property) : Property := ⟨p.content.renumber k, p.visible⟩

theorem Symbol.beq_renumber (s t : Symbol) : (s.renumber k == t.renumber k) = (s == t) := by
  rw [Bool.eq_iff_iff, beq_iff, beq_iff]
  exact Nat.add_left_cancel_iff

theorem Callable.beq_renumber (c d : Callable) : (c.renumber k == d.renumber k) = (c == d) := by
  rw [Bool.eq_iff_iff, beq_iff, beq_iff]
  exact Nat.add_left_cancel_iff

/-- Which values are equal does not depend on the numbers. -/
theorem Value.beq_renumber (v w : Value) : (v.renumber k == w.renumber k) = (v == w) := by
  cases v <;> cases w <;> try rfl
  case symbol.symbol => exact Symbol.beq_renumber ..
  case callable.callable => exact Callable.beq_renumber ..

theorem Key.beq_renumber (a b : Key) : (a.renumber k == b.renumber k) = (a == b) := by
  cases a <;> cases b <;> try rfl
  case symbol.symbol => exact Symbol.beq_renumber ..

/-- A field under its renumbered key. -/
def renumberField (k : Supply) (field : Key × Property) : Key × Property :=
  (field.1.renumber k, field.2.renumber k)

theorem Record.DistinctKeys.renumber {fields : List (Key × Property)}
    (h : DistinctKeys (fields.map (·.1))) : DistinctKeys ((fields.map (renumberField k)).map (·.1)) := by
  unfold DistinctKeys at *
  rw [List.map_map, List.pairwise_map]
  rw [List.pairwise_map] at h
  exact h.imp fun hne => (Key.beq_renumber ..).trans hne

def Record.renumber (k : Supply) (r : Record) : Record :=
  ⟨r.className, r.fields.map (renumberField k), r.distinct.renumber⟩

def Container.renumber (k : Supply) : Container → Container
  | .record r => .record (r.renumber k)
  | .sequence items => .sequence (items.map (Value.renumber k))
  | .map entries => .map (entries.map (Prod.map (Value.renumber k) (Value.renumber k)))

def Graph.renumber (k : Supply) (g : Graph) : Graph :=
  { g with
    nodes := g.nodes.map (Container.renumber k)
    shared := g.shared.map (Prod.map id (Symbol.renumber k)) }

def Draft.renumber (k : Supply) (d : Draft) : Draft := ⟨d.graph.renumber k, k.renumber d.supply⟩

def Document.renumber (k : Supply) (d : Document) : Document := ⟨d.graph.renumber k, d.root.renumber k⟩

/-! ## Renumbered records -/

namespace Record

theorem insertField_renumber (key : Key) (p : Property) (fields : List (Key × Property)) :
    insertField (key.renumber k) (p.renumber k) (fields.map (renumberField k)) =
      (insertField key p fields).map (renumberField k) := by
  induction fields with
  | nil => rfl
  | cons field rest ih =>
    obtain ⟨other, q⟩ := field
    change (if (other.renumber k == key.renumber k) = true then _ else _ :: insertField _ _ (rest.map _)) = _
    rw [Key.beq_renumber, insertField, ih]
    split <;> rfl

theorem insert_renumber (r : Record) (key : Key) (p : Property) :
    (r.renumber k).insert (key.renumber k) (p.renumber k) = (r.insert key p).renumber k := by
  have hfields := insertField_renumber (k := k) key p r.fields
  simp only [insert, renumber, mk.injEq, true_and]
  exact hfields

end Record

/-! ## Renumbered drafts -/

namespace Draft

/-- A result under renumbering: the value and the draft after. -/
abbrev renumberLoaded (k : Supply) : Value × Draft → Value × Draft :=
  Prod.map (Value.renumber k) (Draft.renumber k)

theorem add_renumber (d : Draft) (c : Container) :
    (d.renumber k).add (c.renumber k) = renumberLoaded k (d.add c) := by
  have hsize : (d.graph.renumber k).size = d.graph.size := Array.size_map
  have hpush : (d.graph.nodes.push c).map (Container.renumber k) =
      (d.graph.nodes.map (Container.renumber k)).push (c.renumber k) := Array.map_push
  simp only [add, Graph.add, Prod.map_apply, renumber, Graph.renumber, Value.renumber, hpush]
  exact Prod.ext (congrArg (Value.node ⟨·⟩) hsize) rfl

theorem lookup_renumber (shared : List (String × Symbol)) (description : String) :
    (shared.map (Prod.map id (Symbol.renumber k))).lookup description =
      (shared.lookup description).map (Symbol.renumber k) := by
  induction shared with
  | nil => rfl
  | cons entry rest ih =>
    obtain ⟨other, s⟩ := entry
    simp only [List.map_cons, Prod.map_apply, id_eq, List.lookup_cons, ih]
    split <;> rfl

theorem sharedSymbol_renumber (d : Draft) (description : String) :
    (d.renumber k).sharedSymbol description =
      Prod.map (Symbol.renumber k) (Draft.renumber k) (d.sharedSymbol description) := by
  have hlookup := lookup_renumber (k := k) d.graph.shared description
  simp only [sharedSymbol, Graph.sharedSymbol, renumber, Graph.renumber, hlookup]
  cases d.graph.shared.lookup description with
  | some s => rfl
  | none =>
    simp only [Option.map_none, Prod.map_apply, renumber, Graph.renumber, List.map_append, List.map_cons,
      List.map_nil]
    rfl

theorem newCallable_renumber (d : Draft) (name : String) :
    (d.renumber k).newCallable name = Prod.map (Callable.renumber k) (Draft.renumber k) (d.newCallable name) :=
  rfl

end Draft

/-! ## Loading -/

namespace Yaml

open Draft

theorem registerClass_renumber (className : Option String) (d : Draft) :
    registerClass className (d.renumber k) = (registerClass className d).renumber k := by
  cases className <;> rfl

theorem recordKey_renumber (key : Yaml) (d : Draft) :
    recordKey key (d.renumber k) =
      Prod.map (Option.map (Key.renumber k)) (Draft.renumber k) (recordKey key d) := by
  unfold recordKey
  split
  · rfl
  · split
    · rw [sharedSymbol_renumber]
      rfl
    · rfl
  · rfl

theorem recordKeys_renumber (entries : List (Yaml × Yaml)) (d : Draft) :
    recordKeys entries (d.renumber k) =
      Prod.map (Option.map (List.map (Key.renumber k))) (Draft.renumber k) (recordKeys entries d) := by
  induction entries generalizing d with
  | nil => rfl
  | cons entry rest ih =>
    obtain ⟨key, v⟩ := entry
    rw [recordKeys, recordKeys, recordKey_renumber]
    rcases recordKey key d with ⟨_ | first, d₁⟩
    · rfl
    · simp only [Prod.map_apply, Option.map_some, ih]
      rcases recordKeys rest d₁ with ⟨_ | keys, d₂⟩ <;> rfl

theorem recordOf_renumber (className : Option String) (keys : List Key) (values : List Value) :
    recordOf className (keys.map (Key.renumber k)) (values.map (Value.renumber k)) =
      (recordOf className keys values).renumber k := by
  have hfold (pairs : List (Key × Value)) (r : Record) :
      (pairs.map (Prod.map (Key.renumber k) (Value.renumber k))).foldl
          (fun r pair => r.insert pair.1 ⟨.stored pair.2, true⟩) (r.renumber k) =
        (pairs.foldl (fun r pair => r.insert pair.1 ⟨.stored pair.2, true⟩) r).renumber k := by
    induction pairs generalizing r with
    | nil => rfl
    | cons pair rest ih =>
      have hinsert := Record.insert_renumber (k := k) r pair.1 ⟨.stored pair.2, true⟩
      rw [List.map_cons, List.foldl_cons, List.foldl_cons, ← ih]
      exact congrArg (fun r => List.foldl _ r _) hinsert
  rw [recordOf, recordOf, List.zip_map]
  exact hfold _ ⟨className, [], .nil⟩

theorem hold_renumber (className : Option String) (v : Value) (d : Draft) :
    hold className (v.renumber k) (d.renumber k) = renumberLoaded k (hold className v d) := by
  cases className with
  | none => rfl
  | some name =>
    have hrecord := Record.insert_renumber (k := k) (.instanceOf name) heldField ⟨.stored v, false⟩
    rw [hold, hold, ← add_renumber, Container.renumber, ← hrecord]
    rfl

theorem scalar_renumber (className : Option String) {v : Value} (hv : v.renumber k = v) (d : Draft) :
    hold className v (registerClass className (d.renumber k)) =
      renumberLoaded k (hold className v (registerClass className d)) := by
  rw [registerClass_renumber, ← hold_renumber, hv]

mutual

theorem loadAs_renumber (className : Option String) (v : Yaml) (d : Draft) :
    loadAs className v (d.renumber k) = renumberLoaded k (loadAs className v d) := by
  match v with
  | .sequence items =>
    rw [loadAs, loadAs, loadItems_renumber items d]
    rcases loadItems items d with ⟨values, d'⟩
    exact add_renumber d' (.sequence values)
  | .mapping entries =>
    rw [loadAs, loadAs, registerClass_renumber, recordKeys_renumber]
    rcases recordKeys entries (registerClass className d) with ⟨_ | keys, d'⟩
    · simp only [Prod.map_apply, Option.map_none]
      rw [loadEntries_renumber entries d']
      rcases loadEntries entries d' with ⟨loaded, d''⟩
      exact add_renumber d'' (.map loaded)
    · simp only [Prod.map_apply, Option.map_some]
      rw [loadValues_renumber entries d']
      rcases loadValues entries d' with ⟨values, d''⟩
      simp only [Prod.map_apply, recordOf_renumber]
      exact add_renumber d'' (.record _)
  | .tagged name inner =>
    rw [loadAs, loadAs, registerClass_renumber]
    by_cases hsymbol : name = symbolTag
    · rw [if_pos hsymbol, if_pos hsymbol, sharedSymbol_renumber]
      rcases (registerClass className d).sharedSymbol (labelText inner) with ⟨s, d'⟩
      exact hold_renumber className (.symbol s) d'
    · rw [if_neg hsymbol, if_neg hsymbol]
      by_cases hcallable : name = callableTag
      · rw [if_pos hcallable, if_pos hcallable, newCallable_renumber]
        rcases (registerClass className d).newCallable (labelText inner) with ⟨c, d'⟩
        exact hold_renumber className (.callable c) d'
      · rw [if_neg hcallable, if_neg hcallable, loadAs_renumber (some name) inner]
        rcases loadAs (some name) inner (registerClass className d) with ⟨v, d'⟩
        exact hold_renumber className v d'
  | .null => exact scalar_renumber className (v := .null) rfl d
  | .boolean b => exact scalar_renumber className (v := .boolean b) rfl d
  | .integer n => exact scalar_renumber className (v := .number (numberOf n)) rfl d
  | .float x => exact scalar_renumber className (v := .number (.float x)) rfl d
  | .string s => exact scalar_renumber className (v := .string s) rfl d

theorem loadItems_renumber (items : List Yaml) (d : Draft) :
    loadItems items (d.renumber k) =
      Prod.map (List.map (Value.renumber k)) (Draft.renumber k) (loadItems items d) := by
  match items with
  | [] => rw [loadItems, loadItems, Prod.map_apply, List.map_nil]
  | item :: rest =>
    rw [loadItems, loadItems, loadAs_renumber none item d]
    rcases loadAs none item d with ⟨value, d'⟩
    simp only [Prod.map_apply]
    rw [loadItems_renumber rest d']
    rfl

theorem loadValues_renumber (entries : List (Yaml × Yaml)) (d : Draft) :
    loadValues entries (d.renumber k) =
      Prod.map (List.map (Value.renumber k)) (Draft.renumber k) (loadValues entries d) := by
  match entries with
  | [] => rw [loadValues, loadValues, Prod.map_apply, List.map_nil]
  | (_, v) :: rest =>
    rw [loadValues, loadValues, loadAs_renumber none v d]
    rcases loadAs none v d with ⟨value, d'⟩
    simp only [Prod.map_apply]
    rw [loadValues_renumber rest d']
    rfl

theorem loadEntries_renumber (entries : List (Yaml × Yaml)) (d : Draft) :
    loadEntries entries (d.renumber k) =
      Prod.map (List.map (Prod.map (Value.renumber k) (Value.renumber k))) (Draft.renumber k)
        (loadEntries entries d) := by
  match entries with
  | [] => rw [loadEntries, loadEntries, Prod.map_apply, List.map_nil]
  | (key, v) :: rest =>
    rw [loadEntries, loadEntries, loadAs_renumber none key d]
    rcases loadAs none key d with ⟨loadedKey, d'⟩
    simp only [Prod.map_apply]
    rw [loadAs_renumber none v d']
    rcases loadAs none v d' with ⟨value, d''⟩
    simp only [Prod.map_apply]
    rw [loadEntries_renumber rest d'']
    rfl

end

theorem load_renumber (v : Yaml) (d : Draft) : load v (d.renumber k) = renumberLoaded k (load v d) :=
  loadAs_renumber none v d

end Yaml

/-! ## Documents -/

namespace Document

/-- A document is one whose numbers are counted from the first on, renumbered. -/
theorem ofYaml_renumber (v : Yaml) (s : Supply) : (ofYaml v s).1 = (ofYaml v .initial).1.renumber s := by
  have hempty : Draft.renumber s ⟨.empty, .initial⟩ = ⟨.empty, s⟩ := by
    rw [Draft.renumber, Graph.renumber, Graph.empty, List.map_nil, Array.map_empty]
    rfl
  have hload := Yaml.load_renumber (k := s) v ⟨.empty, .initial⟩
  rw [hempty] at hload
  simp only [ofYaml, hload]
  rfl

/-- The documents are one, but for the numbers of symbols and callables. -/
def SameButNumbers (d d' : Document) : Prop :=
  ∃ (counted : Document) (s s' : Supply), d = counted.renumber s ∧ d' = counted.renumber s'

theorem sameButNumbers_ofYaml (v : Yaml) (s s' : Supply) : SameButNumbers (ofYaml v s).1 (ofYaml v s').1 :=
  ⟨_, s, s', ofYaml_renumber v s, ofYaml_renumber v s'⟩

end Document

end ObjectGraph
