-- SUMMARY: Containers: records with stored and computed properties, sequences, maps; their child slots.
import ObjectGraph.Value

/-! # Containers

A container is a record, a sequence or a map. All three are lists of child slots
in document order (`Container.slots`): a slot has a key and a content, which is a
stored value or an accessor that is asked at every read.
-/

namespace ObjectGraph

/-! ## Accessors -/

/-- Why a computed property could not be read. -/
structure AccessError where
  message : String
deriving DecidableEq, Repr, Inhabited

/-- A computed property: `answer k` is the outcome of its `k`-th read, whatever other
accessors have been read by then. -/
structure Accessor where
  id : Nat
  answer : Nat → Except AccessError Value

/-- The accessors read so far, latest first. -/
abbrev ReadLog := List Nat

namespace Accessor

/-- An accessor that gives `first`, then the outcomes of `rest`, and stays with
the last of them. -/
def ofOutcomes (id : Nat) (first : Except AccessError Value)
    (rest : List (Except AccessError Value)) : Accessor :=
  ⟨id, fun k => (first :: rest)[min k rest.length]?.getD first⟩

/-- A fresh accessor with the given outcomes. -/
def fresh (s : Supply) (first : Except AccessError Value)
    (rest : List (Except AccessError Value)) : Accessor × Supply :=
  (ofOutcomes s.accessors first rest, { s with accessors := s.accessors + 1 })

/-- The outcome of the next read, and the log after it. -/
def read (a : Accessor) (log : ReadLog) : Except AccessError Value × ReadLog :=
  (a.answer (log.count a.id), a.id :: log)

/-- Every read answers the same. -/
def Steady (a : Accessor) : Prop := ∀ k, a.answer k = a.answer 0

theorem read_of_steady {a : Accessor} (h : a.Steady) (log : ReadLog) :
    (a.read log).1 = a.answer 0 := h _

end Accessor

inductive Content where
  | stored (v : Value)
  | computed (a : Accessor)

namespace Content

def read : Content → ReadLog → Except AccessError Value × ReadLog
  | .stored v, log => (.ok v, log)
  | .computed a, log => a.read log

def Steady : Content → Prop
  | .stored _ => True
  | .computed a => a.Steady

end Content

/-! ## Records -/

structure Property where
  content : Content
  /-- Shown when the record is written out; hidden ones are searched all the same. -/
  visible : Bool

namespace Record

/-- Put a property under a key: an equal key keeps its place. -/
def insertField (key : Key) (p : Property) : List (Key × Property) → List (Key × Property)
  | [] => [(key, p)]
  | (k, q) :: rest => if k == key then (k, p) :: rest else (k, q) :: insertField key p rest

theorem keys_insertField (key : Key) (p : Property) (fields : List (Key × Property)) :
    (insertField key p fields).map (·.1) =
      if fields.any (·.1 == key) then fields.map (·.1) else fields.map (·.1) ++ [key] := by
  induction fields with
  | nil => rfl
  | cons field rest ih =>
    obtain ⟨k, q⟩ := field
    by_cases hk : k == key
    · simp [insertField, hk]
    · simp only [insertField, hk, Bool.false_eq_true, if_false, List.map_cons, ih, List.any_cons,
        Bool.false_or]
      split <;> rfl

/-- No two of the keys are equal. -/
def DistinctKeys (keys : List Key) : Prop := keys.Pairwise fun a b => (a == b) = false

instance : DecidablePred DistinctKeys := fun keys =>
  inferInstanceAs (Decidable (keys.Pairwise _))

theorem DistinctKeys.nil : DistinctKeys [] := List.Pairwise.nil

theorem DistinctKeys.insertField {fields : List (Key × Property)}
    (h : DistinctKeys (fields.map (·.1))) (key : Key) (p : Property) :
    DistinctKeys ((Record.insertField key p fields).map (·.1)) := by
  rw [keys_insertField]
  split
  · exact h
  · rename_i hnew
    refine List.pairwise_append.2 ⟨h, List.pairwise_singleton _ _, ?_⟩
    intro k hk last hlast
    obtain ⟨field, hfield, rfl⟩ := List.mem_map.1 hk
    rw [List.mem_singleton.1 hlast]
    exact Bool.eq_false_iff.2 fun heq => hnew (List.any_eq_true.2 ⟨field, hfield, heq⟩)

end Record

/-- Named fields in the order of their declaration, and an optional class. -/
structure Record where
  className : Option String
  fields : List (Key × Property)
  distinct : Record.DistinctKeys (fields.map (·.1))

namespace Record

def empty : Record := ⟨none, [], .nil⟩

instance : Inhabited Record := ⟨empty⟩

def instanceOf (className : String) : Record := ⟨some className, [], .nil⟩

def size (r : Record) : Nat := r.fields.length

def keys (r : Record) : List Key := r.fields.map (·.1)

def visibleKeys (r : Record) : List Key := (r.fields.filter (·.2.visible)).map (·.1)

def get? (r : Record) (key : Key) : Option Property :=
  (r.fields.find? (·.1 == key)).map (·.2)

def insert (r : Record) (key : Key) (p : Property) : Record :=
  ⟨r.className, insertField key p r.fields, r.distinct.insertField key p⟩

end Record

/-! ## Containers and their slots -/

inductive Kind where
  | record
  | sequence
  | map
deriving DecidableEq, Repr

def Kind.name : Kind → String
  | .record => "record"
  | .sequence => "sequence"
  | .map => "map"

inductive Container where
  | record (r : Record)
  | sequence (items : List Value)
  | map (entries : List (Value × Value))

instance : Inhabited Container := ⟨.sequence []⟩

/-- The key under which a child sits in its container. -/
inductive SlotKey where
  | field (key : Key)
  | index (n : Nat)
  | entry (key : Value)
deriving DecidableEq, Repr

structure Slot where
  key : SlotKey
  content : Content

/-- A child slot and where it is: the container that holds it, and its position there. -/
structure Child where
  parent : NodeId
  container : Container
  position : Nat
  slot : Slot

namespace Container

def kind : Container → Kind
  | .record _ => .record
  | .sequence _ => .sequence
  | .map _ => .map

def className : Container → Option String
  | .record r => r.className
  | _ => none

def record? : Container → Option Record
  | .record r => some r
  | _ => none

def sequence? : Container → Option (List Value)
  | .sequence items => some items
  | _ => none

def map? : Container → Option (List (Value × Value))
  | .map entries => some entries
  | _ => none

/-- The child slots in document order. -/
def slots : Container → List Slot
  | .record r => r.fields.map fun (key, p) => ⟨.field key, p.content⟩
  | .sequence items => items.mapIdx fun i item => ⟨.index i, .stored item⟩
  | .map entries => entries.map fun (key, value) => ⟨.entry key, .stored value⟩

/-- A slot is a field, an item or an entry, as its container has it. -/
theorem slots_cases {c : Container} {i : Nat} {slot : Slot} (hslot : c.slots[i]? = some slot) :
    (∃ r key p, c = .record r ∧ r.fields[i]? = some (key, p) ∧ slot = ⟨.field key, p.content⟩) ∨
    (∃ items item, c = .sequence items ∧ items[i]? = some item ∧ slot = ⟨.index i, .stored item⟩) ∨
    (∃ entries key v, c = .map entries ∧ entries[i]? = some (key, v) ∧
      slot = ⟨.entry key, .stored v⟩) := by
  cases c with
  | record r =>
    simp only [slots, List.getElem?_map, Option.map_eq_some_iff] at hslot
    obtain ⟨⟨key, p⟩, hfield, rfl⟩ := hslot
    exact .inl ⟨r, key, p, rfl, hfield, rfl⟩
  | sequence items =>
    simp only [slots, List.getElem?_mapIdx, Option.map_eq_some_iff] at hslot
    obtain ⟨item, hitem, rfl⟩ := hslot
    exact .inr (.inl ⟨items, item, rfl, hitem, rfl⟩)
  | map entries =>
    simp only [slots, List.getElem?_map, Option.map_eq_some_iff] at hslot
    obtain ⟨⟨key, v⟩, hentry, rfl⟩ := hslot
    exact .inr (.inr ⟨entries, key, v, rfl, hentry, rfl⟩)

/-- The child slots with their positions, for the container at a place. -/
def children (c : Container) (id : NodeId) : List Child :=
  c.slots.mapIdx fun i slot => ⟨id, c, i, slot⟩

/-- Put a value under a map key: the first entry with an equal key keeps its
place and its key. -/
def insertEntry (key value : Value) : List (Value × Value) → List (Value × Value)
  | [] => [(key, value)]
  | (k, v) :: rest => if k == key then (k, value) :: rest else (k, v) :: insertEntry key value rest

end Container

end ObjectGraph
