-- SUMMARY: The written path of a hit leads back to its value, where every key on it is the first of its name.
import ObjectGraph.Proofs.Path.RoundTrip
import ObjectGraph.Proofs.Search.Hits

/-! # Replaying hits

A step of a path names a key, not a slot: several slots of a container may answer
to it, and the first of them is followed. So a path leads back along the walk
that it was written from when each slot on the walk is the first of its name.
-/

namespace ObjectGraph

/-! ## Names of slots -/

def SlotKey.symbol? : SlotKey → Option Symbol
  | .field key => key.symbol?
  | .entry key => key.symbol?
  | .index _ => none

namespace Child

/-- The keys of the slots before this one. -/
def earlierKeys (x : Child) : List SlotKey := (x.container.slots.take x.position).map (·.key)

/-- No other slot is found in place of this one. A symbol stands for its label; a
map key that is neither symbol nor string stands for its display form, in which
a string key comes before it. -/
def FirstOfItsName (x : Child) : Prop :=
  match x.slot.key with
  | .field (.name _) | .index _ => True
  | .field (.symbol s) | .entry (.symbol s) =>
    ∀ key ∈ x.earlierKeys, ∀ t, key.symbol? = some t → t.label ≠ s.label
  | .entry (.string text) => .entry (.string text) ∉ x.earlierKeys
  | .entry key =>
    key.isScalar = true ∧ (∀ slot ∈ x.container.slots, slot.key ≠ .entry (.string key.display)) ∧
      ∀ other, .entry other ∈ x.earlierKeys → other.isScalar = true → other.display ≠ key.display

/-- A slot on whose step no other slot can be meant. -/
theorem firstOfItsName_of_step {x : Child}
    (h : (∃ name, x.slot.key.step = .field name) ∨ ∃ n, x.slot.key.step = .index n) :
    x.FirstOfItsName := by
  obtain ⟨id, c, i, ⟨key, content⟩⟩ := x
  cases key with
  | field key =>
    cases key with
    | name name => trivial
    | symbol s => simp [SlotKey.step] at h
  | index n => trivial
  | entry key => cases key <;> simp [SlotKey.step] at h

end Child

/-! ## Finding the first -/

theorem find?_eq_some_of_first {α : Type} {p : α → Bool} {xs : List α} {i : Nat} {a : α}
    (ha : xs[i]? = some a) (hp : p a = true) (hfirst : ∀ b ∈ xs.take i, p b = false) :
    xs.find? p = some a := by
  obtain ⟨hi, rfl⟩ := List.getElem?_eq_some_iff.1 ha
  refine List.find?_eq_some_iff_append.2 ⟨hp, xs.take i, xs.drop (i + 1), ?_, ?_⟩
  · rw [List.getElem_cons_drop, List.take_append_drop]
  · exact fun b hb => by simp [hfirst b hb]

theorem rel_of_mem_take {α : Type} {R : α → α → Prop} {xs : List α} (h : xs.Pairwise R) {i : Nat}
    {a : α} (ha : xs[i]? = some a) : ∀ b ∈ xs.take i, R b a := by
  intro b hmem
  obtain ⟨j, hj, rfl⟩ := List.mem_take_iff_getElem.1 hmem
  obtain ⟨hi, rfl⟩ := List.getElem?_eq_some_iff.1 ha
  exact List.pairwise_iff_getElem.1 h j i (by omega) hi (by omega)

namespace Record

theorem beq_eq_false_of_mem_take {r : Record} {i : Nat} {key : Key} {p : Property}
    (hfield : r.fields[i]? = some (key, p)) : ∀ field ∈ r.fields.take i, (field.1 == key) = false :=
  rel_of_mem_take (List.pairwise_map.1 r.distinct) hfield

/-- Keys are distinct, so a field is found under its key. -/
theorem get?_of_getElem? {r : Record} {i : Nat} {key : Key} {p : Property}
    (hfield : r.fields[i]? = some (key, p)) (hkey : (key == key) = true) : r.get? key = some p := by
  rw [get?, find?_eq_some_of_first hfield hkey (beq_eq_false_of_mem_take hfield)]
  rfl

end Record

namespace Container

variable {i : Nat} {v : Value}

theorem findSymbolEntry_of_first {entries : List (Value × Value)} {s : Symbol}
    (hentry : entries[i]? = some (.symbol s, v))
    (hfirst : ∀ entry ∈ entries.take i, ∀ t, entry.1.symbol? = some t → t.label ≠ s.label) :
    findSymbolEntry entries s.label = some v := by
  have hfind := find?_eq_some_of_first
    (p := fun entry : Value × Value => entry.1.symbol?.any (·.label == s.label)) hentry
    (by simp [Value.symbol?]) fun entry hmem => by simpa [Option.any_eq_false] using hfirst entry hmem
  rw [findSymbolEntry, hfind]
  rfl

theorem string?_eq_some_iff {key : Value} {text : String} :
    key.string? = some text ↔ key = .string text := by
  cases key <;> simp [Value.string?]

theorem findEntry_of_string {entries : List (Value × Value)} {text : String}
    (hentry : entries[i]? = some (.string text, v))
    (hfirst : ∀ entry ∈ entries.take i, entry.1 ≠ .string text) :
    findEntry entries text = some v := by
  have hfind := find?_eq_some_of_first (p := fun entry : Value × Value => entry.1.string? == some text)
    hentry (by simp [Value.string?]) fun entry hmem => by
      simpa [string?_eq_some_iff] using hfirst entry hmem
  rw [findEntry, hfind]
  rfl

theorem findEntry_of_scalar {entries : List (Value × Value)} {key : Value}
    (hentry : entries[i]? = some (key, v)) (hscalar : key.isScalar = true)
    (hstring : ∀ entry ∈ entries, entry.1 ≠ .string key.display)
    (hfirst : ∀ entry ∈ entries.take i, entry.1.isScalar = true → entry.1.display ≠ key.display) :
    findEntry entries key.display = some v := by
  have hnone : entries.find? (fun entry => entry.1.string? == some key.display) = none := by
    refine List.find?_eq_none.2 fun entry hmem => ?_
    simpa [string?_eq_some_iff] using hstring entry hmem
  have hfind := find?_eq_some_of_first
    (p := fun entry : Value × Value => entry.1.isScalar && entry.1.display == key.display) hentry
    (by simp [hscalar]) fun entry hmem => by simpa using hfirst entry hmem
  rw [findEntry, hnone, hfind]
  rfl

theorem locate_symbol_field {r : Record} {s : Symbol} {p : Property}
    (hfield : r.fields[i]? = some (.symbol s, p))
    (hfirst : ∀ field ∈ r.fields.take i, ∀ t, field.1.symbol? = some t → t.label ≠ s.label) :
    (Container.record r).locate (.symbol s.label) = some p.content := by
  have hfind := find?_eq_some_of_first
    (p := fun field : Key × Property => field.1.symbol?.any (·.label == s.label)) hfield
    (by simp [Key.symbol?]) fun field hmem => by simpa [Option.any_eq_false] using hfirst field hmem
  rw [locate, hfind]
  rfl

end Container

/-! ## Steps lead back to slots -/

namespace Child

variable {id : NodeId} {i : Nat} {slot : Slot}

theorem mem_earlierKeys_record {r : Record} {key : SlotKey} :
    key ∈ earlierKeys ⟨id, .record r, i, slot⟩ ↔ ∃ field ∈ r.fields.take i, .field field.1 = key := by
  rw [earlierKeys, Container.slots, ← List.map_take, List.map_map]
  exact List.mem_map

theorem mem_earlierKeys_map {entries : List (Value × Value)} {key : SlotKey} :
    key ∈ earlierKeys ⟨id, .map entries, i, slot⟩ ↔ ∃ entry ∈ entries.take i, .entry entry.1 = key := by
  rw [earlierKeys, Container.slots, ← List.map_take, List.map_map]
  exact List.mem_map

end Child

namespace Container

variable {id : NodeId} {i : Nat}

theorem locate_field {r : Record} {key : Key} {p : Property} (hfield : r.fields[i]? = some (key, p))
    (hfirst : Child.FirstOfItsName ⟨id, .record r, i, ⟨.field key, p.content⟩⟩) :
    (Container.record r).locate (SlotKey.field key).step = some p.content := by
  cases key with
  | name name =>
    have hkey : (Key.name name == Key.name name) = true := by simp [BEq.beq, Key.equals]
    simp [SlotKey.step, locate, Record.get?_of_getElem? hfield hkey]
  | symbol s =>
    exact locate_symbol_field hfield fun field hmem =>
      hfirst _ (Child.mem_earlierKeys_record.2 ⟨_, hmem, rfl⟩)

theorem locate_entry {entries : List (Value × Value)} {key v : Value}
    (hentry : entries[i]? = some (key, v))
    (hfirst : Child.FirstOfItsName ⟨id, .map entries, i, ⟨.entry key, .stored v⟩⟩) :
    (Container.map entries).locate (SlotKey.entry key).step = some (.stored v) := by
  cases key with
  | symbol s =>
    have hfind := findSymbolEntry_of_first hentry fun entry hmem =>
      hfirst _ (Child.mem_earlierKeys_map.2 ⟨_, hmem, rfl⟩)
    simp [SlotKey.step, locate, hfind]
  | string text =>
    have hfind := findEntry_of_string hentry fun entry hmem heq =>
      hfirst (Child.mem_earlierKeys_map.2 ⟨_, hmem, congrArg SlotKey.entry heq⟩)
    simp [SlotKey.step, locate, Value.display, hfind]
  | _ =>
    obtain ⟨hscalar, hstring, hearlier⟩ := hfirst
    have hfind := findEntry_of_scalar hentry hscalar
      (fun entry hmem heq => hstring _ (List.mem_map_of_mem hmem) (congrArg SlotKey.entry heq))
      fun entry hmem => hearlier _ (Child.mem_earlierKeys_map.2 ⟨_, hmem, rfl⟩)
    simp only [SlotKey.step, locate, hfind, Option.map_some]

end Container

namespace Graph

theorem Has.locate_step {g : Graph} {x : Child} (hx : g.Has x) (hfirst : x.FirstOfItsName) :
    x.container.locate x.slot.key.step = some x.slot.content := by
  rcases hx.cases with ⟨id, r, i, key, p, hfield, rfl⟩ | ⟨id, items, i, item, hitem, rfl⟩ |
    ⟨id, entries, i, key, v, hentry, rfl⟩
  · exact Container.locate_field hfield hfirst
  · simp [SlotKey.step, Container.locate, hitem]
  · exact Container.locate_entry hentry hfirst

/-! ## Paths lead back along walks -/

/-- No sequence is longer than indices can count. -/
def Addressable (g : Graph) : Prop :=
  ∀ id items, g.node? id = some (.sequence items) → items.length ≤ Step.indexLimit

theorem Addressable.step {g : Graph} (hg : g.Addressable) {x : Child} (hx : g.Has x) :
    x.slot.key.step.Addressable := by
  rcases hx.cases with ⟨id, r, i, key, p, hfield, rfl⟩ | ⟨id, items, i, item, hitem, rfl⟩ |
    ⟨id, entries, i, key, v, hentry, rfl⟩
  · cases key <;> trivial
  · obtain ⟨hi, _⟩ := List.getElem?_eq_some_iff.1 hitem
    exact Nat.lt_of_lt_of_le hi (hg id items hx.node)
  · cases key <;> trivial

variable {g : Graph} {target u v : Value} {q : Query} {s : Scope} {log : ReadLog} {way : Way}

theorem Addressable.path (hg : g.Addressable) {leads : Child → Value → Prop}
    (hwalk : g.Walk leads u way v) : ∀ step ∈ way.path, step.Addressable := by
  intro step hstep
  obtain ⟨x, hx, rfl⟩ := List.mem_map.1 hstep
  exact hg.step (hwalk.has x hx)

theorem resolve_of_walk (hwalk : g.Walk s.Crosses u way v) (hfirst : ∀ x ∈ way, x.FirstOfItsName)
    (log : ReadLog) : (g.resolve u way.path log).1 = some v := by
  induction hwalk generalizing log with
  | here v => rfl
  | @cross x next v rest hx hcross _ ih =>
    obtain ⟨hfirst, hrest⟩ := List.forall_mem_cons.1 hfirst
    have hlocate : g.locate (.node x.parent) x.slot.key.step = some x.slot.content := by
      simp [locate, Value.node?, hx.node, hx.locate_step hfirst]
    obtain ⟨log', hread⟩ : ∃ log', x.slot.content.read log = (.ok next, log') :=
      ⟨_, Prod.ext (hcross.2 log) rfl⟩
    rw [Way.path, List.map_cons, resolve, hlocate]
    simp only [hread]
    exact ih hrest _

theorem firstOfItsName_of_path {way : Way}
    (h : ∀ step ∈ way.path, (∃ name, step = .field name) ∨ ∃ n, step = .index n) :
    ∀ x ∈ way, x.FirstOfItsName :=
  fun x hx => Child.firstOfItsName_of_step (h _ (List.mem_map.2 ⟨x, hx, rfl⟩))

/-- The written path of a hit leads back to its value, if every slot on the way
to it is the first of its name; so it does if the path has only names and indices. -/
theorem resolveText_of_mem_search (hg : g.Steady) (haddr : g.Addressable) {h : Hit}
    (hh : h ∈ (g.search target q log).hits) :
    (∃ way, h.FoundAlong g q.toScope target way) ∧
    ∀ way, h.FoundAlong g q.toScope target way →
      ((∀ x ∈ way, x.FirstOfItsName) ∨
        ∀ step ∈ h.path, (∃ name, step = .field name) ∨ ∃ n, step = .index n) →
      ∀ log', (g.resolveText target h.path.write log').1 = some h.value := by
  refine ⟨exists_foundAlong (mem_allHits_of_mem_search hh), fun way halong hcond log' => ?_⟩
  have hfirst : ∀ x ∈ way, x.FirstOfItsName := by
    rcases hcond with hfirst | hplain
    · exact hfirst
    · exact firstOfItsName_of_path (halong.path ▸ hplain)
  have hwalk : g.Walk q.toScope.Crosses target way h.value :=
    halong.walk.mono fun _ _ hx => hg.crosses hx
  rw [resolveText, halong.path, Path.read_write (haddr.path hwalk)]
  exact resolve_of_walk hwalk hfirst log'

/-- A map with a key of each sort behind a record that holds itself under a symbol. -/
def cabinet : Graph :=
  { empty with
    nodes := #[
      .record ⟨none, [
        (.symbol ⟨0, some "tag"⟩, ⟨.stored (.node ⟨0⟩), true⟩),
        (.name "lookup", ⟨.computed ⟨0, fun _ => .ok (.node ⟨1⟩)⟩, true⟩)], by decide⟩,
      .map [(.symbol ⟨1, none⟩, .null), (.string "k\")", .string "y"), (.boolean true, .string "x")]] }

theorem steady_cabinet : cabinet.Steady := by
  refine steady_iff.2 ?_
  simp [cabinet, Container.slots, Content.Steady, Accessor.Steady]

theorem addressable_cabinet : cabinet.Addressable := by
  intro id items hnode
  obtain ⟨hi, hitems⟩ := node?_eq_some_iff.1 hnode
  have hall : ∀ c ∈ cabinet.nodes, c.sequence? = none := by simp [cabinet, Container.sequence?]
  have hnone := hall _ (hitems ▸ Array.getElem_mem hi)
  cases hnone

/-- The slots of `lookup.get("true")`. -/
def cabinetWay : Way :=
  [⟨⟨0⟩, cabinet.nodes[0], 1, ⟨.field (.name "lookup"), .computed ⟨0, fun _ => .ok (.node ⟨1⟩)⟩⟩⟩,
    ⟨⟨1⟩, cabinet.nodes[1], 2, ⟨.entry (.boolean true), .stored (.string "x")⟩⟩]

theorem firstOfItsName_cabinetWay : ∀ x ∈ cabinetWay, x.FirstOfItsName := by
  simp [cabinetWay, Child.FirstOfItsName, Child.earlierKeys, cabinet, Container.slots, Value.isScalar,
    Value.display, Symbol.display]
  decide

theorem resolveText_of_mem_search_cabinet :
    let q : Query := .plain .value (.exact (.string "x"))
    (cabinet.Steady ∧ cabinet.Addressable) ∧
    ∃ h ∈ (cabinet.search (.node ⟨0⟩) q []).hits,
      h.path = [.field "lookup", .entry "true" false] ∧
      (cabinet.resolveText (.node ⟨0⟩) h.path.write []).1 = some h.value := by
  intro q
  have hhits : (cabinet.search (.node ⟨0⟩) q []).hits =
      [⟨[.field "lookup", .entry "true" false], [1, 2], .string "x", .value⟩] := by cbv
  have hh := hhits ▸ List.mem_singleton.2 rfl
  have hwalk : cabinet.Walk q.toScope.CanCross (.node ⟨0⟩) cabinetWay (.string "x") :=
    .cross (x := ⟨⟨0⟩, _, 1, _⟩) ⟨rfl, rfl⟩ ⟨rfl, [], rfl⟩ <|
      .cross (x := ⟨⟨1⟩, _, 2, _⟩) ⟨rfl, rfl⟩ ⟨rfl, [], rfl⟩ <| .here _
  have hreplay := (resolveText_of_mem_search steady_cabinet addressable_cabinet hh).2 cabinetWay
    ⟨hwalk, rfl, rfl⟩ (.inl firstOfItsName_cabinetWay) []
  exact ⟨⟨steady_cabinet, addressable_cabinet⟩, _, hh, rfl, hreplay⟩

end Graph

end ObjectGraph
