-- SUMMARY: Places in a YAML value, and the walks that lead to them in its document.
import ObjectGraph.Proofs.Document.Entries
import ObjectGraph.Proofs.Graph.Walk

/-! # Places in a value

A place in a YAML value is given by the turns on the way to it: to an item, to the
value of a key or of an entry, or to what an instance holds (`Yaml.At`). The
document has a walk that follows the turns, and its end is what the loader gave for
the part that stands there (`Document.exists_walk_of_at`).
-/

namespace ObjectGraph

namespace Yaml

/-! ## Turns -/

/-- A turn from a value to a part of it for which the document has a slot. -/
inductive Turn where
  | item (i : Nat)
  /-- The value of a key, in a mapping that becomes a record. -/
  | field (key : Yaml)
  /-- The value of an entry, in a mapping that becomes a map. -/
  | entry (i : Nat)
  /-- What stands under a tag and is no collection. -/
  | held

/-- The slot is the one to which the turn leads. -/
def Turn.LeadsTo (g : Graph) : Turn → Child → Prop
  | .item i, x => x.slot.key = .index i
  | .field key, x => ∃ k, key.Names g k ∧ x.slot.key = .field k
  | .entry i, x => x.position = i ∧ ∃ key, x.slot.key = .entry key
  | .held, x => x.slot.key = .field heldField

def isCollection : Yaml → Bool
  | .sequence _ | .mapping _ => true
  | _ => false

/-- A collection has this part. Of the entries of a record under symbols of one
description only the last one counts. -/
inductive Holds : Yaml → Turn → Yaml → Prop
  | item {items : List Yaml} {i : Nat} {w : Yaml} : items[i]? = some w → Holds (.sequence items) (.item i) w
  | field {entries : List (Yaml × Yaml)} {i : Nat} {key w : Yaml} :
    (∀ entry ∈ entries, entry.1.IsRecordKey) → DistinctEntries entries → entries[i]? = some (key, w) →
    (∀ other ∈ entries.drop (i + 1), ¬ SameDescription key other.1) →
    Holds (.mapping entries) (.field key) w
  | entry {entries : List (Yaml × Yaml)} {i : Nat} {key w : Yaml} :
    (∃ entry ∈ entries, ¬ entry.1.IsRecordKey) → entries[i]? = some (key, w) →
    Holds (.mapping entries) (.entry i) w

/-- The turn leads from the first value to the second; a collection keeps its parts
under a tag. -/
inductive Turns : Yaml → Turn → Yaml → Prop
  | part {v w : Yaml} {turn : Turn} : v.Holds turn w → Turns v turn w
  | tagged {name : String} {v w : Yaml} {turn : Turn} : name ≠ symbolTag → name ≠ callableTag →
    v.Holds turn w → Turns (.tagged name v) turn w
  | held {name : String} {v : Yaml} : name ≠ symbolTag → name ≠ callableTag → v.isCollection = false →
    Turns (.tagged name v) .held v

/-- The turns lead from the first value to the second. -/
inductive At : Yaml → List Turn → Yaml → Prop
  | here (v : Yaml) : At v [] v
  | turn {v w u : Yaml} {turn : Turn} {rest : List Turn} :
    v.Turns turn w → w.At rest u → At v (turn :: rest) u

/-! ## Keys of records -/

/-- The record key of a mapping key is the only interned one that is equal to it. -/
theorem Names.eq_of_interned {d : Draft} (hnumbered : d.Numbered) {key : Yaml} {k k' : Key}
    (hnames : key.Names d.graph k) (hinterned : k'.InternedIn d.graph) (hbeq : (k' == k) = true) : k' = k := by
  cases hnames with
  | name s =>
    cases k' with
    | name t => exact congrArg Key.name (eq_of_beq hbeq)
    | symbol t => cases hbeq
  | @symbol inner s hs =>
    cases k' with
    | name t => cases hbeq
    | symbol t =>
      obtain ⟨entry, hentry, rfl⟩ := List.mem_map.1 (hinterned t rfl)
      have hid : entry.2.id = s.id := Symbol.beq_iff.1 hbeq
      have heq := List.inj_on_of_nodup_map hnumbered.once hentry hs hid
      rw [heq]

/-- Where a record has a property under the key that a mapping key stands for, it
has a slot with that key. -/
theorem Names.exists_has {d : Draft} (hnumbered : d.Numbered) (hsound : d.Sound) {key : Yaml} {k : Key}
    (hnames : key.Names d.graph k) {id : NodeId} {r : Record} {p : Property}
    (hnode : d.graph.node? id = some (.record r)) (hget : r.get? k = some p) :
    ∃ i, d.graph.Has ⟨id, .record r, i, ⟨.field k, p.content⟩⟩ := by
  obtain ⟨⟨k', q⟩, hfield, hq⟩ := Option.map_eq_some_iff.1 hget
  obtain rfl : q = p := hq
  have hbeq : (k' == k) = true := List.find?_some (p := fun field : Key × Property => field.1 == k) hfield
  obtain ⟨i, hi⟩ := List.getElem?_of_mem (List.mem_of_find?_eq_some hfield)
  have hslot : (Container.record r).slots[i]? = some ⟨.field k', q.content⟩ := by
    simp [Container.slots, hi]
  obtain ⟨hlt, heq⟩ := Graph.node?_eq_some_iff.1 hnode
  have hloadable := hsound.loadable _ (heq ▸ Array.getElem_mem hlt)
  have hinterned := hloadable.interned _ (List.mem_of_getElem? hslot) k' rfl
  obtain rfl := hnames.eq_of_interned hnumbered hinterned hbeq
  exact ⟨i, hnode, hslot⟩

namespace Task

/-! ## Calls that lie within a run -/

/-- The call is made, and its outcome is still there in the last draft. -/
structure Within (t : Task) (s : Supply) (last : Draft) : Prop where
  before : Draft.Steps ⟨.empty, s⟩ t.draft
  after : t.run.2.Steps last

variable {t part : Task} {s : Supply} {last d : Draft} {turn : Turn} {turns : List Turn} {w : Yaml}

theorem Within.of_mem_calls (h : t.Within s last) (hpart : part ∈ t.calls) : part.Within s last :=
  have ⟨hbefore, hafter⟩ := steps_of_mem_calls hpart
  ⟨h.before.trans hbefore, hafter.trans h.after⟩

theorem Within.steps (h : t.Within s last) : Draft.Steps ⟨.empty, s⟩ last :=
  (h.before.trans (steps_run t)).trans h.after

theorem within_start (v : Yaml) (s : Supply) : (start v s).Within s (start v s).run.2 := ⟨.refl, .refl⟩

/-- The slot is where the turn leads from what the call gives, and holds what the
second call gives for the part. -/
structure Fills (t : Task) (last : Draft) (turn : Turn) (x : Child) (part : Task) : Prop where
  node : t.run.1 = .node x.parent
  has : last.graph.Has x
  leads : turn.LeadsTo last.graph x
  content : x.slot.content = .stored part.run.1

theorem exists_fills_item {className : Option String} {items : List Yaml} {i : Nat}
    (hin : Within ⟨className, .sequence items, d⟩ s last) (hitem : items[i]? = some w) :
    let t : Task := ⟨className, .sequence items, d⟩
    ∃ x part, t.Fills last (.item i) x part ∧ part.value = w ∧ part.className = none ∧ part ∈ t.calls := by
  intro t
  rw [← map_value_inTurn items d, List.getElem?_map, Option.map_eq_some_iff] at hitem
  obtain ⟨part, hpart, rfl⟩ := hitem
  have hmem : part ∈ inTurn items d := List.mem_of_getElem? hpart
  have hrun : t.run = (loadItems items d).2.add (.sequence ((inTurn items d).map (·.run.1))) := by
    change loadAs className (.sequence items) d = _
    rw [loadAs, ← loadItems_eq]
  have hafter := Draft.Steps.growsTo hin.after
  rw [hrun] at hafter
  refine ⟨⟨_, _, i, ⟨.index i, .stored part.run.1⟩⟩, part, ⟨congrArg Prod.fst hrun,
    ⟨hafter _ _ (Graph.node?_add ..), ?_⟩, rfl, rfl⟩, rfl, (steps_of_mem_inTurn hmem).1, hmem⟩
  simp [Container.slots, hpart]

theorem exists_fills_field {className : Option String} {entries : List (Yaml × Yaml)} {i : Nat} {key : Yaml}
    (hin : Within ⟨className, .mapping entries, d⟩ s last)
    (hrecord : ∀ entry ∈ entries, entry.1.IsRecordKey) (hdistinct : DistinctEntries entries)
    (hentry : entries[i]? = some (key, w))
    (hlast : ∀ other ∈ entries.drop (i + 1), ¬ SameDescription key other.1) :
    let t : Task := ⟨className, .mapping entries, d⟩
    ∃ x part, t.Fills last (.field key) x part ∧ part.value = w ∧ part.className = none ∧ part ∈ t.calls := by
  intro t
  have hnumbered : last.Numbered := (Draft.numbered_empty s).steps hin.steps
  have hsound : last.Sound := (Draft.sound_empty s).steps hin.steps
  obtain ⟨keys, hkeys⟩ := Option.isSome_iff_exists.1
    ((recordKeys_isSome_iff (d := registerClass className d)).2 hrecord)
  obtain ⟨id, r, hid, hnode, hfills⟩ :=
    exists_fillsRecord hnumbered hsound hdistinct (Prod.ext hkeys rfl) hin.after
  have hpart : (t.calls.map (·.value))[i]? = some w := by
    rw [hfills.parts, List.getElem?_map, hentry]
    rfl
  rw [List.getElem?_map, Option.map_eq_some_iff] at hpart
  obtain ⟨part, hpart, rfl⟩ := hpart
  obtain ⟨k, hnames, hget⟩ := hfills.last i _ part hentry hpart hlast
  obtain ⟨j, hhas⟩ := hnames.exists_has hnumbered hsound hnode hget
  have hmem : part ∈ t.calls := List.mem_of_getElem? hpart
  exact ⟨_, part, ⟨hid, hhas, ⟨k, hnames, rfl⟩, rfl⟩, rfl, className_of_mem_calls rfl hmem, hmem⟩

theorem exists_fills_entry {className : Option String} {entries : List (Yaml × Yaml)} {i : Nat} {key : Yaml}
    (hin : Within ⟨className, .mapping entries, d⟩ s last) (hmap : ∃ entry ∈ entries, ¬ entry.1.IsRecordKey)
    (hentry : entries[i]? = some (key, w)) :
    let t : Task := ⟨className, .mapping entries, d⟩
    ∃ x part, t.Fills last (.entry i) x part ∧ part.value = w ∧ part.className = none ∧ part ∈ t.calls := by
  intro t
  have hkeys : (recordKeys entries (registerClass className d)).1 = none := by
    obtain ⟨entry, hmem, hother⟩ := hmap
    refine Option.eq_none_iff_forall_not_mem.2 fun keys hkeys => hother ?_
    exact recordKeys_isSome_iff.1 (Option.isSome_iff_exists.2 ⟨keys, hkeys⟩) entry hmem
  obtain ⟨hcalls, hrun⟩ := run_mapping_map (Prod.ext hkeys rfl)
  rw [← map_value_inPairs entries (recordKeys entries (registerClass className d)).2, List.getElem?_map,
    Option.map_eq_some_iff] at hentry
  obtain ⟨⟨keyPart, part⟩, hpair, heq⟩ := hentry
  obtain rfl : part.value = w := congrArg Prod.snd heq
  have hmem : part ∈ t.calls := by
    rw [hcalls]
    exact List.mem_flatMap.2 ⟨_, List.mem_of_getElem? hpair, by simp⟩
  have hafter := Draft.Steps.growsTo hin.after
  rw [hrun] at hafter
  refine ⟨⟨_, _, i, ⟨.entry keyPart.run.1, .stored part.run.1⟩⟩, part, ⟨congrArg Prod.fst hrun,
    ⟨hafter _ _ (Graph.node?_add ..), ?_⟩, ⟨rfl, _, rfl⟩, rfl⟩, rfl, className_of_mem_calls rfl hmem, hmem⟩
  simp [Container.slots, hpair]

/-- A collection has a slot for each of its parts, whatever class it stands under. -/
theorem exists_fills_of_holds {className : Option String} {v : Yaml} (hin : Within ⟨className, v, d⟩ s last)
    (h : v.Holds turn w) :
    let t : Task := ⟨className, v, d⟩
    ∃ x part, t.Fills last turn x part ∧ part.value = w ∧ part.className = none ∧ part ∈ t.calls := by
  cases h with
  | item hitem => exact exists_fills_item hin hitem
  | field hrecord hdistinct hentry hlast => exact exists_fills_field hin hrecord hdistinct hentry hlast
  | entry hmap hentry => exact exists_fills_entry hin hmap hentry

/-! ## Tags -/

/-- A tag of a class passes the class on to the value under it. -/
theorem run_tagged {name : String} {v : Yaml} (hsymbol : name ≠ symbolTag) (hcallable : name ≠ callableTag) :
    run ⟨none, .tagged name v, d⟩ = run ⟨some name, v, d⟩ ∧
      calls ⟨none, .tagged name v, d⟩ = [⟨some name, v, d⟩] := by
  constructor
  · change loadAs none (.tagged name v) d = _
    rw [loadAs, if_neg hsymbol, if_neg hcallable]
    rfl
  · simp [calls, hsymbol, hcallable, registerClass]

theorem Within.of_tagged {name : String} {v : Yaml} (hsymbol : name ≠ symbolTag)
    (hcallable : name ≠ callableTag) (hin : Within ⟨none, .tagged name v, d⟩ s last) :
    Within ⟨some name, v, d⟩ s last :=
  hin.of_mem_calls ((run_tagged hsymbol hcallable).2 ▸ List.mem_singleton.2 rfl)

theorem Fills.tagged {name : String} {v : Yaml} {x : Child} (hsymbol : name ≠ symbolTag)
    (hcallable : name ≠ callableTag) (h : Fills ⟨some name, v, d⟩ last turn x part) :
    Fills ⟨none, .tagged name v, d⟩ last turn x part :=
  ⟨(run_tagged hsymbol hcallable).1 ▸ h.node, h.has, h.leads, h.content⟩

/-- What is no collection is loaded as without the class, and then held by an instance. -/
theorem run_held (name : String) {v : Yaml} (hv : v.isCollection = false) (d : Draft) :
    let part : Task := ⟨none, v, registerClass (some name) d⟩
    run ⟨some name, v, d⟩ = hold (some name) part.run.1 part.run.2 := by
  intro part
  change loadAs (some name) v d = hold (some name) (loadAs none v _).1 (loadAs none v _).2
  cases v with
  | sequence items => cases hv
  | mapping entries => cases hv
  | tagged tag inner =>
    rw [loadAs, loadAs]
    rfl
  | null => rfl
  | boolean b => rfl
  | integer n => rfl
  | float x => rfl
  | string s => rfl

theorem exists_fills_held {name : String} {v : Yaml} (hv : v.isCollection = false)
    (hin : Within ⟨some name, v, d⟩ s last) :
    ∃ x part, Fills ⟨some name, v, d⟩ last .held x part ∧ part.value = v ∧ part.className = none ∧
      part.Within s last := by
  let part : Task := ⟨none, v, registerClass (some name) d⟩
  have hrun : run ⟨some name, v, d⟩ = hold (some name) part.run.1 part.run.2 := run_held name hv d
  have hafter := hin.after
  rw [hrun] at hafter
  have hnode := Draft.Steps.growsTo hafter _ _ (Graph.node?_add ..)
  refine ⟨⟨_, _, 0, ⟨.field heldField, .stored part.run.1⟩⟩, part,
    ⟨congrArg Prod.fst hrun, ⟨hnode, rfl⟩, rfl, rfl⟩, rfl, rfl, ?_, ?_⟩
  · exact hin.before.trans (steps_registerClass (some name) d)
  · exact (steps_hold (some name) part.run.1 part.run.2).trans hafter

/-! ## Ways -/

theorem exists_fills_of_turns {v : Yaml} (hin : Within ⟨none, v, d⟩ s last) (h : v.Turns turn w) :
    ∃ x part, Fills ⟨none, v, d⟩ last turn x part ∧ part.value = w ∧ part.className = none ∧
      part.Within s last := by
  cases h with
  | part h =>
    obtain ⟨x, part, hfills, hvalue, hclass, hmem⟩ := exists_fills_of_holds hin h
    exact ⟨x, part, hfills, hvalue, hclass, hin.of_mem_calls hmem⟩
  | tagged hsymbol hcallable h =>
    have hinner := hin.of_tagged hsymbol hcallable
    obtain ⟨x, part, hfills, hvalue, hclass, hmem⟩ := exists_fills_of_holds hinner h
    exact ⟨x, part, hfills.tagged hsymbol hcallable, hvalue, hclass, hinner.of_mem_calls hmem⟩
  | held hsymbol hcallable hv =>
    obtain ⟨x, part, hfills, hvalue, hclass, hpart⟩ := exists_fills_held hv (hin.of_tagged hsymbol hcallable)
    exact ⟨x, part, hfills.tagged hsymbol hcallable, hvalue, hclass, hpart⟩

/-- The turns to a place are followed by a walk to what was loaded for it. -/
theorem exists_walk_of_at {v : Yaml} (hin : Within ⟨none, v, d⟩ s last) (h : v.At turns w) :
    ∃ (way : Way) (part : Task), last.graph.Walk Scope.everything.CanCross (run ⟨none, v, d⟩).1 way part.run.1 ∧
      List.Forall₂ (Turn.LeadsTo last.graph) turns way ∧
      part.value = w ∧ part.className = none ∧ part.Within s last := by
  induction h generalizing d with
  | here v => exact ⟨[], _, .here _, .nil, rfl, rfl, hin⟩
  | turn hturn _ ih =>
    obtain ⟨x, ⟨_, _, d'⟩, hfills, rfl, rfl, hpart⟩ := exists_fills_of_turns hin hturn
    obtain ⟨way, part, hwalk, hleads, hvalue, hclass, hin⟩ := ih hpart
    refine ⟨x :: way, part, ?_, .cons hfills.leads hleads, hvalue, hclass, hin⟩
    rw [hfills.node]
    exact .cross hfills.has ⟨rfl, [], by rw [hfills.content]; rfl⟩ hwalk

end Task

end Yaml

end ObjectGraph
