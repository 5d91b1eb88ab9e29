-- SUMMARY: Mappings keep their entries, in order: only symbols of one description share a field.
import ObjectGraph.Proofs.Document.Identity
import ObjectGraph.Proofs.Document.Loaded

/-! # Entries of mappings

Loading a value calls itself for the parts of the value (`Yaml.Task.calls`). A
mapping with other keys than strings and symbols becomes a map with an entry for
each of its own; only some of the keys may be equal as values
(`Yaml.Task.FillsMap`). All others become records, which have a field for each
entry unless two symbols have one description; then the last value counts
(`Yaml.Task.FillsRecord`). Both are put together in `Document.mapping_keeps_entries`.
-/

namespace ObjectGraph

/-! ## Fields of a record -/

theorem Key.beq_of_beq_of_beq {a b c : Key} (hab : (a == b) = true) (hac : (a == c) = true) :
    (b == c) = true := by
  cases a <;> cases b <;> cases c <;> simp_all [BEq.beq, Key.equals]

theorem Key.beq_comm (a b : Key) : (a == b) = (b == a) := by
  cases a <;> cases b <;> simp [BEq.beq, Key.equals, eq_comm]

namespace Record

theorem get?_insert_self (r : Record) (key : Key) (p : Property) : (r.insert key p).get? key = some p := by
  change ((insertField key p r.fields).find? (·.1 == key)).map (·.2) = some p
  induction r.fields with
  | nil =>
    have hkey : (key == key) = true := by cases key <;> simp [BEq.beq, Key.equals]
    simp [insertField, hkey]
  | cons field rest ih =>
    obtain ⟨k, q⟩ := field
    by_cases hk : (k == key) = true <;> simp [insertField, hk, ih]

theorem get?_insert_of_ne (r : Record) {key other : Key} (p : Property) (hne : (key == other) = false) :
    (r.insert key p).get? other = r.get? other := by
  change ((insertField key p r.fields).find? (·.1 == other)).map (·.2) = _
  unfold get?
  induction r.fields with
  | nil => simp [insertField, hne]
  | cons field rest ih =>
    obtain ⟨k, q⟩ := field
    by_cases hk : (k == key) = true
    · have hother : (k == other) = false := by
        refine Bool.eq_false_iff.2 fun h => ?_
        rw [Key.beq_of_beq_of_beq hk h] at hne
        cases hne
      simp [insertField, hk, hother]
    · by_cases hother : (k == other) = true <;> simp_all [insertField]

/-- A field is added where no field has an equal key; else there are as many as before. -/
theorem insert_cases (r : Record) (key : Key) (p : Property) :
    (r.insert key p).size = r.size ∨
      (∀ field ∈ r.fields, (field.1 == key) = false) ∧ (r.insert key p).fields = r.fields ++ [(key, p)] := by
  by_cases hnew : ∀ field ∈ r.fields, (field.1 == key) = false
  · exact .inr ⟨hnew, insertField_of_new hnew⟩
  · have hany : r.fields.any (·.1 == key) = true := by simpa using hnew
    have hkeys := keys_insertField key p r.fields
    rw [if_pos hany] at hkeys
    exact .inl (by simpa [size, insert] using congrArg List.length hkeys)

/-- Put stored values under keys, one after the other. -/
abbrev insertAll (r : Record) (pairs : List (Key × Value)) : Record :=
  pairs.foldl (fun (r : Record) (key, v) => r.insert key ⟨.stored v, true⟩) r

theorem className_insertAll (r : Record) (pairs : List (Key × Value)) :
    (r.insertAll pairs).className = r.className := by
  induction pairs generalizing r with
  | nil => rfl
  | cons pair rest ih => exact ih _

theorem get?_insertAll_of_ne {pairs : List (Key × Value)} {key : Key} (r : Record)
    (hne : ∀ pair ∈ pairs, (pair.1 == key) = false) : (r.insertAll pairs).get? key = r.get? key := by
  induction pairs generalizing r with
  | nil => rfl
  | cons pair rest ih =>
    obtain ⟨hfirst, hrest⟩ := List.forall_mem_cons.1 hne
    exact (ih _ hrest).trans (r.get?_insert_of_ne _ hfirst)

/-- Of the values under one key the last one counts. -/
theorem get?_insertAll (r : Record) (before : List (Key × Value)) (key : Key) (v : Value)
    {after : List (Key × Value)} (hlast : ∀ pair ∈ after, (pair.1 == key) = false) :
    (r.insertAll (before ++ (key, v) :: after)).get? key = some ⟨.stored v, true⟩ := by
  rw [insertAll, List.foldl_append, List.foldl_cons]
  exact (get?_insertAll_of_ne _ hlast).trans (get?_insert_self ..)

theorem size_insertAll_le (r : Record) (pairs : List (Key × Value)) :
    (r.insertAll pairs).size ≤ r.size + pairs.length := by
  induction pairs generalizing r with
  | nil => exact Nat.le_refl _
  | cons pair rest ih =>
    have hrest := ih (r.insert pair.1 ⟨.stored pair.2, true⟩)
    rw [List.length_cons]
    refine Nat.le_trans hrest ?_
    rcases r.insert_cases pair.1 ⟨.stored pair.2, true⟩ with hsize | ⟨-, hfields⟩
    · omega
    · have hsize : (r.insert pair.1 ⟨.stored pair.2, true⟩).size = r.size + 1 := by simp [size, hfields]
      omega

/-- If each pair has added a field, then all their keys were new. -/
theorem distinctKeys_of_size_insertAll {r : Record} {pairs : List (Key × Value)}
    (hsize : (r.insertAll pairs).size = r.size + pairs.length) :
    DistinctKeys (pairs.map Prod.fst) ∧
      ∀ field ∈ r.fields, ∀ pair ∈ pairs, (field.1 == pair.1) = false := by
  induction pairs generalizing r with
  | nil => exact ⟨.nil, by simp⟩
  | cons pair rest ih =>
    have hle := size_insertAll_le (r.insert pair.1 ⟨.stored pair.2, true⟩) rest
    change ((r.insert pair.1 ⟨.stored pair.2, true⟩).insertAll rest).size = _ at hsize
    rw [List.length_cons] at hsize
    rcases r.insert_cases pair.1 ⟨.stored pair.2, true⟩ with hsame | ⟨hnew, hfields⟩
    · omega
    · have hone : (r.insert pair.1 ⟨.stored pair.2, true⟩).size = r.size + 1 := by simp [size, hfields]
      obtain ⟨hdistinct, hrest⟩ := ih (r := r.insert pair.1 ⟨.stored pair.2, true⟩) (by omega)
      rw [hfields] at hrest
      obtain ⟨hold, hpair⟩ := List.forall_mem_append.1 hrest
      refine ⟨List.pairwise_cons.2 ⟨?_, hdistinct⟩, fun field hfield => ?_⟩
      · exact List.forall_mem_map.2 (hpair _ (List.mem_singleton.2 rfl))
      · exact List.forall_mem_cons.2 ⟨hnew field hfield, hold field hfield⟩

end Record

/-! ## The calls of the loader -/

namespace Yaml

/-- A call of the loader: a value, the class it stands under, and the draft before. -/
structure Task where
  className : Option String
  value : Yaml
  draft : Draft

namespace Task

/-- What the call gives: the value that was loaded, and the draft after. -/
def run (t : Task) : Value × Draft := loadAs t.className t.value t.draft

/-- The calls for values that are loaded one after the other. -/
def inTurn : List Yaml → Draft → List Task
  | [], _ => []
  | v :: rest, d =>
    let first : Task := ⟨none, v, d⟩
    first :: inTurn rest first.run.2

/-- The calls for keys and values that are loaded one after the other. -/
def inPairs : List (Yaml × Yaml) → Draft → List (Task × Task)
  | [], _ => []
  | (k, v) :: rest, d =>
    let key : Task := ⟨none, k, d⟩
    let value : Task := ⟨none, v, key.run.2⟩
    (key, value) :: inPairs rest value.run.2

/-- The calls that a call makes itself, in order. -/
def calls (t : Task) : List Task :=
  match t.value with
  | .sequence items => inTurn items t.draft
  | .mapping entries =>
    match recordKeys entries (registerClass t.className t.draft) with
    | (some _, d) => inTurn (entries.map Prod.snd) d
    | (none, d) => (inPairs entries d).flatMap fun (key, value) => [key, value]
  | .tagged name inner =>
    if name = symbolTag ∨ name = callableTag then []
    else [⟨some name, inner, registerClass t.className t.draft⟩]
  | _ => []

/-- The second call is made on behalf of the first one. -/
def Involves : Task → Task → Prop := Relation.ReflTransGen fun t t' => t' ∈ t.calls

/-- The call that loads a whole document. -/
def start (v : Yaml) (s : Supply) : Task := ⟨none, v, ⟨.empty, s⟩⟩

variable {t t' : Task} {d : Draft}

theorem loadItems_eq (items : List Yaml) (d : Draft) :
    (loadItems items d).1 = (inTurn items d).map (·.run.1) := by
  induction items generalizing d with
  | nil => rw [loadItems, inTurn, List.map_nil]
  | cons item rest ih =>
    rw [loadItems, inTurn, List.map_cons, ← ih]
    rfl

theorem loadValues_eq (entries : List (Yaml × Yaml)) (d : Draft) :
    loadValues entries d = loadItems (entries.map Prod.snd) d := by
  induction entries generalizing d with
  | nil => rw [loadValues, List.map_nil, loadItems]
  | cons entry rest ih => simp only [loadValues, List.map_cons, loadItems, ih]

theorem loadEntries_eq (entries : List (Yaml × Yaml)) (d : Draft) :
    (loadEntries entries d).1 = (inPairs entries d).map fun (key, value) => (key.run.1, value.run.1) := by
  induction entries generalizing d with
  | nil => rw [loadEntries, inPairs, List.map_nil]
  | cons entry rest ih =>
    rw [loadEntries, inPairs, List.map_cons, ← ih]
    rfl

theorem map_value_inTurn (vs : List Yaml) (d : Draft) : (inTurn vs d).map (·.value) = vs := by
  induction vs generalizing d with
  | nil => rfl
  | cons v rest ih => rw [inTurn, List.map_cons, ih]

theorem map_value_inPairs (entries : List (Yaml × Yaml)) (d : Draft) :
    (inPairs entries d).map (fun (key, value) => (key.value, value.value)) = entries := by
  induction entries generalizing d with
  | nil => rfl
  | cons entry rest ih => rw [inPairs, List.map_cons, ih]

theorem steps_run (t : Task) : t.draft.Steps t.run.2 := steps_loadAs ..

/-- Loading one value after the other passes through each of the calls. -/
theorem steps_of_mem_inTurn {vs : List Yaml} (ht : t ∈ inTurn vs d) :
    t.className = none ∧ d.Steps t.draft ∧ t.run.2.Steps (loadItems vs d).2 := by
  induction vs generalizing d with
  | nil => simp [inTurn] at ht
  | cons v rest ih =>
    rw [loadItems]
    rcases List.mem_cons.1 ht with rfl | ht
    · exact ⟨rfl, .refl, steps_loadItems rest _⟩
    · obtain ⟨hclass, hbefore, hafter⟩ := ih ht
      exact ⟨hclass, (steps_run ⟨none, v, d⟩).trans hbefore, hafter⟩

theorem steps_of_mem_inPairs {entries : List (Yaml × Yaml)} {p : Task × Task}
    (hp : p ∈ inPairs entries d) :
    (p.1.className = none ∧ p.2.className = none) ∧ d.Steps p.1.draft ∧ p.1.run.2.Steps p.2.draft ∧
      p.2.run.2.Steps (loadEntries entries d).2 := by
  induction entries generalizing d with
  | nil => simp [inPairs] at hp
  | cons entry rest ih =>
    obtain ⟨k, v⟩ := entry
    rw [loadEntries]
    rcases List.mem_cons.1 hp with rfl | hp
    · exact ⟨⟨rfl, rfl⟩, .refl, .refl, steps_loadEntries rest _⟩
    · obtain ⟨hclass, hbefore, hbetween, hafter⟩ := ih hp
      exact ⟨hclass, ((steps_run ⟨none, k, d⟩).trans (steps_run ⟨none, v, _⟩)).trans hbefore,
        hbetween, hafter⟩

theorem steps_of_recordKeys {className : Option String} {entries : List (Yaml × Yaml)}
    {keys : Option (List Key)} {d' : Draft}
    (h : recordKeys entries (registerClass className d) = (keys, d')) : d.Steps d' := by
  have hsteps := (steps_registerClass className d).trans (steps_recordKeys entries _)
  rwa [h] at hsteps

/-- A call on behalf of another one starts and ends while that one is carried out. -/
theorem steps_of_mem_calls (ht : t' ∈ t.calls) :
    t.draft.Steps t'.draft ∧ t'.run.2.Steps t.run.2 := by
  obtain ⟨className, v, d⟩ := t
  match v with
  | .sequence items =>
    obtain ⟨-, hbefore, hafter⟩ := steps_of_mem_inTurn ht
    refine ⟨hbefore, ?_⟩
    change t'.run.2.Steps (loadAs className (.sequence items) d).2
    rw [loadAs]
    exact hafter.tail (.add (Container.loadable_sequence _ _))
  | .mapping entries =>
    change _ ∧ t'.run.2.Steps (loadAs className (.mapping entries) d).2
    rw [loadAs]
    simp only [calls] at ht
    cases heq : recordKeys entries (registerClass className d) with
    | mk keys d' =>
      have hkeys : d.Steps d' := steps_of_recordKeys heq
      rw [heq] at ht
      cases keys with
      | some keys =>
        obtain ⟨-, hbefore, hafter⟩ := steps_of_mem_inTurn ht
        rw [← loadValues_eq] at hafter
        refine ⟨hkeys.trans hbefore, hafter.tail (.add (loadable_recordOf _ _ fun key hkey => ?_))⟩
        exact (interned_of_recordKeys heq key hkey).mono (steps_loadValues entries d').shared_subset
      | none =>
        obtain ⟨p, hp, ht⟩ := List.mem_flatMap.1 ht
        obtain ⟨-, hbefore, hbetween, hafter⟩ := steps_of_mem_inPairs hp
        have hadd : (loadEntries entries d').2.Steps
            ((loadEntries entries d').2.add (.map (loadEntries entries d').1)).2 :=
          .single (.add (Container.loadable_map _ _))
        rcases List.mem_cons.1 ht with rfl | ht
        · exact ⟨hkeys.trans hbefore, ((hbetween.trans (steps_run p.2)).trans hafter).trans hadd⟩
        · rw [List.mem_singleton.1 ht]
          exact ⟨((hkeys.trans hbefore).trans (steps_run p.1)).trans hbetween, hafter.trans hadd⟩
  | .tagged name inner =>
    simp only [calls] at ht
    split at ht
    · cases ht
    · rename_i hname
      obtain ⟨hsymbol, hcallable⟩ := not_or.1 hname
      obtain rfl := List.mem_singleton.1 ht
      refine ⟨steps_registerClass className d, ?_⟩
      change Draft.Steps _ (loadAs className (.tagged name inner) d).2
      rw [loadAs, if_neg hsymbol, if_neg hcallable]
      exact steps_hold className _ _
  | .null => cases ht
  | .boolean b => cases ht
  | .integer n => cases ht
  | .float x => cases ht
  | .string s => cases ht

theorem Involves.steps (h : t.Involves t') : t.draft.Steps t'.draft ∧ t'.run.2.Steps t.run.2 := by
  induction h with
  | refl => exact ⟨.refl, .refl⟩
  | tail _ hcall ih =>
    obtain ⟨hbefore, hafter⟩ := steps_of_mem_calls hcall
    exact ⟨ih.1.trans hbefore, hafter.trans ih.2⟩

end Task

/-! ## Record keys -/

/-- The mapping key is a string or a symbol. -/
def IsRecordKey (key : Yaml) : Prop := (∃ s, key = .string s) ∨ ∃ inner, key = .tagged symbolTag inner

/-- The record key of a mapping key: its text as a name, or the symbol that the
graph has under its description. -/
inductive Names (g : Graph) : Yaml → Key → Prop
  | name (s : String) : Names g (.string s) (.name s)
  | symbol {inner : Yaml} {s : Symbol} : (labelText inner, s) ∈ g.shared →
    Names g (.tagged symbolTag inner) (.symbol s)

theorem Names.mono {g g' : Graph} {v : Yaml} {key : Key} (h : v.Names g key)
    (hsub : g.shared ⊆ g'.shared) : v.Names g' key := by
  cases h with
  | name s => exact .name s
  | symbol hs => exact .symbol (hsub hs)

/-- Record keys are equal exactly where the mapping keys are symbols of one description. -/
theorem Names.beq_iff {d : Draft} (hnumbered : d.Numbered) (hsound : d.Sound) {v w : Yaml} {a b : Key}
    (ha : v.Names d.graph a) (hb : w.Names d.graph b) (hdistinct : same v w = false) :
    (a == b) = true ↔ SameDescription v w := by
  cases ha with
  | name s =>
    have hdescription : ¬ SameDescription (.string s) w := not_sameDescription (.inl fun _ h => by cases h)
    cases hb with
    | name t =>
      have hbeq : (s == t) = false := hdistinct
      have hkeys : (Key.name s == Key.name t) = false := hbeq
      simp [hkeys, hdescription]
    | symbol => exact iff_of_false Bool.false_ne_true hdescription
  | @symbol inner s hs =>
    cases hb with
    | name t =>
      exact iff_of_false Bool.false_ne_true (not_sameDescription (.inr fun _ h => by cases h))
    | @symbol inner' t ht =>
      have hbeq : (s == t) = true ↔ labelText inner = labelText inner' := hnumbered.beq_iff hsound hs ht
      constructor
      · exact fun h => ⟨inner, inner', rfl, rfl, hbeq.1 h⟩
      · rintro ⟨a, b, ha, hb, hlabel⟩
        cases ha
        cases hb
        exact hbeq.2 hlabel

theorem names_of_recordKey {key : Yaml} {k : Key} {d d' : Draft} (h : recordKey key d = (some k, d')) :
    key.Names d'.graph k := by
  unfold recordKey at h
  split at h
  · cases h
    exact .name _
  · split at h
    · rename_i hsymbol
      subst hsymbol
      cases h
      exact .symbol (d.sharedSymbol_entry_mem _)
    · cases h
  · cases h

theorem recordKey_eq_none_iff {key : Yaml} {d : Draft} : (recordKey key d).1 = none ↔ ¬ key.IsRecordKey := by
  unfold recordKey IsRecordKey
  split
  · simp
  · rename_i name v
    split <;> simp_all
  · rename_i hstring htagged
    simp only [true_iff, not_or, not_exists]
    exact ⟨hstring, fun inner => htagged _ _⟩

theorem forall₂_recordKeys {entries : List (Yaml × Yaml)} {keys : List Key} {d d' : Draft}
    (h : recordKeys entries d = (some keys, d')) :
    List.Forall₂ (fun entry key => entry.1.Names d'.graph key) entries keys := by
  induction entries generalizing d keys with
  | nil =>
    cases h
    exact .nil
  | cons entry rest ih =>
    obtain ⟨key, v⟩ := entry
    unfold recordKeys at h
    split at h
    · cases h
    · rename_i k d₁ hkey
      split at h
      · cases h
      · rename_i ks d₂ hrest
        cases h
        have hsub := (steps_recordKeys rest d₁).shared_subset
        rw [hrest] at hsub
        exact .cons ((names_of_recordKey hkey).mono hsub) (ih hrest)

/-- A mapping becomes a record exactly if all its keys stand for record keys. -/
theorem recordKeys_isSome_iff {entries : List (Yaml × Yaml)} {d : Draft} :
    (recordKeys entries d).1.isSome = true ↔ ∀ entry ∈ entries, entry.1.IsRecordKey := by
  induction entries generalizing d with
  | nil => simp [recordKeys]
  | cons entry rest ih =>
    obtain ⟨key, v⟩ := entry
    have hfirst := @recordKey_eq_none_iff key d
    rw [List.forall_mem_cons, recordKeys]
    split <;> rename_i heq <;> rw [heq] at hfirst
    · simpa using fun h => absurd h (hfirst.1 rfl)
    · rename_i k d₁
      have hkey : key.IsRecordKey := by simpa using hfirst
      have hrest := ih (d := d₁)
      split <;> rename_i heq' <;> rw [heq'] at hrest <;> simpa [hkey] using hrest

/-! ## What a mapping becomes -/

/-- The keys of the mapping are distinct as YAML values. -/
def DistinctEntries (entries : List (Yaml × Yaml)) : Prop :=
  entries.Pairwise fun a b => same a.1 b.1 = false

/-- No two keys of the mapping are symbols of one description. -/
def DistinctDescriptions (entries : List (Yaml × Yaml)) : Prop :=
  entries.Pairwise fun a b => ¬ SameDescription a.1 b.1

namespace Task

/-- The record has a field for each entry, in order, if no two symbols among the
keys have one description, and otherwise fewer. A field holds the value of the
last entry whose key stands for its own. -/
structure FillsRecord (t : Task) (entries : List (Yaml × Yaml)) (g : Graph) (r : Record) : Prop where
  className : r.className = t.className
  distinct : Record.DistinctKeys (r.fields.map (·.1))
  parts : t.calls.map (·.value) = entries.map Prod.snd
  size_iff : r.size = entries.length ↔ DistinctDescriptions entries
  fields : DistinctDescriptions entries →
    ∃ keys, List.Forall₂ (fun entry key => entry.1.Names g key) entries keys ∧
      r.fields = Record.storedFields keys (t.calls.map (·.run.1))
  last : ∀ (i : Nat) (entry : Yaml × Yaml) (part : Task),
    entries[i]? = some entry → t.calls[i]? = some part →
    (∀ other ∈ entries.drop (i + 1), ¬ SameDescription entry.1 other.1) →
    ∃ key, entry.1.Names g key ∧ r.get? key = some ⟨.stored part.run.1, true⟩

/-- The map has an entry for each entry of the mapping, in order. Two of its keys
are equal exactly if they are numbers that became equal, or symbols of one description. -/
structure FillsMap (t : Task) (entries : List (Yaml × Yaml)) (loaded : List (Value × Value)) : Prop where
  parts : ∃ pairs : List (Task × Task),
    t.calls = pairs.flatMap (fun (key, value) => [key, value]) ∧
    pairs.map (fun (key, value) => (key.value, value.value)) = entries ∧
    pairs.map (fun (key, value) => (key.run.1, value.run.1)) = loaded
  keys : ∀ (i j : Nat) (a b : Yaml × Yaml) (x y : Value × Value), i < j →
    entries[i]? = some a → entries[j]? = some b → loaded[i]? = some x → loaded[j]? = some y →
    ((x.1 == y.1) = true ↔ SameNumber a.1 b.1 ∨ SameDescription a.1 b.1)

variable {className : Option String} {entries : List (Yaml × Yaml)} {keys : List Key} {d d' : Draft}

theorem run_mapping_record (h : recordKeys entries (registerClass className d) = (some keys, d')) :
    let t : Task := ⟨className, .mapping entries, d⟩
    t.calls = inTurn (entries.map Prod.snd) d' ∧
      t.run = (loadValues entries d').2.add (.record (recordOf className keys (t.calls.map (·.run.1)))) := by
  intro t
  have hcalls : t.calls = inTurn (entries.map Prod.snd) d' := by simp only [t, calls, h]
  refine ⟨hcalls, ?_⟩
  change loadAs className (.mapping entries) d = _
  rw [loadAs, h, hcalls, ← loadItems_eq, loadValues_eq]
  simp only [loadValues_eq]

theorem run_mapping_map (h : recordKeys entries (registerClass className d) = (none, d')) :
    let t : Task := ⟨className, .mapping entries, d⟩
    t.calls = (inPairs entries d').flatMap (fun (key, value) => [key, value]) ∧
      t.run = (loadEntries entries d').2.add
        (.map ((inPairs entries d').map fun (key, value) => (key.run.1, value.run.1))) := by
  intro t
  refine ⟨by simp only [t, calls, h], ?_⟩
  change loadAs className (.mapping entries) d = _
  rw [loadAs, h, ← loadEntries_eq]

/-- Keys of one mapping are equal as record keys where their descriptions are. -/
theorem beq_iff_of_names (hnumbered : d.Numbered) (hsound : d.Sound) (hdistinct : DistinctEntries entries)
    (hkeys : List.Forall₂ (fun entry key => entry.1.Names d.graph key) entries keys) {i j : Nat}
    (hij : i < j) (hi : i < entries.length) (hj : j < entries.length) (hi' : i < keys.length)
    (hj' : j < keys.length) :
    (keys[i] == keys[j]) = true ↔ SameDescription entries[i].1 entries[j].1 :=
  (hkeys.get hi hi').beq_iff hnumbered hsound (hkeys.get hj hj')
    (List.pairwise_iff_getElem.1 hdistinct i j hi hj hij)

theorem distinctKeys_iff (hnumbered : d.Numbered) (hsound : d.Sound) (hdistinct : DistinctEntries entries)
    (hkeys : List.Forall₂ (fun entry key => entry.1.Names d.graph key) entries keys) :
    Record.DistinctKeys keys ↔ DistinctDescriptions entries := by
  have hlength := hkeys.length_eq
  rw [Record.DistinctKeys, DistinctDescriptions, List.pairwise_iff_getElem, List.pairwise_iff_getElem]
  constructor
  · intro h i j hi hj hij hsame
    have hbeq := (beq_iff_of_names hnumbered hsound hdistinct hkeys hij hi hj (by omega) (by omega)).2 hsame
    rw [h i j _ _ hij] at hbeq
    cases hbeq
  · intro h i j hi hj hij
    refine Bool.eq_false_iff.2 fun hbeq => h i j (by omega) (by omega) hij ?_
    exact (beq_iff_of_names hnumbered hsound hdistinct hkeys hij (by omega) (by omega) hi hj).1 hbeq

/-- What follows an entry has other record keys, unless its description comes again. -/
theorem beq_eq_false_of_mem_drop (hnumbered : d.Numbered) (hsound : d.Sound)
    (hdistinct : DistinctEntries entries)
    (hkeys : List.Forall₂ (fun entry key => entry.1.Names d.graph key) entries keys) {i : Nat}
    (hi : i < entries.length) (hi' : i < keys.length)
    (hlast : ∀ other ∈ entries.drop (i + 1), ¬ SameDescription entries[i].1 other.1) :
    ∀ key ∈ keys.drop (i + 1), (key == keys[i]) = false := by
  intro key hkey
  obtain ⟨k, hk, rfl⟩ := List.getElem_of_mem hkey
  rw [List.length_drop] at hk
  have hlength := hkeys.length_eq
  have hj : i + 1 + k < entries.length := by omega
  have hother : entries[i + 1 + k] ∈ entries.drop (i + 1) := by
    rw [← List.getElem_drop (h := by rw [List.length_drop]; omega)]
    exact List.getElem_mem _
  rw [List.getElem_drop, Key.beq_comm]
  refine Bool.eq_false_iff.2 fun hbeq => hlast _ hother ?_
  exact (beq_iff_of_names hnumbered hsound hdistinct hkeys (by omega) hi hj hi' (by omega)).1 hbeq

theorem fillsRecord {t : Task} {r : Record} (hnumbered : d.Numbered) (hsound : d.Sound)
    (hdistinct : DistinctEntries entries)
    (hkeys : List.Forall₂ (fun entry key => entry.1.Names d.graph key) entries keys)
    (hparts : t.calls.map (·.value) = entries.map Prod.snd)
    (hr : r = recordOf t.className keys (t.calls.map (·.run.1))) : t.FillsRecord entries d.graph r := by
  have hlength : keys.length = (t.calls.map (·.run.1)).length := by
    rw [List.length_map, ← hkeys.length_eq, ← List.length_map, ← hparts, List.length_map]
  have hall : r = Record.insertAll ⟨t.className, [], .nil⟩ (keys.zip (t.calls.map (·.run.1))) := hr
  have hfields : DistinctDescriptions entries →
      r.fields = Record.storedFields keys (t.calls.map (·.run.1)) := fun h =>
    hr ▸ fields_recordOf _ ((distinctKeys_iff hnumbered hsound hdistinct hkeys).2 h) _
  refine ⟨hall ▸ Record.className_insertAll .., r.distinct, hparts, ⟨fun hsize => ?_, fun h => ?_⟩,
    fun h => ⟨keys, hkeys, hfields h⟩, fun i entry part hentry hpart hlast => ?_⟩
  · have hnew := (@Record.distinctKeys_of_size_insertAll ⟨t.className, [], .nil⟩
      (keys.zip (t.calls.map (·.run.1))) ?_).1
    · rw [List.map_fst_zip (Nat.le_of_eq hlength)] at hnew
      exact (distinctKeys_iff hnumbered hsound hdistinct hkeys).1 hnew
    · have hempty : Record.size ⟨t.className, [], .nil⟩ = 0 := rfl
      rw [← hall, hsize, hempty, List.length_zip, ← hlength, hkeys.length_eq]
      simp
  · simp [Record.size, hfields h, Record.storedFields, ← hlength, hkeys.length_eq]
  · obtain ⟨hi, rfl⟩ := List.getElem?_eq_some_iff.1 hentry
    have hi' : i < keys.length := hkeys.length_eq ▸ hi
    refine ⟨keys[i], hkeys.get hi hi', ?_⟩
    have hpair : (keys.zip (t.calls.map (·.run.1)))[i]? = some (keys[i], part.run.1) := by
      simp [List.getElem?_zip_eq_some, hpart]
    obtain ⟨hzip, hpair⟩ := List.getElem?_eq_some_iff.1 hpair
    rw [hall, ← List.take_append_drop i (keys.zip _), List.drop_eq_getElem_cons hzip, hpair]
    refine Record.get?_insertAll _ _ _ _ fun pair hpair => ?_
    rw [List.zip, List.drop_zipWith] at hpair
    exact beq_eq_false_of_mem_drop hnumbered hsound hdistinct hkeys hi hi' hlast _
      (List.of_mem_zip hpair).1

theorem makes_run {t : Task} (hclass : t.className = none) : Makes t.draft t.run.2 t.value t.run.1 := by
  obtain ⟨_, v, d⟩ := t
  cases hclass
  exact makes_loadAs_none v d

theorem pairwise_inPairs (entries : List (Yaml × Yaml)) (d : Draft) :
    (inPairs entries d).Pairwise fun p p' => p.1.run.2.Steps p'.1.draft := by
  induction entries generalizing d with
  | nil => exact .nil
  | cons entry rest ih =>
    obtain ⟨k, v⟩ := entry
    refine List.pairwise_cons.2 ⟨fun p hp => ?_, ih _⟩
    exact (steps_run ⟨none, v, _⟩).trans (steps_of_mem_inPairs hp).2.1

theorem fillsMap {t : Task} (hnumbered : d.Numbered) (hsound : d.Sound) (hdistinct : DistinctEntries entries)
    (hcalls : t.calls = (inPairs entries d).flatMap (fun (key, value) => [key, value])) :
    t.FillsMap entries ((inPairs entries d).map fun (key, value) => (key.run.1, value.run.1)) := by
  refine ⟨⟨_, hcalls, map_value_inPairs entries d, rfl⟩, ?_⟩
  intro i j a b x y hij ha hb hx hy
  rw [← map_value_inPairs entries d, List.getElem?_map, Option.map_eq_some_iff] at ha hb
  rw [List.getElem?_map, Option.map_eq_some_iff] at hx hy
  obtain ⟨p, hp, rfl⟩ := ha
  obtain ⟨p', hp', rfl⟩ := hb
  obtain ⟨_, hpx, rfl⟩ := hx
  obtain ⟨_, hpy, rfl⟩ := hy
  obtain rfl := Option.some.inj (hp.symm.trans hpx)
  obtain rfl := Option.some.inj (hp'.symm.trans hpy)
  obtain ⟨hi, hpi⟩ := List.getElem?_eq_some_iff.1 hp
  obtain ⟨hj, hpj⟩ := List.getElem?_eq_some_iff.1 hp'
  have hsame : same p.1.value p'.1.value = false := by
    have hpairs := hdistinct
    rw [← map_value_inPairs entries d, DistinctEntries, List.pairwise_map] at hpairs
    exact hpi ▸ hpj ▸ List.pairwise_iff_getElem.1 hpairs i j hi hj hij
  have hbetween : p.1.run.2.Steps p'.1.draft :=
    hpi ▸ hpj ▸ List.pairwise_iff_getElem.1 (pairwise_inPairs entries d) i j hi hj hij
  obtain ⟨⟨hclass, -⟩, -⟩ := steps_of_mem_inPairs (List.mem_of_getElem? hp)
  obtain ⟨⟨hclass', -⟩, hbefore, -⟩ := steps_of_mem_inPairs (List.mem_of_getElem? hp')
  have hafter : d.Steps p'.1.run.2 := hbefore.trans (steps_run p'.1)
  exact beq_iff_of_makes (makes_run hclass) (makes_run hclass') hbetween (steps_run p'.1)
    (hnumbered.steps hafter) (hsound.steps hafter) hsame

/-- With record keys only, a mapping becomes a record; a later draft still has it. -/
theorem exists_fillsRecord {later : Draft} (hnumbered : later.Numbered) (hsound : later.Sound)
    (hdistinct : DistinctEntries entries)
    (hkeys : recordKeys entries (registerClass className d) = (some keys, d'))
    (hafter : (run ⟨className, .mapping entries, d⟩).2.Steps later) :
    let t : Task := ⟨className, .mapping entries, d⟩
    ∃ id r, t.run.1 = .node id ∧ later.graph.node? id = some (.record r) ∧
      t.FillsRecord entries later.graph r := by
  intro t
  obtain ⟨hcalls, hrun⟩ := run_mapping_record hkeys
  rw [hrun] at hafter
  have hadded := Draft.Steps.shared_subset hafter
  have hsub := List.Subset.trans (steps_loadValues entries d').shared_subset hadded
  have hnames := (forall₂_recordKeys hkeys).imp fun _ _ h => Names.mono h hsub
  refine ⟨_, _, congrArg Prod.fst hrun, Draft.Steps.growsTo hafter _ _ (Graph.node?_add ..), ?_⟩
  refine fillsRecord hnumbered hsound hdistinct hnames ?_ rfl
  rw [hcalls, map_value_inTurn]

/-- With another key, a mapping becomes a map; a later draft still has it. -/
theorem exists_fillsMap {later : Draft} (hnumbered : d.Numbered) (hsound : d.Sound)
    (hdistinct : DistinctEntries entries)
    (hkeys : recordKeys entries (registerClass className d) = (none, d'))
    (hafter : (run ⟨className, .mapping entries, d⟩).2.Steps later) :
    let t : Task := ⟨className, .mapping entries, d⟩
    ∃ id loaded, t.run.1 = .node id ∧ later.graph.node? id = some (.map loaded) ∧
      t.FillsMap entries loaded := by
  intro t
  obtain ⟨hcalls, hrun⟩ := run_mapping_map hkeys
  rw [hrun] at hafter
  have hbefore : d.Steps d' := steps_of_recordKeys hkeys
  refine ⟨_, _, congrArg Prod.fst hrun, Draft.Steps.growsTo hafter _ _ (Graph.node?_add ..), ?_⟩
  exact fillsMap (hnumbered.steps hbefore) (hsound.steps hbefore) hdistinct hcalls

/-! ## Every mapping of a document -/

/-- The calls of a mapping load its parts without a class. -/
theorem className_of_mem_calls {t t' : Task} (ht : t.value = .mapping entries) (ht' : t' ∈ t.calls) :
    t'.className = none := by
  obtain ⟨className, _, d⟩ := t
  cases ht
  simp only [calls] at ht'
  split at ht'
  · exact (steps_of_mem_inTurn ht').1
  · obtain ⟨p, hp, ht'⟩ := List.mem_flatMap.1 ht'
    obtain ⟨⟨hkey, hvalue⟩, -⟩ := steps_of_mem_inPairs hp
    rcases List.mem_cons.1 ht' with rfl | ht'
    · exact hkey
    · rwa [List.mem_singleton.1 ht']

end Task

/-- The second value is loaded by a call of its own when the first one is. -/
inductive Part : Yaml → Yaml → Prop
  | item {items : List Yaml} {w : Yaml} : w ∈ items → Part (.sequence items) w
  | value {entries : List (Yaml × Yaml)} {k w : Yaml} : (k, w) ∈ entries → Part (.mapping entries) w
  | key {entries : List (Yaml × Yaml)} {k w : Yaml} : (k, w) ∈ entries →
    (∃ entry ∈ entries, ¬ entry.1.IsRecordKey) → Part (.mapping entries) k
  | inner {name : String} {w : Yaml} : name ≠ symbolTag → name ≠ callableTag → Part (.tagged name w) w

/-- The second value is the first one, or stands somewhere in it. -/
def Contains : Yaml → Yaml → Prop := Relation.ReflTransGen Part

namespace Task

theorem exists_mem_inTurn {vs : List Yaml} {w : Yaml} (hw : w ∈ vs) (d : Draft) :
    ∃ t ∈ inTurn vs d, t.value = w := by
  rwa [← map_value_inTurn vs d, List.mem_map] at hw

theorem exists_mem_calls {t : Task} {w : Yaml} (h : t.value.Part w) : ∃ t' ∈ t.calls, t'.value = w := by
  obtain ⟨className, v, d⟩ := t
  cases h with
  | item hw => exact exists_mem_inTurn hw d
  | @value entries k w hw =>
    simp only [calls]
    split
    · exact exists_mem_inTurn (List.mem_map.2 ⟨_, hw, rfl⟩) _
    · rename_i d' _
      rw [← map_value_inPairs entries d', List.mem_map] at hw
      obtain ⟨p, hp, heq⟩ := hw
      exact ⟨p.2, List.mem_flatMap.2 ⟨p, hp, by simp⟩, congrArg Prod.snd heq⟩
  | @key entries _ v hw hother =>
    have hkeys := @recordKeys_isSome_iff entries (registerClass className d)
    simp only [calls]
    split
    · rename_i keys d' heq
      rw [heq] at hkeys
      obtain ⟨entry, hentry, hne⟩ := hother
      exact absurd (hkeys.1 rfl entry hentry) hne
    · rename_i d' _
      rw [← map_value_inPairs entries d', List.mem_map] at hw
      obtain ⟨p, hp, heq⟩ := hw
      exact ⟨p.1, List.mem_flatMap.2 ⟨p, hp, by simp⟩, congrArg Prod.fst heq⟩
  | inner hsymbol hcallable =>
    simp only [calls, hsymbol, hcallable, or_self, if_false]
    exact ⟨_, List.mem_singleton.2 rfl, rfl⟩

/-- Whatever stands in a value is loaded when the value is. -/
theorem exists_involves {t : Task} {w : Yaml} (h : t.value.Contains w) :
    ∃ t', t.Involves t' ∧ t'.value = w := by
  induction h with
  | refl => exact ⟨t, .refl, rfl⟩
  | tail _ hpart ih =>
    obtain ⟨t', hcall, rfl⟩ := ih
    obtain ⟨t'', ht'', hvalue⟩ := exists_mem_calls hpart
    exact ⟨t'', hcall.tail ht'', hvalue⟩

end Task

end Yaml

namespace Document

open Yaml

/-- Each mapping of a document becomes a record or a map with its entries. -/
theorem mapping_keeps_entries (v : Yaml) (s : Supply) {entries : List (Yaml × Yaml)}
    (hmapping : v.Contains (.mapping entries)) (hdistinct : DistinctEntries entries) :
    let g := (ofYaml v s).1.graph
    (∃ t, (Task.start v s).Involves t ∧ t.value = .mapping entries) ∧
    ∀ t, (Task.start v s).Involves t → t.value = .mapping entries →
      ∃ id, t.run.1 = .node id ∧ (∀ part ∈ t.calls, part.className = none) ∧
        ((∀ entry ∈ entries, entry.1.IsRecordKey) →
          ∃ r, g.node? id = some (.record r) ∧ t.FillsRecord entries g r) ∧
        ((∃ entry ∈ entries, ¬ entry.1.IsRecordKey) →
          ∃ loaded, g.node? id = some (.map loaded) ∧ t.FillsMap entries loaded) := by
  intro g
  refine ⟨Task.exists_involves hmapping, fun t hcall hvalue => ?_⟩
  have hbefore : Draft.Steps ⟨.empty, s⟩ t.draft := hcall.steps.1
  have hafter : t.run.2.Steps (Task.start v s).run.2 := hcall.steps.2
  have hall : Draft.Steps ⟨.empty, s⟩ (Task.start v s).run.2 := Task.steps_run (Task.start v s)
  have hclass := fun part (hpart : part ∈ t.calls) => Task.className_of_mem_calls hvalue hpart
  obtain ⟨className, _, d⟩ := t
  cases hvalue
  have hkind := @recordKeys_isSome_iff entries (registerClass className d)
  cases hkeys : recordKeys entries (registerClass className d) with
  | mk keys d' =>
    rw [hkeys] at hkind
    cases keys with
    | some keys =>
      obtain ⟨id, r, hid, hnode, hfills⟩ := Task.exists_fillsRecord ((Draft.numbered_empty s).steps hall)
        ((Draft.sound_empty s).steps hall) hdistinct hkeys hafter
      refine ⟨id, hid, hclass, fun _ => ⟨r, hnode, hfills⟩, ?_⟩
      rintro ⟨entry, hentry, hother⟩
      exact absurd (hkind.1 rfl entry hentry) hother
    | none =>
      obtain ⟨id, loaded, hid, hnode, hfills⟩ := Task.exists_fillsMap ((Draft.numbered_empty s).steps hbefore)
        ((Draft.sound_empty s).steps hbefore) hdistinct hkeys hafter
      exact ⟨id, hid, hclass, fun h => absurd (hkind.2 h) Bool.false_ne_true, fun _ => ⟨loaded, hnode, hfills⟩⟩

/-- One as an integer and as a floating-point number. -/
def ones : List (Yaml × Yaml) :=
  [(.integer 1, .string "a"), (.float ⟨0x3ff0000000000000⟩, .string "b")]

theorem mapping_keeps_entries_ones :
    let v : Yaml := .sequence [.mapping ones]
    (v.Contains (.mapping ones) ∧ DistinctEntries ones) ∧
    ∃ (t : Yaml.Task) (id : NodeId) (loaded : List (Value × Value)), t.value = .mapping ones ∧ t.run.1 = .node id ∧
      (ofYaml v .initial).1.graph.node? id = some (.map loaded) ∧ t.FillsMap ones loaded := by
  intro v
  have hcontains : v.Contains (.mapping ones) := .single (.item (List.mem_singleton.2 rfl))
  have hdistinct : DistinctEntries ones := .cons (by decide) (List.pairwise_singleton ..)
  refine ⟨⟨hcontains, hdistinct⟩, ?_⟩
  obtain ⟨⟨t, hcall, hvalue⟩, hall⟩ := mapping_keeps_entries v .initial hcontains hdistinct
  obtain ⟨id, hid, -, -, hmap⟩ := hall t hcall hvalue
  obtain ⟨loaded, hnode, hfills⟩ := hmap ⟨_, List.mem_cons_self .., by simp [IsRecordKey]⟩
  exact ⟨t, id, loaded, hvalue, hid, hnode, hfills⟩

/-- Two symbols of one description as an integer and as a string. -/
def symbols : List (Yaml × Yaml) :=
  [(.tagged symbolTag (.integer 1), .string "a"), (.tagged symbolTag (.string "1"), .string "b")]

/-- Two entries may share a field, and equal keys may stand in one map. -/
theorem mapping_shares_field :
    (DistinctEntries symbols ∧
      ∃ r, (ofYaml (.mapping symbols) .initial).1 = ⟨{ Graph.empty with
        nodes := #[.record r], shared := [("1", ⟨0, some "1"⟩)] }, .node ⟨0⟩⟩ ∧
        r.fields = [(.symbol ⟨0, some "1"⟩, ⟨.stored (.string "b"), true⟩)]) ∧
    DistinctEntries ones ∧
      ∃ x y, (ofYaml (.mapping ones) .initial).1 = ⟨{ Graph.empty with
        nodes := #[.map [(x, .string "a"), (y, .string "b")]] }, .node ⟨0⟩⟩ ∧ (x == y) = true := by
  refine ⟨⟨.cons (by decide) (List.pairwise_singleton ..), _, rfl, rfl⟩,
    .cons (by decide) (List.pairwise_singleton ..), .number (.integer 1),
    .number (.float ⟨0x3ff0000000000000⟩), rfl, by decide +kernel⟩

end Document

end ObjectGraph
