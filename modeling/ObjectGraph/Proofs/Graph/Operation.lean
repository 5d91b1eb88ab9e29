-- SUMMARY: The operations on graphs: what makes one fail, what it changes, and what runs of them keep.
import ObjectGraph.Proofs.Document.Loaded

/-! # Operations

A graph is built by twelve operations (`Operation`). Here each is told twice: as
the function on graphs that it is (`Operation.apply`), and as a program that
changes a draft step by step and may fail on its way (`Operation.perform`). The two
agree, so a failing operation has changed nothing (`Operation.perform_eq`). One
inversion says what an operation can do to the arena (`Operation.effect_of_apply`),
and from it follows what any run of operations keeps (`Operation.perform_after_run`).
-/

namespace ObjectGraph

/-! ## Edits of containers -/

/-- A change of the container at a place, which must be of this kind. -/
structure Edit where
  id : NodeId
  kind : Kind
  change : Container → Option Container

namespace Edit

def record (id : NodeId) (f : Record → Record) : Edit :=
  ⟨id, .record, fun c => c.record?.map fun r => .record (f r)⟩

def sequence (id : NodeId) (f : List Value → List Value) : Edit :=
  ⟨id, .sequence, fun c => c.sequence?.map fun items => .sequence (f items)⟩

def map (id : NodeId) (f : List (Value × Value) → List (Value × Value)) : Edit :=
  ⟨id, .map, fun c => c.map?.map fun entries => .map (f entries)⟩

/-- The edit is for the containers of its kind, and leaves them what they are. -/
structure Lawful (e : Edit) : Prop where
  isSome_iff : ∀ c, (e.change c).isSome = true ↔ c.kind = e.kind
  keeps : ∀ c c', e.change c = some c' → c'.kind = c.kind ∧ c'.className = c.className

theorem lawful_record (id : NodeId) {f : Record → Record} (hf : ∀ r, (f r).className = r.className) :
    (record id f).Lawful where
  isSome_iff c := by cases c <;> simp [record, Container.record?, Container.kind]
  keeps c c' h := by
    cases c <;> cases h
    exact ⟨rfl, hf _⟩

theorem lawful_sequence (id : NodeId) (f : List Value → List Value) : (sequence id f).Lawful where
  isSome_iff c := by cases c <;> simp [sequence, Container.sequence?, Container.kind]
  keeps c c' h := by
    cases c <;> cases h
    exact ⟨rfl, rfl⟩

theorem lawful_map (id : NodeId) (f : List (Value × Value) → List (Value × Value)) :
    (map id f).Lawful where
  isSome_iff c := by cases c <;> simp [map, Container.map?, Container.kind]
  keeps c c' h := by
    cases c <;> cases h
    exact ⟨rfl, rfl⟩

end Edit

namespace Graph

/-- Make an edit, if there is a container of its kind at its place. -/
def edit (g : Graph) (e : Edit) : Except GraphError Graph :=
  match g.node? e.id with
  | some c => match e.change c with
    | some c' => .ok (g.put e.id c')
    | none => .error (.kindMismatch e.id e.kind)
  | none => .error (.nodeNotFound e.id)

variable {g : Graph}

theorem updateRecord_eq (id : NodeId) (f : Record → Record) : g.updateRecord id f = g.edit (.record id f) := by
  simp only [updateRecord, edit, Edit.record]
  rcases g.node? id with _ | _ | _ | _ <;> rfl

theorem push_eq (id : NodeId) (item : Value) :
    g.push id item = g.edit (.sequence id fun items => items ++ [item]) := by
  simp only [push, edit, Edit.sequence]
  rcases g.node? id with _ | _ | _ | _ <;> rfl

theorem insertEntry_eq (id : NodeId) (key value : Value) :
    g.insertEntry id key value = g.edit (.map id (Container.insertEntry key value)) := by
  simp only [insertEntry, edit, Edit.map]
  rcases g.node? id with _ | _ | _ | _ <;> rfl

theorem node?_put (c : Container) (id id' : NodeId) :
    (g.put id c).node? id' = if id' = id then (g.node? id).map fun _ => c else g.node? id' := by
  simp only [put, node?, Array.getElem?_setIfInBounds]
  by_cases h : id' = id
  · subst h
    by_cases hid : id'.index < g.nodes.size <;> simp [hid]
  · have hne : id.index ≠ id'.index := fun heq => h (by cases id; cases id'; simp_all)
    simp [h, hne]

end Graph

/-! ## Operations -/

inductive Operation where
  | addRecord
  | addInstance (className : String)
  | addSequence (items : List Value)
  | addMap
  | set (id : NodeId) (key : Key) (value : Value)
  | setHidden (id : NodeId) (key : Key) (value : Value)
  | setAccessor (id : NodeId) (key : Key) (a : Accessor)
  | push (id : NodeId) (item : Value)
  | insertEntry (id : NodeId) (key value : Value)
  | register (className : String)
  | registerSubclass (className parent : String)
  | sharedSymbol (description : String)

/-- What an operation answers. -/
inductive Reply where
  | done
  | node (id : NodeId)
  | symbol (s : Symbol)

namespace Draft

def added (d : Draft) : NodeId × Graph → Reply × Draft
  | (id, graph) => (.node id, { d with graph })

def changed (d : Draft) (graph : Graph) : Reply × Draft := (.done, { d with graph })

end Draft

namespace Operation

/-- The operation as the function on graphs that it is. -/
def apply (o : Operation) (d : Draft) : Except GraphError (Reply × Draft) :=
  match o with
  | .addRecord => .ok (d.added d.graph.addRecord)
  | .addInstance className => (d.graph.addInstance className).map d.added
  | .addSequence items => .ok (d.added (d.graph.addSequence items))
  | .addMap => .ok (d.added d.graph.addMap)
  | .set id key value => (d.graph.set id key value).map d.changed
  | .setHidden id key value => (d.graph.setHidden id key value).map d.changed
  | .setAccessor id key a => (d.graph.setAccessor id key a).map d.changed
  | .push id item => (d.graph.push id item).map d.changed
  | .insertEntry id key value => (d.graph.insertEntry id key value).map d.changed
  | .register className => .ok (d.changed (d.graph.register className))
  | .registerSubclass className parent => (d.graph.registerSubclass className parent).map d.changed
  | .sharedSymbol description =>
    let (s, d) := d.sharedSymbol description
    .ok (.symbol s, d)

/-- The container that the operation adds. -/
def container? : Operation → Option Container
  | .addRecord => some (.record .empty)
  | .addInstance className => some (.record (.instanceOf className))
  | .addSequence items => some (.sequence items)
  | .addMap => some (.map [])
  | _ => none

/-- The edit that the operation makes. -/
def edit? : Operation → Option Edit
  | .set id key value => some (.record id (·.insert key ⟨.stored value, true⟩))
  | .setHidden id key value => some (.record id (·.insert key ⟨.stored value, false⟩))
  | .setAccessor id key a => some (.record id (·.insert key ⟨.computed a, true⟩))
  | .push id item => some (.sequence id fun items => items ++ [item])
  | .insertEntry id key value => some (.map id (Container.insertEntry key value))
  | _ => none

/-- The class that has to be registered. -/
def required? : Operation → Option String
  | .addInstance className => some className
  | .registerSubclass _ parent => some parent
  | _ => none

/-- Why an operation fails. -/
inductive Fault (g : Graph) (o : Operation) : GraphError → Prop
  | outside {e : Edit} : o.edit? = some e → g.size ≤ e.id.index → Fault g o (.nodeNotFound e.id)
  | otherKind {e : Edit} {c : Container} : o.edit? = some e → g.node? e.id = some c → c.kind ≠ e.kind →
    Fault g o (.kindMismatch e.id e.kind)
  | unregistered {className : String} : o.required? = some className →
    g.classes.contains className = false → Fault g o (.unknownClass className)

variable {o : Operation} {d d' : Draft} {e : GraphError} {reply : Reply}

theorem lawful_of_edit? {edit : Edit} (h : o.edit? = some edit) : edit.Lawful := by
  cases o <;> cases h
  · exact Edit.lawful_record _ fun _ => rfl
  · exact Edit.lawful_record _ fun _ => rfl
  · exact Edit.lawful_record _ fun _ => rfl
  · exact Edit.lawful_sequence _ _
  · exact Edit.lawful_map _ _

theorem apply_of_edit? {edit : Edit} (h : o.edit? = some edit) :
    o.apply d = (d.graph.edit edit).map d.changed := by
  cases o <;> cases h
  · exact congrArg (Except.map d.changed) (Graph.updateRecord_eq ..)
  · exact congrArg (Except.map d.changed) (Graph.updateRecord_eq ..)
  · exact congrArg (Except.map d.changed) (Graph.updateRecord_eq ..)
  · exact congrArg (Except.map d.changed) (Graph.push_eq ..)
  · exact congrArg (Except.map d.changed) (Graph.insertEntry_eq ..)

/-! ### Failing -/

theorem apply_of_fault (h : o.Fault d.graph e) : o.apply d = .error e := by
  cases h with
  | @outside edit hedit hout =>
    have hnone : d.graph.node? edit.id = none := Array.getElem?_eq_none hout
    rw [apply_of_edit? hedit, Graph.edit, hnone]
    rfl
  | @otherKind edit c hedit hnode hkind =>
    have hnone : edit.change c = none := by
      have hsome := (lawful_of_edit? hedit).isSome_iff c
      simpa [hkind] using hsome
    rw [apply_of_edit? hedit, Graph.edit, hnode]
    simp only [hnone]
    rfl
  | unregistered hrequired hclass =>
    cases o <;> cases hrequired
    · rw [apply, Graph.addInstance, hclass]
      rfl
    · rw [apply, Graph.registerSubclass, hclass]
      rfl

theorem fault_of_edit {edit : Edit} (hedit : o.edit? = some edit) (h : d.graph.edit edit = .error e) :
    o.Fault d.graph e := by
  unfold Graph.edit at h
  split at h
  · rename_i c hnode
    split at h
    · cases h
    · rename_i hnone
      cases h
      have hsome := (lawful_of_edit? hedit).isSome_iff c
      exact .otherKind hedit hnode (by simpa [hnone] using hsome)
  · rename_i hnone
    cases h
    exact .outside hedit (Array.getElem?_eq_none_iff.1 hnone)

/-- An operation fails exactly for a fault, and names it. -/
theorem apply_eq_error_iff : o.apply d = .error e ↔ o.Fault d.graph e := by
  refine ⟨fun h => ?_, apply_of_fault⟩
  have hmap {α β : Type} {f : α → β} {x : Except GraphError α} (hx : x.map f = .error e) : x = .error e := by
    cases x <;> cases hx
    rfl
  cases hedit : o.edit? with
  | some edit =>
    rw [apply_of_edit? hedit] at h
    exact fault_of_edit hedit (hmap h)
  | none =>
    cases o <;> cases hedit <;> try cases h
    · rename_i className
      have hadd := hmap h
      unfold Graph.addInstance at hadd
      split at hadd <;> cases hadd
      rename_i hclass
      exact .unregistered rfl (Bool.eq_false_iff.2 hclass)
    · rename_i className parent
      have hparent := hmap h
      unfold Graph.registerSubclass at hparent
      split at hparent <;> cases hparent
      rename_i hclass
      exact .unregistered rfl (Bool.eq_false_iff.2 hclass)

/-! ### Succeeding -/

/-- What an operation that succeeds does to the arena. -/
inductive Effect (o : Operation) (d : Draft) : Reply → Draft → Prop
  | added {c : Container} : o.container? = some c →
    Effect o d (.node ⟨d.graph.size⟩) { d with graph := (d.graph.add c).2 }
  | edited {e : Edit} {c c' : Container} : o.container? = none → o.edit? = some e →
    d.graph.node? e.id = some c → e.change c = some c' →
    Effect o d .done { d with graph := d.graph.put e.id c' }
  | kept {reply : Reply} {d' : Draft} : o.container? = none → (∀ id, reply ≠ .node id) →
    d'.graph.nodes = d.graph.nodes → Effect o d reply d'

theorem container?_of_edit? {edit : Edit} (h : o.edit? = some edit) : o.container? = none := by
  cases o <;> cases h <;> rfl

/-- An operation adds its container, or makes its edit, or leaves the arena alone. -/
theorem effect_of_apply (h : o.apply d = .ok (reply, d')) : o.Effect d reply d' := by
  cases hedit : o.edit? with
  | some edit =>
    rw [apply_of_edit? hedit, Graph.edit] at h
    split at h
    · rename_i c hnode
      split at h
      · rename_i c' hchange
        cases h
        exact .edited (container?_of_edit? hedit) hedit hnode hchange
      · cases h
    · cases h
  | none =>
    cases o <;> cases hedit
    · cases h
      exact .added rfl
    · rw [apply, Graph.addInstance] at h
      split at h <;> cases h
      exact .added rfl
    · cases h
      exact .added rfl
    · cases h
      exact .added rfl
    · cases h
      exact .kept rfl (fun _ => Reply.noConfusion) rfl
    · rw [apply, Graph.registerSubclass] at h
      split at h <;> cases h
      exact .kept rfl (fun _ => Reply.noConfusion) rfl
    · rename_i description
      cases h
      exact .kept rfl (fun _ => Reply.noConfusion) (d.nodes_sharedSymbol description)

end Operation

/-! ## Programs that change a draft -/

/-- A program that changes a draft. One that fails may have changed it before. -/
abbrev Change := EStateM GraphError Draft

namespace Change

def modifyGraph (f : Graph → Graph) : Change Unit := modify fun d => { d with graph := f d.graph }

/-- Put a container at the end of the arena, then look where it is. -/
def add (c : Container) : Change Reply := do
  modifyGraph fun g => { g with nodes := g.nodes.push c }
  return .node ⟨(← get).graph.size - 1⟩

/-- Fail unless the class is registered. -/
def require (className : String) : Change Unit := do
  unless (← get).graph.classes.contains className do throw (.unknownClass className)

def edit (e : Edit) : Change Reply := do
  match (← get).graph.node? e.id with
  | some c => match e.change c with
    | some c' =>
      modifyGraph (·.put e.id c')
      return .done
    | none => throw (.kindMismatch e.id e.kind)
  | none => throw (.nodeNotFound e.id)

def intern (description : String) : Change Reply := do
  match (← get).graph.shared.lookup description with
  | some s => return .symbol s
  | none =>
    let (s, supply) := (← get).supply.newSymbol (some description)
    modify ({ · with supply })
    modifyGraph fun g => { g with shared := g.shared ++ [(description, s)] }
    return .symbol s

end Change

namespace Operation

/-- The operation as a program. -/
def perform : Operation → Change Reply
  | .addRecord => Change.add (.record .empty)
  | .addInstance className => do
    Change.require className
    Change.add (.record (.instanceOf className))
  | .addSequence items => Change.add (.sequence items)
  | .addMap => Change.add (.map [])
  | .set id key value => Change.edit (.record id (·.insert key ⟨.stored value, true⟩))
  | .setHidden id key value => Change.edit (.record id (·.insert key ⟨.stored value, false⟩))
  | .setAccessor id key a => Change.edit (.record id (·.insert key ⟨.computed a, true⟩))
  | .push id item => Change.edit (.sequence id fun items => items ++ [item])
  | .insertEntry id key value => Change.edit (.map id (Container.insertEntry key value))
  | .register className => do
    Change.modifyGraph (·.register className)
    return .done
  | .registerSubclass className parent => do
    Change.require parent
    Change.modifyGraph fun g => { g with classes := g.classes.setParent className parent }
    return .done
  | .sharedSymbol description => Change.intern description

/-- The outcome of a program that has changed nothing if it fails. -/
def outcome (d : Draft) : Except GraphError (Reply × Draft) → EStateM.Result GraphError Draft Reply
  | .ok (reply, d') => .ok reply d'
  | .error e => .error e d

variable {o : Operation} {d d' : Draft} {e : GraphError} {reply : Reply}

theorem run_get {α : Type} (f : Draft → Change α) (d : Draft) : (get >>= f) d = f d d := rfl

theorem run_require_bind {α : Type} (className : String) (next : Change α) (d : Draft) :
    (Change.require className >>= fun _ => next) d =
      if d.graph.classes.contains className then next d else .error (.unknownClass className) d := by
  rw [Change.require, bind_assoc, run_get]
  cases d.graph.classes.contains className <;> rfl

theorem add_eq (c : Container) (d : Draft) : Change.add c d = outcome d (.ok (d.added (d.graph.add c))) := by
  have hsize : (d.graph.nodes.push c).size - 1 = d.graph.size := by simp [Graph.size]
  change EStateM.Result.ok (Reply.node ⟨(d.graph.nodes.push c).size - 1⟩) _ = _
  rw [hsize]
  rfl

theorem edit_eq (e : Edit) (d : Draft) :
    Change.edit e d = outcome d ((d.graph.edit e).map d.changed) := by
  rw [Change.edit, run_get, Graph.edit]
  cases d.graph.node? e.id with
  | none => rfl
  | some c =>
    simp only
    cases e.change c <;> rfl

theorem intern_eq (description : String) (d : Draft) :
    Change.intern description d = outcome d ((sharedSymbol description).apply d) := by
  rw [Change.intern, run_get, apply, Draft.sharedSymbol, Graph.sharedSymbol]
  cases d.graph.shared.lookup description <;> rfl

/-- The program does what the function says, and a failing one has changed nothing. -/
theorem perform_eq (o : Operation) (d : Draft) : o.perform d = outcome d (o.apply d) := by
  have hedit {e : Edit} (h : o.edit? = some e) : Change.edit e d = outcome d (o.apply d) := by
    rw [apply_of_edit? h]
    exact edit_eq e d
  cases o with
  | addRecord => exact add_eq _ d
  | addInstance className =>
    rw [perform, run_require_bind, apply, Graph.addInstance]
    split
    · exact add_eq _ d
    · rfl
  | addSequence items => exact add_eq _ d
  | addMap => exact add_eq _ d
  | set id key value => exact hedit rfl
  | setHidden id key value => exact hedit rfl
  | setAccessor id key a => exact hedit rfl
  | push id item => exact hedit rfl
  | insertEntry id key value => exact hedit rfl
  | register className => rfl
  | registerSubclass className parent =>
    rw [perform, run_require_bind, apply, Graph.registerSubclass]
    split <;> rfl
  | sharedSymbol description => exact intern_eq description d

theorem perform_eq_ok_iff : o.perform d = .ok reply d' ↔ o.apply d = .ok (reply, d') := by
  rw [perform_eq]
  rcases o.apply d with e | ⟨reply', d''⟩ <;> simp [outcome]

theorem perform_eq_error_iff : o.perform d = .error e d' ↔ o.apply d = .error e ∧ d' = d := by
  rw [perform_eq]
  rcases o.apply d with e' | ⟨reply', d''⟩ <;> simp [outcome, eq_comm]

end Operation

/-! ## What operations keep -/

/-- Every container stays at its place, and stays of its kind and class. Where the
place is not touched, it stays as it is. -/
def Graph.KeepsBut (g : Graph) (touched : NodeId → Prop) (g' : Graph) : Prop :=
  ∀ id c, g.node? id = some c → ∃ c', g'.node? id = some c' ∧ c'.kind = c.kind ∧
    c'.className = c.className ∧ (¬ touched id → c' = c)

theorem Graph.GrowsTo.keepsBut {g g' : Graph} (h : g.GrowsTo g') (touched : NodeId → Prop) :
    g.KeepsBut touched g' :=
  fun id c hnode => ⟨c, h id c hnode, rfl, rfl, fun _ => rfl⟩

theorem Graph.KeepsBut.trans {g g' g'' : Graph} {touched touched' : NodeId → Prop}
    (h : g.KeepsBut touched g') (h' : g'.KeepsBut touched' g'') :
    g.KeepsBut (fun id => touched id ∨ touched' id) g'' := by
  intro id c hnode
  obtain ⟨c', hnode', hkind, hclass, hsame⟩ := h id c hnode
  obtain ⟨c'', hnode'', hkind', hclass', hsame'⟩ := h' id c' hnode'
  refine ⟨c'', hnode'', hkind'.trans hkind, hclass'.trans hclass, fun huntouched => ?_⟩
  obtain ⟨hfirst, hsecond⟩ := not_or.1 huntouched
  exact (hsame' hsecond).trans (hsame hfirst)

namespace Operation

variable {o : Operation} {d d' : Draft} {e : GraphError} {reply : Reply} {id : NodeId}

/-- The operation is about the container at this place. -/
def Addresses (o : Operation) (id : NodeId) : Prop := ∃ e, o.edit? = some e ∧ e.id = id

/-- One operation keeps all containers but the one that it is about. -/
theorem Effect.keepsBut (h : o.Effect d reply d') : d.graph.KeepsBut o.Addresses d'.graph := by
  cases h with
  | added => exact (d.graph.growsTo_add _).keepsBut _
  | @edited e c c' _ hedit hnode hchange =>
    intro id₀ c₀ hnode₀
    by_cases hid : id₀ = e.id
    · subst hid
      obtain rfl := Option.some.inj (hnode.symm.trans hnode₀)
      obtain ⟨hkind, hclass⟩ := (lawful_of_edit? hedit).keeps c c' hchange
      refine ⟨c', ?_, hkind, hclass, fun huntouched => absurd ⟨e, hedit, rfl⟩ huntouched⟩
      simp [Graph.node?_put, hnode]
    · refine ⟨c₀, ?_, rfl, rfl, fun _ => rfl⟩
      simpa [Graph.node?_put, hid] using hnode₀
  | kept _ _ hnodes => exact (Graph.GrowsTo.of_nodes_eq hnodes).keepsBut _

/-- The draft after an operation, whether or not it succeeds. -/
def after (o : Operation) (d : Draft) : Draft :=
  match o.perform d with
  | .ok _ d' => d'
  | .error _ d' => d'

theorem keepsBut_after (o : Operation) (d : Draft) : d.graph.KeepsBut o.Addresses (o.after d).graph := by
  unfold after
  split
  · rename_i reply d' hperform
    exact (effect_of_apply (perform_eq_ok_iff.1 hperform)).keepsBut
  · rename_i e d' hperform
    rw [(perform_eq_error_iff.1 hperform).2]
    exact Graph.GrowsTo.refl.keepsBut _

/-- Carry out operations one after the other; failing ones are passed over. -/
def run (ops : List Operation) (d : Draft) : Draft := ops.foldl (fun d o => o.after d) d

/-- A run keeps all containers but those that some operation is about. -/
theorem keepsBut_run (ops : List Operation) (d : Draft) :
    d.graph.KeepsBut (fun id => ∃ o ∈ ops, o.Addresses id) (run ops d).graph := by
  induction ops generalizing d with
  | nil => exact Graph.GrowsTo.refl.keepsBut _
  | cons o rest ih =>
    have hboth := (keepsBut_after o d).trans (ih (o.after d))
    change d.graph.KeepsBut _ (run rest (o.after d)).graph
    simpa only [List.exists_mem_cons_iff] using hboth

theorem run_append (ops ops' : List Operation) (d : Draft) : run (ops ++ ops') d = run ops' (run ops d) :=
  List.foldl_append ..

/-- An operation of the run, with what is carried out before and after it, adds a
container and answers with its place. -/
structure HandsOut (ops : List Operation) (d : Draft) (before : List Operation) (o : Operation)
    (later : List Operation) (id : NodeId) : Prop where
  split : ops = before ++ o :: later
  answer : ∃ d', o.perform (run before d) = .ok (.node id) d'

/-- The container at a place handed out is still the one that was added there. -/
theorem HandsOut.node? {ops before later : List Operation} (h : HandsOut ops d before o later id) :
    ∃ c c', o.container? = some c ∧ (run ops d).graph.node? id = some c' ∧ c'.kind = c.kind ∧
      c'.className = c.className ∧ ((∀ o' ∈ later, ¬ o'.Addresses id) → c' = c) := by
  obtain ⟨rfl, d', hperform⟩ := h
  have hafter : o.after (run before d) = d' := by rw [after, hperform]
  rw [run_append]
  change ∃ c c', _ ∧ (run later (o.after (run before d))).graph.node? id = _ ∧ _
  rw [hafter]
  cases effect_of_apply (perform_eq_ok_iff.1 hperform) with
  | @added c hcontainer =>
    have hnode := (run before d).graph.node?_add c
    obtain ⟨c', hnode', hkind, hclass, hsame⟩ :=
      keepsBut_run later { run before d with graph := ((run before d).graph.add c).2 } _ c hnode
    refine ⟨c, c', hcontainer, hnode', hkind, hclass, fun huntouched => hsame ?_⟩
    rintro ⟨o', ho', haddresses⟩
    exact huntouched o' ho' haddresses
  | kept _ hreply => exact absurd rfl (hreply id)

theorem HandsOut.concat {ops before later : List Operation} {o' : Operation}
    (h : HandsOut ops d before o' later id) (o : Operation) :
    HandsOut (ops ++ [o]) d before o' (later ++ [o]) id :=
  ⟨by simp [h.split], h.answer⟩

theorem run_concat {ops : List Operation} (h : o.perform (run ops d) = .ok reply d') :
    run (ops ++ [o]) d = d' := by
  rw [run_append]
  change o.after (run ops d) = d'
  rw [after, h]

/-- No place without a container was handed out. -/
theorem not_handsOut {ops : List Operation} (hnone : (run ops d).graph.node? id = none)
    (before : List Operation) (o : Operation) (later : List Operation) :
    ¬ HandsOut ops d before o later id := by
  intro hout
  obtain ⟨_, c', _, hnode, _⟩ := hout.node?
  rw [hnone] at hnode
  cases hnode

theorem exists_perform_eq_error_iff : (∃ d', o.perform d = .error e d') ↔ o.Fault d.graph e := by
  rw [← apply_eq_error_iff]
  constructor
  · rintro ⟨d', hperform⟩
    exact (perform_eq_error_iff.1 hperform).1
  · exact fun happly => ⟨d, perform_eq_error_iff.2 ⟨happly, rfl⟩⟩

/-- An operation with a container adds it at a new place. -/
theorem Effect.node_of_container? {c : Container} (h : o.Effect d reply d') (hc : o.container? = some c) :
    reply = .node ⟨d.graph.size⟩ ∧ d'.graph.node? ⟨d.graph.size⟩ = some c := by
  cases h with
  | added hcontainer =>
    obtain rfl := Option.some.inj (hc.symm.trans hcontainer)
    exact ⟨rfl, Graph.node?_add _ c⟩
  | edited hnone => simp [hc] at hnone
  | kept hnone => simp [hc] at hnone

theorem Effect.ne_node (h : o.Effect d reply d') (hnone : o.container? = none) (id : NodeId) :
    reply ≠ .node id := by
  cases h with
  | added hcontainer => simp [hnone] at hcontainer
  | edited => exact Reply.noConfusion
  | kept _ hreply => exact hreply id

/-- After any run of operations, the next one fails exactly for a fault, and leaves
the graph as it is. If it succeeds, it changes no container but the one that it is
about; every container stays of its kind and class, those at places handed out
before among them; and the place of an added container is new. -/
theorem perform_after_run (ops : List Operation) (s : Supply) (o : Operation) :
    let start : Draft := ⟨.empty, s⟩
    let d := run ops start
    o.perform d = outcome d (o.apply d) ∧
    (∀ e, (∃ d', o.perform d = .error e d') ↔ o.Fault d.graph e) ∧
    (∀ e d', o.perform d = .error e d' → d' = d) ∧
    ∀ reply d', o.perform d = .ok reply d' →
      d.graph.KeepsBut o.Addresses d'.graph ∧
      (∀ before o' later id, HandsOut ops start before o' later id →
        ∃ c c', o'.container? = some c ∧ d'.graph.node? id = some c' ∧ c'.kind = c.kind ∧
          c'.className = c.className ∧ ((∀ o'' ∈ later ++ [o], ¬ o''.Addresses id) → c' = c)) ∧
      (o.container? = none → ∀ id, reply ≠ .node id) ∧
      ∀ c, o.container? = some c → ∃ id, reply = .node id ∧ d'.graph.node? id = some c ∧
        d.graph.node? id = none ∧ ∀ before o' later, ¬ HandsOut ops start before o' later id := by
  intro start d
  refine ⟨perform_eq o d, fun _ => exists_perform_eq_error_iff,
    fun e d' hperform => (perform_eq_error_iff.1 hperform).2, fun reply d' hperform => ?_⟩
  have heffect := effect_of_apply (perform_eq_ok_iff.1 hperform)
  refine ⟨heffect.keepsBut, fun before o' later id hout => ?_, heffect.ne_node, fun c hcontainer => ?_⟩
  · rw [← run_concat hperform]
    exact (hout.concat o).node?
  · obtain ⟨hreply, hnode⟩ := heffect.node_of_container? hcontainer
    have hnew : d.graph.node? ⟨d.graph.size⟩ = none := Array.getElem?_eq_none (Nat.le_refl _)
    exact ⟨_, hreply, hnode, hnew, not_handsOut hnew⟩

/-- Items are pushed to a sequence that is there, but not to the record before it. -/
theorem perform_after_run_push :
    let ops : List Operation := [.addRecord, .addSequence [], .push ⟨0⟩ .null]
    let d := run ops ⟨.empty, .initial⟩
    (push ⟨0⟩ .null).Fault d.graph (.kindMismatch ⟨0⟩ .sequence) ∧
      (push ⟨0⟩ .null).perform d = .error (.kindMismatch ⟨0⟩ .sequence) d ∧
    ∃ d', (push ⟨1⟩ .null).perform d = .ok .done d' ∧ d'.graph.node? ⟨0⟩ = some (.record .empty) := by
  intro ops d
  obtain ⟨-, hfault, hsame, -⟩ := perform_after_run ops .initial (push ⟨0⟩ .null)
  obtain ⟨-, -, -, hok⟩ := perform_after_run ops .initial (push ⟨1⟩ .null)
  have hmismatch : (push ⟨0⟩ .null).Fault d.graph (.kindMismatch ⟨0⟩ .sequence) :=
    .otherKind (e := .sequence ⟨0⟩ fun items => items ++ [.null]) (c := .record .empty) rfl rfl
      Kind.noConfusion
  obtain ⟨d₀, hperform⟩ := (hfault _).2 hmismatch
  obtain rfl : d₀ = d := hsame _ _ hperform
  refine ⟨hmismatch, hperform, _, rfl, ?_⟩
  obtain ⟨hkeeps, -⟩ := hok _ _ rfl
  obtain ⟨c', hnode, -, -, hcontent⟩ := hkeeps ⟨0⟩ (.record .empty) rfl
  rw [hnode, hcontent]
  rintro ⟨e, he, hid⟩
  cases he
  cases hid

end Operation

end ObjectGraph
