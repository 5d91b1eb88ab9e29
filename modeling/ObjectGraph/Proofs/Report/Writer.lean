-- SUMMARY: The JSON writer with one set of the containers being written, and how deep it nests.
import ObjectGraph.Proofs.Report.Plain

/-! # Writing with one set

The containers that enclose a value can be kept in one set for the whole writing:
a container is put in before its parts are written, and taken out after
(`Report.writeValue`). The number of containers that may be written inside each
other is a parameter, and the writer fails where one more would be needed. As long
as there is a level for each container that is not in the set, it gives the JSON
of a value inside the containers of the set, and leaves the set as it was
(`Report.gives_write`).
-/

namespace ObjectGraph

namespace Report

/-! ## The writer -/

/-- A part of the writing: it changes the set of containers being written, or fails. -/
abbrev Writer := StateT (Finset NodeId) Option

/-- Put the member of a field into an object, if it is visible. -/
def writeField (write : Value → Writer Json) (members : List (String × Json)) :
    Key × Property → Writer (List (String × Json))
  | (key, p) => do
    if p.visible then
      let json ← match p.content with
        | .stored v => write v
        | .computed _ => pure getter
      return Json.insert key.display json members
    else return members

/-- Write a container, field by field, item by item or entry by entry. -/
def writeContainer (write : Value → Writer Json) : Container → Writer Json
  | .record r => do return .object (← r.fields.foldlM (writeField write) [])
  | .sequence items => do return .array (← items.mapM write)
  | .map entries => do
    return .array (← entries.mapM fun (key, v) => do return .array [← write key, ← write v])

/-- Write a value. A container is in the set while its parts are written. -/
def writeValue (g : Graph) (expand : Container → Writer Json) : Value → Writer Json
  | .node id => do
    if id ∈ (← get) then return circular
    modify (insert id)
    let json ← match g.node? id with
      | some c => expand c
      | none => pure .null
    modify (Finset.erase · id)
    return json
  | v => return scalarJson v

/-- Write a value, with no more than the given number of containers inside each other. -/
def write (g : Graph) : Nat → Value → Writer Json
  | 0 => writeValue g fun _ => failure
  | levels + 1 => writeValue g (writeContainer (write g levels))

/-! ## What it gives -/

/-- The writer gives this result, and leaves the set as it was. -/
def Gives {α : Type} (w : Writer α) (s : Finset NodeId) (a : α) : Prop := w.run s = some (a, s)

section

variable {α β : Type} {s : Finset NodeId}

theorem gives_pure (s : Finset NodeId) (a : α) : Gives (pure a) s a := rfl

theorem Gives.bind {w : Writer α} {f : α → Writer β} {a : α} {b : β} (hw : Gives w s a)
    (hf : Gives (f a) s b) : Gives (w >>= f) s b := by
  rw [Gives, StateT.run_bind, hw]
  exact hf

theorem Gives.map {w : Writer α} {a : α} (hw : Gives w s a) (f : α → β) :
    Gives (do return f (← w)) s (f a) :=
  hw.bind (gives_pure s (f a))

theorem gives_mapM {w : α → Writer β} {f : α → β} (hw : ∀ a, Gives (w a) s (f a)) (as : List α) :
    Gives (as.mapM w) s (as.map f) := by
  induction as with
  | nil => exact gives_pure s []
  | cons a rest ih =>
    rw [List.mapM_cons, List.map_cons]
    exact (hw a).bind (ih.map (f a :: ·))

theorem gives_foldlM {w : β → α → Writer β} {f : β → α → β} (hw : ∀ b a, Gives (w b a) s (f b a))
    (as : List α) (b : β) : Gives (as.foldlM w b) s (as.foldl f b) := by
  induction as generalizing b with
  | nil => exact gives_pure s b
  | cons a rest ih =>
    rw [List.foldlM_cons, List.foldl_cons]
    exact (hw b a).bind (ih (f b a))

end

variable {g : Graph} {s : Finset NodeId} {write : Value → Writer Json} {value : Value → Json}

/-- What a visible field is written as. -/
def fieldJson (value : Value → Json) (p : Property) : Json :=
  match p.content with
  | .stored v => value v
  | .computed _ => getter

theorem gives_writeField (hwrite : ∀ v, Gives (write v) s (value v)) (members : List (String × Json))
    (field : Key × Property) :
    Gives (writeField write members field) s
      (if field.2.visible then Json.insert field.1.display (fieldJson value field.2) members
        else members) := by
  obtain ⟨key, content, visible⟩ := field
  cases visible with
  | false => exact gives_pure s members
  | true =>
    cases content with
    | stored v => exact (hwrite v).map fun json => Json.insert key.display json members
    | computed a => exact gives_pure s _

theorem foldl_visible (fields : List (Key × Property)) (members : List (String × Json)) :
    fields.foldl (fun members field => if field.2.visible then
        Json.insert field.1.display (fieldJson value field.2) members else members) members =
      ((fields.filter (·.2.visible)).map fun (key, p) => (key.display, fieldJson value p)).foldl
        (fun sorted (name, json) => Json.insert name json sorted) members := by
  rw [List.foldl_map, List.foldl_filter]

theorem gives_writeContainer (hwrite : ∀ v, Gives (write v) s (value v)) (c : Container) :
    Gives (writeContainer write c) s (containerJson value c) := by
  cases c with
  | record r =>
    have hmembers := gives_foldlM (gives_writeField hwrite) r.fields []
    rw [foldl_visible] at hmembers
    exact hmembers.map Json.object
  | sequence items => exact (gives_mapM hwrite items).map Json.array
  | map entries =>
    have hentry (entry : Value × Value) :
        Gives (do return .array [← write entry.1, ← write entry.2]) s
          (Json.array [value entry.1, value entry.2]) :=
      (hwrite entry.1).bind ((hwrite entry.2).map fun json => Json.array [value entry.1, json])
    exact (gives_mapM hentry entries).map Json.array

/-- A container that is in the set is not written again. -/
theorem gives_writeValue_circular (expand : Container → Writer Json) {id : NodeId} (hmem : id ∈ s) :
    Gives (writeValue g expand (.node id)) s circular := by
  simp [Gives, writeValue, hmem]

/-- A container that is not in the set is written with its parts. -/
theorem gives_writeValue_node {expand : Container → Writer Json} {id : NodeId} {c : Container} {j : Json}
    (hnew : id ∉ s) (hnode : g.node? id = some c) (hexpand : Gives (expand c) (insert id s) j) :
    Gives (writeValue g expand (.node id)) s j := by
  have hrun : (expand c).run (insert id s) = some (j, insert id s) := hexpand
  simp [Gives, writeValue, hnew, hnode, hrun, Finset.erase_insert hnew]

theorem gives_writeValue_dangling (expand : Container → Writer Json) {id : NodeId} (hnew : id ∉ s)
    (hnode : g.node? id = none) : Gives (writeValue g expand (.node id)) s .null := by
  simp [Gives, writeValue, hnew, hnode, Finset.erase_insert hnew]

theorem exists_node_of_isScalar {v : Value} (hv : v.isScalar = false) : ∃ id, v = .node id := by
  cases v with
  | node id => exact ⟨id, rfl⟩
  | _ => cases hv

theorem gives_writeValue_scalar (expand : Container → Writer Json) {v : Value} (hv : v.isScalar = true) :
    Gives (writeValue g expand v) s (scalarJson v) := by
  cases v with
  | node id => cases hv
  | _ => exact gives_pure s _

theorem valueJson_circular {enclosing : List NodeId} {id : NodeId} (hmem : id ∈ enclosing) :
    valueJson g enclosing (.node id) = circular := by
  rw [valueJson, dif_pos (List.contains_iff_mem.2 hmem)]

theorem valueJson_dangling {enclosing : List NodeId} {id : NodeId} (hnew : id ∉ enclosing)
    (hnode : g.node? id = none) : valueJson g enclosing (.node id) = .null := by
  rw [valueJson, dif_neg (by simpa using hnew)]
  split
  · rename_i c hsome
    rw [hnode] at hsome
    cases hsome
  · rfl

/-- The writer gives the JSON of a value if containers can be expanded as they should. -/
theorem gives_writeValue {expand : Container → Writer Json} {enclosing : List NodeId}
    (hexpand : ∀ id c, id ∉ enclosing → g.node? id = some c →
      Gives (expand c) (id :: enclosing).toFinset (containerJson (valueJson g (id :: enclosing)) c))
    (v : Value) : Gives (writeValue g expand v) enclosing.toFinset (valueJson g enclosing v) := by
  cases hscalar : v.isScalar with
  | true =>
    rw [valueJson_scalar hscalar]
    exact gives_writeValue_scalar expand hscalar
  | false =>
    obtain ⟨id, rfl⟩ := exists_node_of_isScalar hscalar
    by_cases hmem : id ∈ enclosing
    · rw [valueJson_circular hmem]
      exact gives_writeValue_circular expand (List.mem_toFinset.2 hmem)
    · have hnew : id ∉ enclosing.toFinset := mt List.mem_toFinset.1 hmem
      cases hnode : g.node? id with
      | none =>
        rw [valueJson_dangling hmem hnode]
        exact gives_writeValue_dangling expand hnew hnode
      | some c =>
        have hparts := hexpand id c hmem hnode
        rw [List.toFinset_cons] at hparts
        rw [valueJson_node hmem hnode]
        exact gives_writeValue_node hnew hnode hparts

theorem gives_write {levels : Nat} {enclosing : List NodeId} (hlevels : g.unseen enclosing ≤ levels)
    (v : Value) : Gives (Report.write g levels v) enclosing.toFinset (valueJson g enclosing v) := by
  induction levels generalizing enclosing v with
  | zero =>
    refine gives_writeValue (fun id c hnew hnode => ?_) v
    have hlt := Graph.unseen_cons_lt (by simpa using hnew) (Graph.index_lt_of_node? hnode)
    omega
  | succ levels ih =>
    refine gives_writeValue (fun id c hnew hnode => gives_writeContainer (fun x => ih ?_ x) c) v
    have hlt := Graph.unseen_cons_lt (by simpa using hnew) (Graph.index_lt_of_node? hnode)
    omega

end Report

theorem Graph.unseen_nil_le (g : Graph) : g.unseen [] ≤ g.size :=
  Nat.le_trans (List.length_filter_le _ _) (Nat.le_of_eq List.length_range)

end ObjectGraph
