-- SUMMARY: Searches of two graphs whose slots correspond: one by one, but for slots that give nothing.
import ObjectGraph.Proofs.Graph.Operation
import ObjectGraph.Proofs.Search.Hits

/-! # Corresponding graphs

The containers of one graph may stand in another with their slots changed: some are
left out, the others have an image (`Graph.Corresponds`). If a slot and its image are
read alike, and what is left out gives nothing (`Search.ReadsAlike`), then a search of
the other graph visits the images of what it visits in the first one, in the same
order (`Search.visits_image`). If in addition the tests come out alike, it finds the
same hits, each at the image of the walk that found it (`Graph.search_image`).
-/

namespace ObjectGraph

/-! ## Images of slots -/

/-- Which slots of a graph another one has, and as what. -/
structure SlotMap where
  keeps : Child → Bool
  image : Child → Child

namespace Graph

/-- Each container of the first graph stands in the second, at its place, with the
images of the slots that are kept. -/
structure Corresponds (g : Graph) (m : SlotMap) (g' : Graph) : Prop where
  children : ∀ id c, g.node? id = some c →
    ∃ c', g'.node? id = some c' ∧ c'.children id = ((c.children id).filter m.keeps).map m.image
  missing : ∀ id, g.node? id = none → g'.node? id = none

/-! ### Replaced containers -/

variable {g : Graph} {id : NodeId} {c c' : Container}

/-- Replacing a container changes its slots and no others. -/
theorem corresponds_put {m : SlotMap} (hnode : g.node? id = some c)
    (hchildren : c'.children id = ((c.children id).filter m.keeps).map m.image)
    (hothers : ∀ x : Child, x.parent ≠ id → m.keeps x = true ∧ m.image x = x) :
    g.Corresponds m (g.put id c') where
  children id' c₁ hnode' := by
    rw [node?_put]
    split
    · rename_i hid
      subst hid
      obtain rfl := Option.some.inj (hnode.symm.trans hnode')
      exact ⟨c', by rw [hnode]; rfl, hchildren⟩
    · rename_i hid
      have hslot : ∀ x ∈ c₁.children id', m.keeps x = true ∧ m.image x = x := fun x hx =>
        hothers x (Container.parent_of_mem_children hx ▸ hid)
      have hkeeps := List.filter_eq_self.2 fun x hx => (hslot x hx).1
      have himage := List.map_congr_left fun x hx => (hslot x hx).2
      exact ⟨c₁, hnode', by rw [hkeeps, himage, List.map_id']⟩
  missing id' hnone := by
    rw [node?_put]
    split
    · rename_i hid
      rw [← hid, hnone]
      rfl
    · exact hnone

/-- What a tag says of a reference is said of the kind and the class of the container. -/
theorem isInstance_node (g : Graph) (id : NodeId) (tag : TypeTag) : g.isInstance (.node id) tag =
    match tag with
    | .object => true
    | .function => false
    | .sequence => (g.node? id).any (·.kind == .sequence)
    | .map => (g.node? id).any (·.kind == .map)
    | .ofClass name => ((g.node? id).bind Container.className).any (g.classes.isSubclass · name) := by
  cases tag with
  | object => rfl
  | function => rfl
  | sequence =>
    simp only [isInstance, sequence?]
    rcases g.node? id with _ | _ | _ | _ <;> rfl
  | map =>
    simp only [isInstance, map?]
    rcases g.node? id with _ | _ | _ | _ <;> rfl
  | ofClass name =>
    simp only [isInstance, record?]
    rcases g.node? id with _ | ⟨⟨_ | className⟩, _, _⟩ | _ | _ <;> rfl

/-- A container of the same class answers to the same tags, if its kind does. -/
theorem isInstance_put {tag : TypeTag} (hnode : g.node? id = some c) (c' : Container)
    (hclass : c'.className = c.className)
    (hsequence : tag = .sequence → (c'.kind == .sequence) = (c.kind == .sequence))
    (hmap : tag = .map → (c'.kind == .map) = (c.kind == .map)) (v : Value) :
    (g.put id c').isInstance v tag = g.isInstance v tag := by
  cases v with
  | node id' =>
    rw [isInstance_node, isInstance_node, node?_put]
    by_cases hid : id' = id
    · subst hid
      rw [if_pos rfl, hnode]
      cases tag with
      | sequence => exact hsequence rfl
      | map => exact hmap rfl
      | ofClass name => exact congrArg (Option.any _) hclass
      | _ => rfl
    · rw [if_neg hid]
      rfl
  | _ => cases tag <;> rfl

end Graph

namespace Search

def Pending.image (m : SlotMap) (p : Pending) : Pending := ⟨p.way.map m.image, m.image p.child⟩

/-- The images of the slots that are kept. -/
def images (m : SlotMap) (pending : List Pending) : List Pending :=
  (pending.filter fun p => m.keeps p.child).map (Pending.image m)

variable {g g' : Graph} {s : Scope} {m : SlotMap} {seen : List NodeId} {log log' : ReadLog}
  {p : Pending} {rest pending : List Pending}

@[simp] theorem images_append (first last : List Pending) :
    images m (first ++ last) = images m first ++ images m last := by
  simp [images]

theorem images_cons_kept (hkeeps : m.keeps p.child = true) :
    images m (p :: rest) = p.image m :: images m rest := by
  simp [images, hkeeps]

theorem images_cons_leftOut (hkeeps : m.keeps p.child = false) :
    images m (p :: rest) = images m rest := by
  simp [images, hkeeps]

theorem Pending.reach_image (p : Pending) : (p.image m).reach = p.reach.map m.image := by
  simp [Pending.reach, Pending.image]

theorem pendingOf_image {id : NodeId} {c c' : Container}
    (hchildren : c'.children id = ((c.children id).filter m.keeps).map m.image) (way : Way) :
    pendingOf id c' (way.map m.image) = images m (pendingOf id c way) := by
  simp only [pendingOf, images, hchildren, List.filter_map, List.map_map]
  rfl

/-! ## Reads that go together -/

/-- A look asks the filter and reads, and nothing else. -/
theorem Pending.look_congr {p' : Pending}
    (haccepts : s.accepts p'.child.container p'.child.slot.key = s.accepts p.child.container p.child.slot.key)
    (hcontent : p'.child.slot.content = p.child.slot.content) (log : ReadLog) :
    p'.look s log = p.look s log := by
  rw [look, look, haccepts, hcontent]

/-- How far a search has come: what it has seen and read, and what it has still to look at. -/
structure Front where
  seen : List NodeId
  log : ReadLog
  pending : List Pending

/-- How far it has come after a look at the first slot. -/
def Front.next (g : Graph) (s : Scope) (seen : List NodeId) (log : ReadLog) (p : Pending)
    (rest : List Pending) : Front :=
  match p.look s log with
  | (none, log) => ⟨seen, log, rest⟩
  | (some value, log) =>
    let visit : Visit := ⟨p, value, entered? g s seen p.reach.path value⟩
    ⟨visit.entered ++ seen, log, visit.children ++ rest⟩

theorem Front.next_log : (Front.next g s seen log p rest).log = (p.look s log).2 := by
  unfold Front.next
  split <;> rename_i hlook <;> rw [hlook]

/-- As long as this relation holds between a search and what was read in the other
graph, a slot and its image look alike, and a slot that is left out gives nothing. -/
structure ReadsAlike (g : Graph) (s : Scope) (m : SlotMap) (R : Front → ReadLog → Prop) : Prop where
  kept : ∀ {seen log p rest log'}, R ⟨seen, log, p :: rest⟩ log' → m.keeps p.child = true →
    ((p.image m).look s log').1 = (p.look s log).1 ∧
      R (.next g s seen log p rest) ((p.image m).look s log').2
  leftOut : ∀ {seen log p rest log'}, R ⟨seen, log, p :: rest⟩ log' → m.keeps p.child = false →
    (p.look s log).1 = none ∧ R (.next g s seen log p rest) log'

theorem Front.next_skip {after : ReadLog} (hlook : p.look s log = (none, after)) :
    Front.next g s seen log p rest = ⟨seen, after, rest⟩ := by
  rw [Front.next, hlook]

theorem Front.next_look {after : ReadLog} {value : Value} (hlook : p.look s log = (some value, after)) :
    Front.next g s seen log p rest =
      let visit : Visit := ⟨p, value, entered? g s seen p.reach.path value⟩
      ⟨visit.entered ++ seen, after, visit.children ++ rest⟩ := by
  rw [Front.next, hlook]

/-! ## Visits of the images -/

/-- Through the image of a slot that container is entered that is entered through the slot. -/
theorem entered?_image (h : g.Corresponds m g') (s : Scope) (seen : List NodeId) (p : Pending) (v : Value) :
    (entered? g s seen p.reach.path v = none ∧ entered? g' s seen (p.image m).reach.path v = none) ∨
    ∃ id c c', entered? g s seen p.reach.path v = some (id, c) ∧
      entered? g' s seen (p.image m).reach.path v = some (id, c') ∧
      c'.children id = ((c.children id).filter m.keeps).map m.image := by
  have hreaches : s.reaches (p.image m).reach.path = s.reaches p.reach.path := by
    rw [Scope.reaches, Scope.reaches, Way.length_path, Way.length_path, p.reach_image, List.length_map]
  cases v with
  | node id =>
    simp only [entered?, hreaches]
    by_cases hopens : (s.reaches p.reach.path && !seen.contains id) = true
    · rw [if_pos hopens, if_pos hopens]
      cases hnode : g.node? id with
      | none => exact .inl ⟨rfl, by rw [h.missing id hnode]; rfl⟩
      | some c =>
        obtain ⟨c', hnode', hchildren⟩ := h.children id c hnode
        exact .inr ⟨id, c, c', rfl, by rw [hnode']; rfl, hchildren⟩
    · rw [if_neg hopens, if_neg hopens]
      exact .inl ⟨rfl, rfl⟩
  | _ => exact .inl ⟨rfl, rfl⟩

/-- What waits after a visit of the image are the images of what waits after the visit. -/
theorem after_visit_image (h : g.Corresponds m g') (s : Scope) (seen : List NodeId) (p : Pending)
    (v : Value) :
    let visit : Visit := ⟨p, v, entered? g s seen p.reach.path v⟩
    let visit' : Visit := ⟨p.image m, v, entered? g' s seen (p.image m).reach.path v⟩
    visit'.entered = visit.entered ∧ visit'.children = images m visit.children := by
  intro visit visit'
  rcases entered?_image h s seen p v with ⟨hnone, hnone'⟩ | ⟨id, c, c', hsome, hsome', hchildren⟩
  · simp [visit, visit', Visit.entered, Visit.children, hnone, hnone', images]
  · have hpending := pendingOf_image hchildren p.reach
    rw [← p.reach_image] at hpending
    simp [visit, visit', Visit.entered, Visit.children, Visit.way, hsome, hsome', hpending]

/-- A search of the other graph visits the images of what is visited in the first one. -/
theorem visits_image (h : g.Corresponds m g') {R : Front → ReadLog → Prop} (hreads : ReadsAlike g s m R)
    (hR : R ⟨seen, log, pending⟩ log') :
    (visits g' s seen log' (images m pending)).map (fun v => (v.pending, v.value)) =
      (visits g s seen log pending).map fun v => (v.pending.image m, v.value) := by
  fun_induction visits g s seen log pending generalizing log' with
  | case1 => simp [images, visits_nil]
  | case2 seen log p rest after hlook ih =>
    cases hkeeps : m.keeps p.child with
    | true =>
      obtain ⟨hsame, hnext⟩ := hreads.kept hR hkeeps
      rw [hlook] at hsame
      rw [Front.next_skip hlook] at hnext
      have hlook' : (p.image m).look s log' = (none, ((p.image m).look s log').2) := Prod.ext hsame rfl
      rw [images_cons_kept hkeeps, visits_skip hlook']
      exact ih hnext
    | false =>
      obtain ⟨-, hnext⟩ := hreads.leftOut hR hkeeps
      rw [Front.next_skip hlook] at hnext
      rw [images_cons_leftOut hkeeps]
      exact ih hnext
  | case3 seen log p rest value after hlook visit =>
    rename_i ih
    cases hkeeps : m.keeps p.child with
    | true =>
      obtain ⟨hsame, hnext⟩ := hreads.kept hR hkeeps
      rw [hlook] at hsame
      rw [Front.next_look hlook] at hnext
      have hlook' : (p.image m).look s log' = (some value, ((p.image m).look s log').2) :=
        Prod.ext hsame rfl
      obtain ⟨hentered, hchildren⟩ := after_visit_image h s seen p value
      rw [images_cons_kept hkeeps, visits_look hlook']
      dsimp only
      rw [hentered, hchildren, ← images_append]
      exact congrArg ((p.image m, value) :: ·) (ih hnext)
    | false =>
      obtain ⟨hnone, -⟩ := hreads.leftOut hR hkeeps
      rw [hlook] at hnone
      cases hnone

/-! ## Tests that come out alike -/

/-- A type test looks at a graph only if it is asked for a tag. -/
theorem matchesType_congr {c : Criterion} {v : Value}
    (htags : ∀ tag, c = .type tag → g'.isInstance v tag = g.isInstance v tag) :
    c.matchesType g' v = c.matchesType g v := by
  cases c with
  | exact expected => cases expected <;> rfl
  | pattern holds => rfl
  | type tag => exact htags tag rfl

/-- A key and its image pass the same tests, and so does a value in either graph. -/
structure TestsAlike (g : Graph) (c : Criterion) (m : SlotMap) (g' : Graph) : Prop where
  key : ∀ x, c.matchesSlotKey (m.image x).slot.key = c.matchesSlotKey x.slot.key
  type : ∀ v, c.matchesType g' v = c.matchesType g v

end Search

/-- The same hit at the end of another way. -/
def Hit.along (h : Hit) (way : Way) : Hit := { h with path := way.path, places := way.places }

namespace Search

variable {q : Query}

theorem finds_image (htests : TestsAlike g q.criterion m g') (x : Child) {path path' : Path}
    (hlength : path'.length = path.length) (v : Value) (kind : HitKind) :
    finds g' q (m.image x).slot.key path' v kind = finds g q x.slot.key path v kind := by
  have hreaches : q.reaches path' = q.reaches path := by rw [Scope.reaches, Scope.reaches, hlength]
  cases kind with
  | key => exact congrArg (q.mode.checks .key && ·) (htests.key x)
  | value => rfl
  | type => simp only [finds, testsType, hreaches, htests.type]

/-- The image of a slot gives the hits of the slot, at the image of the way to it. -/
theorem hits_image (htests : TestsAlike g q.criterion m g') (v : Visit)
    (opened : Option (NodeId × Container)) :
    Visit.hits g' q ⟨v.pending.image m, v.value, opened⟩ =
      (v.hits g q).map fun h => h.along (v.way.map m.image) := by
  have hway : Visit.way ⟨v.pending.image m, v.value, opened⟩ = v.way.map m.image := v.pending.reach_image
  have hlength : (Way.path (v.way.map m.image)).length = v.way.path.length := by
    rw [Way.length_path, Way.length_path, List.length_map]
  have hfinds := funext (finds_image htests v.pending.child hlength v.value)
  rw [Visit.hits_eq, Visit.hits_eq, hway, List.map_map]
  change List.map _ (List.filter (finds g' q (m.image v.pending.child).slot.key _ v.value) _) = _
  rw [hfinds]
  rfl

end Search

/-! ## Whole searches -/

/-- The search found the hit at the end of this way: it is the outcome of the walk,
and the containers on the walk were entered along it. -/
structure Hit.FoundBy (h : Hit) (g : Graph) (target : Value) (s : Scope) (log : ReadLog) (way : Way) : Prop
    extends h.FoundAlong g s target way where
  entered : ∀ before x after, way = before ++ x :: after → g.Enters target s log x.parent before

namespace Graph

open Search

/-- The hits there would be without a limit, with the ways at whose ends they are found. -/
def findings (g : Graph) (target : Value) (q : Query) (log : ReadLog) : List (Way × Hit) :=
  (g.targetHits target q).map ([], ·) ++
    (g.visits target q.toScope log).flatMap fun v => (v.hits g q).map (v.way, ·)

variable {g g' : Graph} {target : Value} {q : Query} {log log' : ReadLog} {m : SlotMap}
  {R : Front → ReadLog → Prop}

theorem allHits_eq_findings : g.allHits target q log = (g.findings target q log).map Prod.snd := by
  simp only [allHits, findings, List.map_append, List.map_flatMap, List.map_map, Function.comp_def,
    List.map_id']

theorem foundBy_of_mem_findings {way : Way} {h : Hit} (hmem : (way, h) ∈ g.findings target q log) :
    h.FoundBy g target q.toScope log way := by
  rcases List.mem_append.1 hmem with hmem | hmem
  · obtain ⟨_, hhit, heq⟩ := List.mem_map.1 hmem
    cases heq
    exact ⟨foundAlong_of_mem_targetHits hhit, fun before x after hway => by simp at hway⟩
  · obtain ⟨v, hv, hhit⟩ := List.mem_flatMap.1 hmem
    obtain ⟨_, hhit, heq⟩ := List.mem_map.1 hhit
    cases heq
    exact ⟨foundAlong_of_mem_hits hv hhit, fun before x after hway => enters_of_way hv hway⟩

/-- The reads go together from the start of a search at the target. -/
def StartsAlike (g : Graph) (target : Value) (R : Front → ReadLog → Prop) (log log' : ReadLog) : Prop :=
  ∀ id c, target = .node id → g.node? id = some c → R ⟨[id], log, pendingOf id c []⟩ log'

theorem visits_image (h : g.Corresponds m g') {s : Scope} (hreads : ReadsAlike g s m R)
    (hstart : g.StartsAlike target R log log') :
    (g'.visits target s log').map (fun v => (v.pending, v.value)) =
      (g.visits target s log).map fun v => (v.pending.image m, v.value) := by
  cases target with
  | node id =>
    cases hnode : g.node? id with
    | none => simp [visits, entered?, hnode, h.missing id hnode]
    | some c =>
      obtain ⟨c', hnode', hchildren⟩ := h.children id c hnode
      have hpending : pendingOf id c' [] = images m (pendingOf id c []) := pendingOf_image hchildren []
      rw [visits_eq log hnode, visits_eq log' hnode', hpending]
      exact Search.visits_image h hreads (hstart id c rfl hnode)
  | _ => rfl

theorem allHits_image (h : g.Corresponds m g') (hreads : ReadsAlike g q.toScope m R)
    (htests : TestsAlike g q.criterion m g') (hstart : g.StartsAlike target R log log') :
    g'.allHits target q log' =
      (g.findings target q log).map fun (way, hit) => hit.along (way.map m.image) := by
  have htarget : g'.targetHits target q = g.targetHits target q := by
    rw [targetHits, targetHits, htests.type]
  have hvisits : (g'.visits target q.toScope log').flatMap (Visit.hits g' q) =
      (g.visits target q.toScope log).flatMap
        fun v => (v.hits g q).map fun hit => hit.along (v.way.map m.image) := by
    -- the hits of a visit do not depend on what it opens
    have hhits : ∀ vs : List Visit, vs.flatMap (Visit.hits g' q) =
        (vs.map fun v => (v.pending, v.value)).flatMap fun u => Visit.hits g' q ⟨u.1, u.2, none⟩ := by
      intro vs
      rw [List.flatMap_map]
      rfl
    rw [hhits, visits_image h hreads hstart, List.flatMap_map]
    exact List.flatMap_congr fun v _ => hits_image htests v none
  have htargetAlong : (g.targetHits target q).map (fun hit => hit.along (List.map m.image [])) =
      g.targetHits target q := by
    unfold targetHits
    split <;> rfl
  rw [allHits, htarget, hvisits, findings, List.map_append, List.map_map, List.map_flatMap]
  simp only [List.map_map, Function.comp_def]
  rw [htargetAlong]

/-- In a graph that corresponds, a search finds the same hits in the same order, each
at the image of the way that found it. -/
theorem search_image (h : g.Corresponds m g') (hreads : ReadsAlike g q.toScope m R)
    (htests : TestsAlike g q.criterion m g') (hstart : g.StartsAlike target R log log') :
    List.Forall₂
      (fun hit hit' => ∃ way, hit.FoundBy g target q.toScope log way ∧ hit' = hit.along (way.map m.image))
      (g.search target q log).hits (g'.search target q log').hits := by
  cases htarget : target.isNullish with
  | true =>
    rw [search_hits_of_isNullish htarget, search_hits_of_isNullish htarget]
    exact .nil
  | false =>
    rw [search_hits htarget, search_hits htarget, allHits_image h hreads htests hstart, allHits_eq_findings,
      ← List.map_take, ← List.map_take, List.forall₂_map_left_iff, List.forall₂_map_right_iff,
      List.forall₂_same]
    exact fun finding hmem => ⟨finding.1, foundBy_of_mem_findings (List.mem_of_mem_take hmem), rfl⟩

end Graph

end ObjectGraph
