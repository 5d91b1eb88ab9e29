-- SUMMARY: What a search visits, whatever it looks for, and how its hits are read off the visits.
import ObjectGraph.Proofs.Graph.Walk

/-! # Visits

Which slots a search reads, and which containers it enters, depends on its scope
alone: mode, criterion and limit only choose among the hits. What holds of the
visits is proved here once: they lie at the ends of walks, what is entered is
visited, what is visited and may be entered is entered, and nothing is visited
twice. Each is an induction on the visits with the pending slots in general
position (`Search.visits`), then a statement about whole searches
(`Graph.visits`).
-/

namespace ObjectGraph

namespace Search

theorem mem_pendingOf {id : NodeId} {c : Container} {way : Way} {p : Pending} :
    p ∈ pendingOf id c way ↔ p.way = way ∧ p.child ∈ c.children id := by
  obtain ⟨way', child⟩ := p
  simp only [pendingOf, List.mem_map, Pending.mk.injEq]
  constructor
  · rintro ⟨x, hx, rfl, rfl⟩
    exact ⟨rfl, hx⟩
  · rintro ⟨rfl, hx⟩
    exact ⟨child, hx, rfl, rfl⟩

/-! ## The visits of a scope -/

/-- A slot that was accepted and read, and the container that was entered through it. -/
structure Visit where
  pending : Pending
  value : Value
  opened : Option (NodeId × Container)

namespace Visit

/-- The way from the target to the value. -/
def way (v : Visit) : Way := v.pending.reach

theorem way_of_pending {v : Visit} {way : Way} {x : Child} (h : v.pending = ⟨way, x⟩) :
    v.way = way ++ [x] := by
  rw [Visit.way, h, Pending.reach]

/-- The container entered here, as a list of at most one. -/
def entered (v : Visit) : List NodeId := v.opened.toList.map (·.1)

/-- The slots that wait because of this visit. -/
def children (v : Visit) : List Pending := v.opened.toList.flatMap fun (id, c) => pendingOf id c v.way

theorem mem_entered {v : Visit} {id : NodeId} :
    id ∈ v.entered ↔ ∃ c, v.opened = some (id, c) := by
  simp [entered]

theorem mem_children {v : Visit} {p : Pending} :
    p ∈ v.children ↔ ∃ id c, v.opened = some (id, c) ∧ p.way = v.way ∧ p.child ∈ c.children id := by
  cases hopened : v.opened with
  | none => simp [children, hopened]
  | some opened =>
    obtain ⟨id, c⟩ := opened
    obtain ⟨way, child⟩ := p
    simp only [children, hopened, Option.toList_some, List.flatMap_cons, List.flatMap_nil,
      List.append_nil, mem_pendingOf, Option.some.injEq, Prod.mk.injEq]
    constructor
    · exact fun h => ⟨id, c, ⟨rfl, rfl⟩, h⟩
    · rintro ⟨_, _, ⟨rfl, rfl⟩, h⟩
      exact h

end Visit

/-- The way leads to the container of the slot. -/
structure Pending.Located (p : Pending) (g : Graph) (s : Scope) (target : Value) : Prop where
  walk : g.Walk s.CanCross target p.way (.node p.child.parent)
  has : g.Has p.child

/-- The value of the slot, if it is accepted and can be read, and the log afterwards. -/
def Pending.look (p : Pending) (s : Scope) (log : ReadLog) : Option Value × ReadLog :=
  if s.accepts p.child.container p.child.slot.key then
    match p.child.slot.content.read log with
    | (.error _, log) => (none, log)
    | (.ok value, log) => (some value, log)
  else (none, log)

/-- Look at the pending slots in order, without asking what they are looked at for. -/
def visits (g : Graph) (s : Scope) (seen : List NodeId) (log : ReadLog) : List Pending → List Visit
  | [] => []
  | p :: rest =>
    match p.look s log with
    | (none, log) => visits g s seen log rest
    | (some value, log) =>
      let visit : Visit := ⟨p, value, entered? g s seen p.reach.path value⟩
      visit :: visits g s (visit.entered ++ seen) log (visit.children ++ rest)
termination_by pending => (g.unseen seen, pending.length)
decreasing_by
  · exact Prod.Lex.right _ (by simp)
  · cases hopened : entered? g s seen p.reach.path value with
    | none => exact Prod.Lex.right _ (by simp [Visit.children])
    | some opened => exact Prod.Lex.left _ _ (unseen_of_entered? hopened)

variable {g : Graph} {s : Scope} {seen : List NodeId} {log log' : ReadLog} {p : Pending}
  {rest pending : List Pending} {value : Value}

theorem visits_nil : visits g s seen log [] = [] := by
  rw [visits]

theorem visits_skip (h : p.look s log = (none, log')) :
    visits g s seen log (p :: rest) = visits g s seen log' rest := by
  rw [visits, h]

theorem visits_look (h : p.look s log = (some value, log')) :
    visits g s seen log (p :: rest) =
      let visit : Visit := ⟨p, value, entered? g s seen p.reach.path value⟩
      visit :: visits g s (visit.entered ++ seen) log' (visit.children ++ rest) := by
  rw [visits, h]

theorem look_rejected (h : s.accepts p.child.container p.child.slot.key = false) :
    p.look s log = (none, log) := by
  simp [Pending.look, h]

theorem look_failed {e : AccessError} (h : s.accepts p.child.container p.child.slot.key = true)
    (hread : p.child.slot.content.read log = (.error e, log')) : p.look s log = (none, log') := by
  simp [Pending.look, h, hread]

theorem look_read (h : s.accepts p.child.container p.child.slot.key = true)
    (hread : p.child.slot.content.read log = (.ok value, log')) :
    p.look s log = (some value, log') := by
  simp [Pending.look, h, hread]

theorem canCross_of_look (h : p.look s log = (some value, log')) : s.CanCross p.child value := by
  unfold Pending.look at h
  split at h
  · rename_i haccepted
    split at h
    · cases h
    · rename_i hread
      cases h
      exact ⟨haccepted, .of_read hread⟩
  · cases h

theorem look_of_crosses (log : ReadLog) (h : s.Crosses p.child value) : ∃ log', p.look s log = (some value, log') :=
  ⟨_, look_read h.1 (Prod.ext (h.2 log) rfl)⟩

/-! ## Where visits come from -/

theorem canCross_of_mem_visits {v : Visit} (hv : v ∈ visits g s seen log pending) :
    s.CanCross v.pending.child v.value := by
  fun_induction visits g s seen log pending with
  | case1 => simp at hv
  | case2 seen log p rest log' hlook ih => exact ih hv
  | case3 seen log p rest value log' hlook visit ih =>
    rcases List.mem_cons.1 hv with rfl | hv
    · exact canCross_of_look hlook
    · exact ih hv

/-- What is entered is what the value refers to, and it was not entered before. -/
theorem opened_of_mem_visits {v : Visit} (hv : v ∈ visits g s seen log pending) {id : NodeId}
    {c : Container} (hopened : v.opened = some (id, c)) :
    v.value = .node id ∧ s.reaches v.way.path = true ∧ g.node? id = some c ∧ id ∉ seen := by
  fun_induction visits g s seen log pending with
  | case1 => simp at hv
  | case2 seen log p rest log' hlook ih => exact ih hv
  | case3 seen log p rest value log' hlook visit ih =>
    rcases List.mem_cons.1 hv with rfl | hv
    · obtain ⟨hvalue, hreaches, hseen, hnode⟩ := entered?_eq_some hopened
      exact ⟨hvalue, hreaches, hnode, by simpa using hseen⟩
    · obtain ⟨hvalue, hreaches, hnode, hseen⟩ := ih hv
      exact ⟨hvalue, hreaches, hnode, fun hmem => hseen (List.mem_append_right _ hmem)⟩

/-- A child of a visited slot is located if the slot is. -/
theorem Pending.Located.of_mem_children {target : Value} {v : Visit} {p : Pending}
    (h : v.pending.Located g s target) (hcross : s.CanCross v.pending.child v.value)
    (hopened : ∀ id c, v.opened = some (id, c) → v.value = .node id ∧ g.node? id = some c)
    (hp : p ∈ v.children) : p.Located g s target := by
  obtain ⟨id, c, heq, hway, hchild⟩ := Visit.mem_children.1 hp
  obtain ⟨hvalue, hnode⟩ := hopened id c heq
  have hhas := Graph.has_of_mem_children hnode hchild
  refine ⟨?_, hhas⟩
  rw [hway, Container.parent_of_mem_children hchild, ← hvalue]
  exact h.walk.snoc h.has hcross

/-- What waits after a look is located if what waited before is. -/
theorem located_after_look {target : Value} (hpending : ∀ r ∈ p :: rest, r.Located g s target)
    (hlook : p.look s log = (some value, log')) :
    let visit : Visit := ⟨p, value, entered? g s seen p.reach.path value⟩
    ∀ r ∈ visit.children ++ rest, r.Located g s target := by
  intro visit r hr
  rcases List.mem_append.1 hr with hr | hr
  · refine .of_mem_children (v := visit) (hpending p (List.mem_cons_self ..)) (canCross_of_look hlook)
      (fun id c heq => ?_) hr
    obtain ⟨hvalue, _, _, hnode⟩ := entered?_eq_some heq
    exact ⟨hvalue, hnode⟩
  · exact hpending r (List.mem_cons_of_mem _ hr)

/-- The visited slots lie at the ends of walks, if the pending ones do. -/
theorem located_of_mem_visits {target : Value}
    (hpending : ∀ p ∈ pending, p.Located g s target) {v : Visit}
    (hv : v ∈ visits g s seen log pending) : v.pending.Located g s target := by
  fun_induction visits g s seen log pending with
  | case1 => simp at hv
  | case2 seen log p rest log' hlook ih =>
    exact ih (fun p hp => hpending p (List.mem_cons_of_mem _ hp)) hv
  | case3 seen log p rest value log' hlook visit ih =>
    rcases List.mem_cons.1 hv with rfl | hv
    · exact hpending p (List.mem_cons_self ..)
    · exact ih (located_after_look hpending hlook) hv

/-- A visited slot waited at the start or because of a visit. -/
theorem origin_of_mem_visits {v : Visit} (hv : v ∈ visits g s seen log pending) :
    v.pending ∈ pending ∨ ∃ u ∈ visits g s seen log pending, v.pending ∈ u.children := by
  fun_induction visits g s seen log pending with
  | case1 => simp at hv
  | case2 seen log p rest log' hlook ih => exact (ih hv).imp_left (List.mem_cons_of_mem _)
  | case3 seen log p rest value log' hlook visit ih =>
    rcases List.mem_cons.1 hv with rfl | hv
    · exact .inl (List.mem_cons_self ..)
    · rcases ih hv with hmem | ⟨u, hu, hmem⟩
      · rcases List.mem_append.1 hmem with hmem | hmem
        · exact .inr ⟨visit, List.mem_cons_self .., hmem⟩
        · exact .inl (List.mem_cons_of_mem _ hmem)
      · exact .inr ⟨u, List.mem_cons_of_mem _ hu, hmem⟩

/-! ## What is visited -/

/-- What waits at the start, or because of a visit, is visited in its turn. -/
theorem exists_visit_of_crosses {r : Pending} (hcross : s.Crosses r.child value)
    (hr : r ∈ pending ∨ ∃ u ∈ visits g s seen log pending, r ∈ u.children) :
    ∃ v ∈ visits g s seen log pending, v.pending = r ∧ v.value = value := by
  fun_induction visits g s seen log pending with
  | case1 => simp at hr
  | case2 seen log p rest log' hlook ih =>
    obtain ⟨log'', hread⟩ := look_of_crosses (p := r) log hcross
    have hne : r ≠ p := by
      rintro rfl
      rw [hlook] at hread
      cases hread
    exact ih (hr.imp_left fun hmem => (List.mem_cons.1 hmem).resolve_left hne)
  | case3 seen log p rest found log' hlook visit ih =>
    by_cases hrp : r = p
    · subst hrp
      obtain ⟨log'', hread⟩ := look_of_crosses (p := r) log hcross
      rw [hlook] at hread
      cases hread
      exact ⟨visit, List.mem_cons_self .., rfl, rfl⟩
    · have hlater : r ∈ visit.children ++ rest ∨
          ∃ u ∈ visits g s (visit.entered ++ seen) log' (visit.children ++ rest), r ∈ u.children := by
        rcases hr with hr | ⟨u, hu, hr⟩
        · exact .inl (List.mem_append_right _ ((List.mem_cons.1 hr).resolve_left hrp))
        · rcases List.mem_cons.1 hu with rfl | hu
          · exact .inl (List.mem_append_left _ hr)
          · exact .inr ⟨u, hu, hr⟩
      obtain ⟨v, hv, hpending, hvalue⟩ := ih hlater
      exact ⟨v, List.mem_cons_of_mem _ hv, hpending, hvalue⟩

/-- A container that a visit leads to and that may be entered has been entered
by then, through this visit or an earlier one. -/
theorem exists_opened_of_visit {v : Visit} (hv : v ∈ visits g s seen log pending) {id : NodeId}
    {c : Container} (hvalue : v.value = .node id) (hreaches : s.reaches v.way.path = true)
    (hnode : g.node? id = some c) :
    id ∈ seen ∨ ∃ u, u.opened = some (id, c) ∧
      (u = v ∨ [u, v].Sublist (visits g s seen log pending)) := by
  fun_induction visits g s seen log pending with
  | case1 => simp at hv
  | case2 seen log p rest log' hlook ih => exact ih hv
  | case3 seen log p rest found log' hlook visit ih =>
    rcases List.mem_cons.1 hv with rfl | hv
    · by_cases hseen : id ∈ seen
      · exact .inl hseen
      · refine .inr ⟨visit, ?_, .inl rfl⟩
        have hfound : found = .node id := hvalue
        have hway : s.reaches p.reach.path = true := hreaches
        simp [visit, hfound, entered?, hway, hseen, hnode]
    · rcases ih hv with hseen | ⟨u, hopened, heq | hbefore⟩
      · rcases List.mem_append.1 hseen with hentered | hseen
        · obtain ⟨c', hopened⟩ := Visit.mem_entered.1 hentered
          obtain ⟨_, _, _, hnode'⟩ := entered?_eq_some hopened
          obtain rfl : c' = c := Option.some.inj (hnode'.symm.trans hnode)
          exact .inr ⟨visit, hopened, .inr ((List.singleton_sublist.2 hv).cons_cons _)⟩
        · exact .inl hseen
      · exact .inr ⟨u, hopened, .inl heq⟩
      · exact .inr ⟨u, hopened, .inr (hbefore.cons _)⟩

/-! ## Nothing is visited twice -/

theorem pending_or_new_of_mem_visits {v : Visit} (hv : v ∈ visits g s seen log pending) :
    v.pending ∈ pending ∨ v.pending.child.parent ∉ seen := by
  rcases origin_of_mem_visits hv with hmem | ⟨u, hu, hmem⟩
  · exact .inl hmem
  · obtain ⟨id, c, hopened, _, hchild⟩ := Visit.mem_children.1 hmem
    rw [Container.parent_of_mem_children hchild]
    exact .inr (opened_of_mem_visits hu hopened).2.2.2

/-- A container is entered by one visit only. -/
theorem eq_of_opened {v v' : Visit} (hv : v ∈ visits g s seen log pending)
    (hv' : v' ∈ visits g s seen log pending) {id : NodeId} {c c' : Container}
    (hopened : v.opened = some (id, c)) (hopened' : v'.opened = some (id, c')) : v = v' := by
  fun_induction visits g s seen log pending with
  | case1 => simp at hv
  | case2 seen log p rest log' hlook ih => exact ih hv hv'
  | case3 seen log p rest value log' hlook visit ih =>
    have hlater : ∀ u ∈ visits g s (visit.entered ++ seen) log' (visit.children ++ rest),
        ∀ c, u.opened = some (id, c) → id ∉ visit.entered := by
      intro u hu c hu' hmem
      exact (opened_of_mem_visits hu hu').2.2.2 (List.mem_append_left _ hmem)
    rcases List.mem_cons.1 hv with rfl | hv
    · rcases List.mem_cons.1 hv' with rfl | hv'
      · rfl
      · exact absurd (Visit.mem_entered.2 ⟨c, hopened⟩) (hlater v' hv' c' hopened')
    · rcases List.mem_cons.1 hv' with rfl | hv'
      · exact absurd (Visit.mem_entered.2 ⟨c', hopened'⟩) (hlater v hv c hopened)
      · exact ih hv hv'

theorem nodup_pendingOf_sites (id : NodeId) (c : Container) (way : Way) :
    ((pendingOf id c way).map (·.child.site)).Nodup := by
  rw [pendingOf, List.map_map]
  exact c.nodup_sites id

theorem Visit.nodup_children_sites (v : Visit) : (v.children.map (·.child.site)).Nodup := by
  cases hopened : v.opened with
  | none => simp [children, hopened]
  | some opened => simpa [children, hopened] using nodup_pendingOf_sites opened.1 opened.2 v.way

/-- What waits are different slots of containers that were entered. -/
structure Apart (seen : List NodeId) (pending : List Pending) : Prop where
  entered : ∀ p ∈ pending, p.child.parent ∈ seen
  sites : (pending.map (·.child.site)).Nodup

theorem Apart.of_cons (h : Apart seen (p :: rest)) : Apart seen rest :=
  ⟨fun r hr => h.entered r (List.mem_cons_of_mem _ hr), (List.nodup_cons.1 h.sites).2⟩

/-- The first slot does not wait once more. -/
theorem Apart.site_ne (h : Apart seen (p :: rest)) : ∀ r ∈ rest, r.child.site ≠ p.child.site := by
  intro r hr heq
  exact (List.nodup_cons.1 h.sites).1 (List.mem_map.2 ⟨r, hr, heq⟩)

/-- The slots that wait because of a look are those of a container that was not seen before. -/
theorem parent_of_mem_children_look {r : Pending}
    (hr : r ∈ Visit.children ⟨p, value, entered? g s seen p.reach.path value⟩) :
    r.child.parent ∈ Visit.entered ⟨p, value, entered? g s seen p.reach.path value⟩ ∧
      r.child.parent ∉ seen := by
  obtain ⟨id, c, hopened, _, hmem⟩ := Visit.mem_children.1 hr
  obtain ⟨_, _, hnew, _⟩ := entered?_eq_some hopened
  rw [Container.parent_of_mem_children hmem]
  exact ⟨Visit.mem_entered.2 ⟨c, hopened⟩, by simpa using hnew⟩

/-- What waits after a look is apart if what waited before is. -/
theorem Apart.after_look (h : Apart seen (p :: rest)) (value : Value) :
    let visit : Visit := ⟨p, value, entered? g s seen p.reach.path value⟩
    Apart (visit.entered ++ seen) (visit.children ++ rest) := by
  intro visit
  refine ⟨fun r hr => ?_, ?_⟩
  · rcases List.mem_append.1 hr with hr | hr
    · exact List.mem_append_left _ (parent_of_mem_children_look hr).1
    · exact List.mem_append_right _ (h.of_cons.entered r hr)
  · rw [List.map_append]
    refine List.nodup_append.2 ⟨visit.nodup_children_sites, h.of_cons.sites, ?_⟩
    intro a ha b hb heq
    obtain ⟨r, hr, rfl⟩ := List.mem_map.1 ha
    obtain ⟨r', hr', rfl⟩ := List.mem_map.1 hb
    injection heq with hid
    exact (parent_of_mem_children_look hr).2 (hid ▸ h.of_cons.entered r' hr')

/-- Each slot is visited once, when the slots of what was entered before are
either pending or done. -/
theorem nodup_visits (hapart : Apart seen pending) :
    ((visits g s seen log pending).map (·.pending.child.site)).Nodup := by
  fun_induction visits g s seen log pending with
  | case1 => exact .nil
  | case2 seen log p rest log' hlook ih => exact ih hapart.of_cons
  | case3 seen log p rest value log' hlook visit ih =>
    have hother : ∀ r : Pending, r.child.parent ∉ seen → r.child.site ≠ p.child.site := by
      intro r hr heq
      injection heq with hid
      exact hr (hid ▸ hapart.entered p (List.mem_cons_self ..))
    refine List.nodup_cons.2 ⟨fun hmem => ?_, ih (hapart.after_look value)⟩
    obtain ⟨v, hv, heq⟩ := List.mem_map.1 hmem
    rcases pending_or_new_of_mem_visits hv with hpending | hnew
    · rcases List.mem_append.1 hpending with hpending | hpending
      · exact hother _ (parent_of_mem_children_look hpending).2 heq
      · exact hapart.site_ne _ hpending heq
    · exact hother _ (fun hmem => hnew (List.mem_append_right _ hmem)) heq

/-- The slots of one container are apart. -/
theorem apart_pendingOf (id : NodeId) (c : Container) (way : Way) : Apart [id] (pendingOf id c way) := by
  refine ⟨fun p hp => ?_, nodup_pendingOf_sites id c way⟩
  rw [Container.parent_of_mem_children (mem_pendingOf.1 hp).2]
  exact List.mem_singleton.2 rfl

end Search

/-! ## The visits of a whole search -/

theorem Scope.reaches_iff {s : Scope} {path : Path} :
    s.reaches path = true ↔ s.maxDepth = 0 ∨ path.length < s.maxDepth := by
  simp [reaches]

/-- The target itself is never too deep. -/
theorem Scope.reaches_nil (s : Scope) : s.reaches [] = true :=
  reaches_iff.2 (Nat.eq_zero_or_pos s.maxDepth)

namespace Graph

open Search

/-- What a search from a target visits. -/
def visits (g : Graph) (target : Value) (s : Scope) (log : ReadLog) : List Visit :=
  match entered? g s [] [] target with
  | some (id, c) => Search.visits g s [id] log (pendingOf id c [])
  | none => []

/-- The search enters a container at the end of this way. -/
def Enters (g : Graph) (target : Value) (s : Scope) (log : ReadLog) (id : NodeId) (way : Way) : Prop :=
  (target = .node id ∧ way = []) ∨
    ∃ v ∈ g.visits target s log, ∃ c, v.opened = some (id, c) ∧ v.way = way

variable {g : Graph} {target : Value} {s : Scope} {log : ReadLog}

theorem entered?_target (s : Scope) {id : NodeId} {c : Container} (hnode : g.node? id = some c) :
    entered? g s [] [] (.node id) = some (id, c) := by
  simp [entered?, s.reaches_nil, hnode]

theorem visits_eq (log : ReadLog) {id : NodeId} {c : Container} (hnode : g.node? id = some c) :
    g.visits (.node id) s log = Search.visits g s [id] log (pendingOf id c []) := by
  simp [visits, entered?_target s hnode]

/-- Only a target that is a container leads to visits. -/
theorem visits_of_mem {v : Visit} (hv : v ∈ g.visits target s log) :
    ∃ id c, target = .node id ∧ g.node? id = some c ∧
      g.visits target s log = Search.visits g s [id] log (pendingOf id c []) := by
  cases hentered : entered? g s [] [] target with
  | none => simp [visits, hentered] at hv
  | some opened =>
    obtain ⟨id, c⟩ := opened
    obtain ⟨rfl, _, _, hnode⟩ := entered?_eq_some hentered
    exact ⟨id, c, rfl, hnode, visits_eq log hnode⟩

/-- The slots of a target are located. -/
theorem located_of_mem_pendingOf {id : NodeId} {c : Container} (hnode : g.node? id = some c) {p : Pending}
    (hp : p ∈ pendingOf id c []) : p.Located g s (.node id) := by
  obtain ⟨hway, hchild⟩ := mem_pendingOf.1 hp
  refine ⟨?_, has_of_mem_children hnode hchild⟩
  rw [hway, Container.parent_of_mem_children hchild]
  exact .here _

theorem located_of_mem_visits {v : Visit} (hv : v ∈ g.visits target s log) :
    v.pending.Located g s target := by
  obtain ⟨id, c, rfl, hnode, heq⟩ := visits_of_mem hv
  rw [heq] at hv
  exact Search.located_of_mem_visits (fun p => located_of_mem_pendingOf hnode) hv

theorem canCross_of_mem_visits {v : Visit} (hv : v ∈ g.visits target s log) :
    s.CanCross v.pending.child v.value := by
  obtain ⟨_, _, _, _, heq⟩ := visits_of_mem hv
  rw [heq] at hv
  exact Search.canCross_of_mem_visits hv

theorem walk_of_mem_visits {v : Visit} (hv : v ∈ g.visits target s log) :
    g.Walk s.CanCross target v.way v.value :=
  have hlocated := located_of_mem_visits hv
  hlocated.walk.snoc hlocated.has (canCross_of_mem_visits hv)

theorem opened_of_mem_visits {v : Visit} (hv : v ∈ g.visits target s log) {id : NodeId}
    {c : Container} (hopened : v.opened = some (id, c)) :
    v.value = .node id ∧ s.reaches v.way.path = true ∧ g.node? id = some c := by
  obtain ⟨_, _, _, _, heq⟩ := visits_of_mem hv
  rw [heq] at hv
  obtain ⟨hvalue, hreaches, hnode, _⟩ := Search.opened_of_mem_visits hv hopened
  exact ⟨hvalue, hreaches, hnode⟩

theorem nodup_visits (g : Graph) (target : Value) (s : Scope) (log : ReadLog) :
    ((g.visits target s log).map (·.pending.child.site)).Nodup := by
  cases hentered : entered? g s [] [] target with
  | none => simp [visits, hentered]
  | some opened =>
    obtain ⟨id, c⟩ := opened
    obtain ⟨rfl, _, _, hnode⟩ := entered?_eq_some hentered
    rw [visits_eq log hnode]
    exact Search.nodup_visits (apart_pendingOf id c [])

/-! ### What is entered -/

theorem Enters.walk {id : NodeId} {way : Way} (h : g.Enters target s log id way) :
    g.Walk s.CanCross target way (.node id) := by
  rcases h with ⟨rfl, rfl⟩ | ⟨v, hv, c, hopened, rfl⟩
  · exact .here _
  · rw [← (opened_of_mem_visits hv hopened).1]
    exact walk_of_mem_visits hv

theorem Enters.reaches {id : NodeId} {way : Way} (h : g.Enters target s log id way) :
    s.reaches way.path = true := by
  rcases h with ⟨rfl, rfl⟩ | ⟨v, hv, c, hopened, rfl⟩
  · exact s.reaches_nil
  · exact (opened_of_mem_visits hv hopened).2.1

/-- Slots are visited only where their container is entered. -/
theorem enters_of_mem_visits {v : Visit} (hv : v ∈ g.visits target s log) :
    g.Enters target s log v.pending.child.parent v.pending.way := by
  obtain ⟨id, c, rfl, hnode, heq⟩ := visits_of_mem hv
  rw [heq] at hv
  rcases origin_of_mem_visits hv with hmem | ⟨u, hu, hmem⟩
  · obtain ⟨hway, hchild⟩ := mem_pendingOf.1 hmem
    exact .inl ⟨by rw [Container.parent_of_mem_children hchild], hway⟩
  · obtain ⟨id', c', hopened, hway, hchild⟩ := Visit.mem_children.1 hmem
    rw [Container.parent_of_mem_children hchild]
    exact .inr ⟨u, heq ▸ hu, c', hopened, hway.symm⟩

/-- A container is entered along one way only. -/
theorem Enters.unique {id : NodeId} {way way' : Way} (h : g.Enters target s log id way)
    (h' : g.Enters target s log id way') : way = way' := by
  have hnew : ∀ v ∈ g.visits target s log, ∀ c, v.opened = some (id, c) → target ≠ .node id := by
    rintro v hv c hopened rfl
    obtain ⟨id', _, hid, _, heq⟩ := visits_of_mem hv
    rw [heq] at hv
    exact (Search.opened_of_mem_visits hv hopened).2.2.2 (by simpa using Value.node.inj hid)
  rcases h with ⟨htarget, rfl⟩ | ⟨v, hv, c, hopened, rfl⟩
  · rcases h' with ⟨_, rfl⟩ | ⟨v', hv', c', hopened', rfl⟩
    · rfl
    · exact absurd htarget (hnew v' hv' c' hopened')
  · rcases h' with ⟨htarget, rfl⟩ | ⟨v', hv', c', hopened', rfl⟩
    · exact absurd htarget (hnew v hv c hopened)
    · obtain ⟨_, _, _, _, heq⟩ := visits_of_mem hv
      rw [heq] at hv hv'
      rw [eq_of_opened hv hv' hopened hopened']

/-- What lies on the way to a visited slot was entered along the same way. -/
theorem enters_of_way {v : Visit} {before after : Way} {x : Child} (hv : v ∈ g.visits target s log)
    (hway : v.way = before ++ x :: after) : g.Enters target s log x.parent before := by
  rcases List.eq_nil_or_concat after with rfl | ⟨init, y, rfl⟩
  · obtain ⟨rfl, hchild⟩ := List.append_inj' hway rfl
    obtain rfl := List.singleton_inj.1 hchild
    exact enters_of_mem_visits hv
  · have hinit : v.way = (before ++ x :: init) ++ [y] := by simpa using hway
    obtain ⟨hpending, _⟩ := List.append_inj' hinit rfl
    rcases enters_of_mem_visits hv with ⟨_, hnil⟩ | ⟨u, hu, _, _, hentered⟩
    · simp [hpending] at hnil
    · exact enters_of_way hu (hentered.trans hpending)
termination_by after.length

/-- All slots of a container that is entered are looked at. -/
theorem Enters.exists_visit {x : Child} {way : Way} {value : Value}
    (h : g.Enters target s log x.parent way) (hx : g.Has x) (hcross : s.Crosses x value) :
    ∃ v ∈ g.visits target s log, v.pending = ⟨way, x⟩ ∧ v.value = value := by
  rcases h with ⟨rfl, rfl⟩ | ⟨u, hu, c, hopened, rfl⟩
  · rw [visits_eq log hx.node]
    exact exists_visit_of_crosses hcross (.inl (mem_pendingOf.2 ⟨rfl, hx.mem_children⟩))
  · obtain ⟨_, _, hnode⟩ := opened_of_mem_visits hu hopened
    obtain rfl : x.container = c := Option.some.inj (hx.node.symm.trans hnode)
    have hchild : ⟨u.way, x⟩ ∈ u.children := Visit.mem_children.2 ⟨_, _, hopened, rfl, hx.mem_children⟩
    obtain ⟨_, _, _, _, heq⟩ := visits_of_mem hu
    rw [heq] at hu ⊢
    exact exists_visit_of_crosses hcross (.inr ⟨u, hu, hchild⟩)

/-- A container that a visit leads to is entered, unless the way is too long: at
the target, through this visit, or through one before. -/
theorem exists_enters_by {v : Visit} (hv : v ∈ g.visits target s log) {id : NodeId} {c : Container}
    (hvalue : v.value = .node id) (hreaches : s.reaches v.way.path = true)
    (hnode : g.node? id = some c) :
    ∃ way, g.Enters target s log id way ∧
      (way = [] ∨ way = v.way ∨ ∃ u, u.way = way ∧ [u, v].Sublist (g.visits target s log)) := by
  obtain ⟨start, _, rfl, _, heq⟩ := visits_of_mem hv
  have hv' := hv
  rw [heq] at hv'
  rcases exists_opened_of_visit hv' hvalue hreaches hnode with hseen | ⟨u, hopened, rfl | hbefore⟩
  · obtain rfl := List.mem_singleton.1 hseen
    exact ⟨[], .inl ⟨rfl, rfl⟩, .inl rfl⟩
  · exact ⟨u.way, .inr ⟨u, hv, c, hopened, rfl⟩, .inr (.inl rfl)⟩
  · rw [← heq] at hbefore
    exact ⟨u.way, .inr ⟨u, hbefore.subset (List.mem_cons_self ..), c, hopened, rfl⟩,
      .inr (.inr ⟨u, rfl, hbefore⟩)⟩

theorem exists_enters {v : Visit} (hv : v ∈ g.visits target s log) {id : NodeId} {c : Container}
    (hvalue : v.value = .node id) (hreaches : s.reaches v.way.path = true)
    (hnode : g.node? id = some c) : ∃ way, g.Enters target s log id way :=
  have ⟨way, henters, _⟩ := exists_enters_by hv hvalue hreaches hnode
  ⟨way, henters⟩

end Graph

end ObjectGraph
