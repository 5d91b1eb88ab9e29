-- SUMMARY: Nested visits and the walk come to one outcome; nothing is expanded, asked or read twice.
import ObjectGraph.Proofs.Search.Nested

/-! # Bounds of a search

The nested visits find, ask and read what the walk does
(`Graph.outcome_searchNested`), so what is true of their course is true of the
search. A slot that is asked about and one that still waits are never the same,
and their containers were each expanded once (`Search.Sound`). One visit for each
container and one more are always enough (`Graph.search_nests_within_size`).
-/

namespace ObjectGraph

namespace Search

variable {g : Graph} {q : Query} {s : Scope} {r r' : Course} {p : Pending} {slots rest : List Pending}
  {v : Value} {way : Way} {log log' : ReadLog} {seen : List NodeId}

/-! ## Nested visits and the walk -/

theorem walk_full (seen : List NodeId) (log : ReadLog) (pending : List Pending) :
    walk g q seen 0 log pending = ⟨[], [], log⟩ := by
  cases pending <;> simp [walk]

theorem walk_skip {room : Nat} (hroom : room ≠ 0) (h : p.look q.toScope log = (none, log')) :
    walk g q seen room log (p :: rest) =
      let later := walk g q seen room log' rest
      { later with consulted := p.child.consulted q.toScope :: later.consulted } := by
  rw [walk, if_neg hroom]
  cases haccepted : q.accepts p.child.container p.child.slot.key with
  | false =>
    rw [look_rejected haccepted] at h
    obtain rfl := (Prod.mk.inj h).2
    simp [haccepted, Child.consulted]
  | true =>
    cases hread : p.child.slot.content.read log with
    | mk outcome after =>
      cases outcome with
      | ok value =>
        rw [look_read haccepted hread] at h
        cases h
      | error e =>
        rw [look_failed haccepted hread] at h
        obtain rfl := (Prod.mk.inj h).2
        simp [haccepted, Child.consulted]

theorem walk_read {room : Nat} (hroom : room ≠ 0) (h : p.look q.toScope log = (some v, log')) :
    walk g q seen room log (p :: rest) =
      let hits := (hitsAt g q p.child.slot.key p.reach.path p.reach.places v).take room
      let later := match entered? g q.toScope seen p.reach.path v with
        | some (id, c) =>
          walk g q (id :: seen) (room - hits.length) log' (pendingOf id c p.reach ++ rest)
        | none => walk g q seen (room - hits.length) log' rest
      ⟨hits ++ later.hits, p.child.consulted q.toScope :: later.consulted, later.log⟩ := by
  rw [walk, if_neg hroom]
  cases haccepted : q.accepts p.child.container p.child.slot.key with
  | false =>
    rw [look_rejected haccepted] at h
    cases h
  | true =>
    cases hread : p.child.slot.content.read log with
    | mk outcome after =>
      cases outcome with
      | error e =>
        rw [look_failed haccepted hread] at h
        cases h
      | ok value =>
        rw [look_read haccepted hread] at h
        obtain ⟨hv, rfl⟩ := Prod.mk.inj h
        obtain rfl := Option.some.inj hv
        simp only [if_true, haccepted, Child.consulted]
        split <;> rename_i hentered <;> simp only [hentered]

/-- The lists name the same containers, whatever references lead nowhere. -/
def SameSeen (g : Graph) (seen followed : List NodeId) : Prop :=
  ∀ id c, g.node? id = some c → (id ∈ seen ↔ id ∈ followed)

theorem SameSeen.entered?_eq {followed : List NodeId} (h : SameSeen g seen followed) (s : Scope)
    (path : Path) (v : Value) : entered? g s seen path v = entered? g s followed path v := by
  cases v with
  | node id =>
    cases hnode : g.node? id with
    | none => simp [entered?, hnode]
    | some c => simp [entered?, hnode, h id c hnode]
  | _ => rfl

theorem SameSeen.cons {followed : List NodeId} (h : SameSeen g seen followed) (id : NodeId) :
    SameSeen g (id :: seen) (id :: followed) := by
  intro id' c hnode
  simp [h id' c hnode]

theorem SameSeen.closed {followed followed' : List NodeId} (h : SameSeen g seen followed)
    (hclosed : followed' = followed ∨ ∃ id, followed' = id :: followed ∧ g.node? id = none) :
    SameSeen g seen followed' := by
  rcases hclosed with rfl | ⟨id, rfl, hnone⟩
  · exact h
  · intro id' c hnode
    have hne : id' ≠ id := by
      rintro rfl
      simp [hnone] at hnode
    simp [h id' c hnode, hne]

theorem andThen_skip (later : Outcome) :
    r.andThen q.toScope { later with consulted := p.child.consulted q.toScope :: later.consulted } =
      Course.andThen q.toScope { r.ask p.child with log } later := by
  simp [Course.andThen, Course.ask]

theorem andThen_tested (log : ReadLog) (later : Outcome) :
    r.andThen q.toScope
        ⟨(hitsAt g q p.child.slot.key p.reach.path p.reach.places v).take (r.room q) ++ later.hits,
          p.child.consulted q.toScope :: later.consulted, later.log⟩ =
      (tested g q p v log r).andThen q.toScope later := by
  simp [Course.andThen, Course.ask, tested, Course.report, Course.room]

theorem room_tested (log : ReadLog) : (tested g q p v log r).room q =
    r.room q - ((hitsAt g q p.child.slot.key p.reach.path p.reach.places v).take (r.room q)).length := by
  simp only [tested, Course.report, Course.room, Course.ask, List.length_append]
  omega

/-- A run comes to the outcome of the walk. -/
theorem outcome_of_runs {pending : List Pending} (h : Runs g q r pending r')
    (hseen : SameSeen g seen r.followed) :
    r.andThen q.toScope (walk g q seen (r.room q) r.log pending) = r'.outcome q.toScope := by
  induction h generalizing seen with
  | done => simp [walk, Course.andThen, Course.outcome]
  | full pending hfull => simp [hfull, walk_full, Course.andThen, Course.outcome]
  | @step r r₁ r' p slots rest hroom hadvances _ ih =>
    cases hadvances with
    | skipped hlook =>
      rw [walk_skip hroom hlook, andThen_skip]
      exact ih hseen
    | @read v log _ _ hlook hexpands =>
      rw [walk_read hroom hlook]
      simp only [andThen_tested log, ← room_tested log]
      have hseen : SameSeen g seen (tested g q p v log r).followed := hseen
      cases hexpands with
      | stopped hfull =>
        -- nothing is looked at any more, whatever would wait
        have hlater := ih hseen
        rw [hfull, walk_full] at hlater
        rw [hfull]
        split <;> rw [walk_full] <;> exact hlater
      | closed hentered hfollowed =>
        rw [hseen.entered?_eq, hentered]
        exact ih (hseen.closed hfollowed)
      | @opened id c hentered =>
        rw [hseen.entered?_eq, hentered]
        exact ih (hseen.cons id)

/-! ## Nothing is asked or expanded twice -/

theorem log_of_look {found : Option Value} (h : p.look s log = (found, log')) :
    log' = (p.child.reads s).toList ++ log := by
  unfold Pending.look at h
  unfold Child.reads Child.accessor?
  split at h
  · rename_i haccepted
    have hread : (p.child.slot.content.read log).2 = log' := by
      split at h <;> rename_i hread <;> rw [hread] <;> exact (Prod.mk.inj h).2
    rw [if_pos haccepted, ← hread]
    cases p.child.slot.content <;> rfl
  · rename_i hrejected
    obtain rfl := (Prod.mk.inj h).2
    rw [if_neg hrejected]
    rfl

/-- What was asked, and what is still to be looked at, are different slots of
containers that were expanded once each. -/
structure Sound (g : Graph) (s : Scope) (start : ReadLog) (r : Course) (pending : List Pending) :
    Prop where
  has : ∀ x ∈ r.asked ++ pending.map (·.child), g.Has x
  parent : ∀ x ∈ r.asked ++ pending.map (·.child), x.parent ∈ r.expanded.map (·.1)
  sites : ((r.asked ++ pending.map (·.child)).map Child.site).Nodup
  followed : ∀ id ∈ r.expanded.map (·.1), id ∈ r.followed
  expanded : (r.expanded.map (·.1)).Nodup
  log : r.log = (r.asked.filterMap (Child.reads s)).reverse ++ start

/-- Taking up the slots of a new container keeps apart what is asked. -/
theorem Sound.of_expands {start : ReadLog} (h : Sound g q.toScope start r rest)
    (hexpands : Expands g q way v r r' slots) : Sound g q.toScope start r' (slots ++ rest) := by
  cases hexpands with
  | stopped => exact h
  | closed _ hfollowed =>
    refine ⟨h.has, h.parent, h.sites, ?_, h.expanded, h.log⟩
    intro id hid
    rcases hfollowed with rfl | ⟨_, rfl, -⟩
    · exact h.followed id hid
    · exact List.mem_cons_of_mem _ (h.followed id hid)
  | @opened id c hopened =>
    obtain ⟨-, -, hnew, hnode⟩ := entered?_eq_some hopened
    have hnew : id ∉ r.expanded.map (·.1) := by
      intro hmem
      have hseen := h.followed id hmem
      simp [hseen] at hnew
    have hslot : ∀ x ∈ (pendingOf id c way).map (·.child), g.Has x ∧ x.parent = id := by
      intro x hx
      obtain ⟨p, hp, rfl⟩ := List.mem_map.1 hx
      have hchild := (mem_pendingOf.1 hp).2
      exact ⟨Graph.has_of_mem_children hnode hchild, Container.parent_of_mem_children hchild⟩
    -- the new slots may as well stand in front of what was asked before
    have hperm : List.Perm (r.asked ++ (pendingOf id c way ++ rest).map (·.child))
        ((pendingOf id c way).map (·.child) ++ (r.asked ++ rest.map (·.child))) := by
      rw [List.map_append, ← List.append_assoc, ← List.append_assoc]
      exact (List.perm_append_comm).append_right _
    refine ⟨?_, ?_, ?_, ?_, ?_, h.log⟩
    · intro x hx
      rcases List.mem_append.1 (hperm.mem_iff.1 hx) with hx | hx
      · exact (hslot x hx).1
      · exact h.has x hx
    · intro x hx
      rcases List.mem_append.1 (hperm.mem_iff.1 hx) with hx | hx
      · rw [(hslot x hx).2]
        exact List.mem_cons_self ..
      · exact List.mem_cons_of_mem _ (h.parent x hx)
    · rw [(hperm.map Child.site).nodup_iff, List.map_append]
      refine List.nodup_append.2 ⟨?_, h.sites, ?_⟩
      · rw [List.map_map]
        exact nodup_pendingOf_sites id c way
      · intro a ha b hb heq
        obtain ⟨x, hx, rfl⟩ := List.mem_map.1 ha
        obtain ⟨y, hy, rfl⟩ := List.mem_map.1 hb
        injection heq with hparent
        refine hnew ?_
        rw [← (hslot x hx).2, hparent]
        exact h.parent y hy
    · intro id' hid'
      rcases List.mem_cons.1 hid' with rfl | hid'
      · exact List.mem_cons_self ..
      · exact List.mem_cons_of_mem _ (h.followed id' hid')
    · exact List.nodup_cons.2 ⟨hnew, h.expanded⟩

theorem Sound.of_advances {start : ReadLog} (h : Sound g q.toScope start r (p :: rest))
    (hadvances : Advances g q p r r' slots) : Sound g q.toScope start r' (slots ++ rest) := by
  have hasked : r.asked ++ (p :: rest).map (·.child) =
      (r.asked ++ [p.child]) ++ rest.map (·.child) := by simp
  have hbase : ∀ hits log, log = (p.child.reads q.toScope).toList ++ r.log →
      Sound g q.toScope start ⟨hits, r.followed, r.expanded, r.asked ++ [p.child], log⟩ rest := by
    intro hits log hlog
    refine ⟨hasked ▸ h.has, hasked ▸ h.parent, hasked ▸ h.sites, h.followed, h.expanded, ?_⟩
    cases hreads : p.child.reads q.toScope <;> simp [hlog, h.log, hreads]
  cases hadvances with
  | skipped hlook => exact hbase _ _ (log_of_look hlook)
  | read hlook hexpands => exact (hbase _ _ (log_of_look hlook)).of_expands hexpands

theorem Sound.of_runs {start : ReadLog} {pending : List Pending} (h : Sound g q.toScope start r pending)
    (hruns : Runs g q r pending r') : ∃ left, Sound g q.toScope start r' left := by
  induction hruns with
  | done r => exact ⟨[], h⟩
  | full pending => exact ⟨pending, h⟩
  | step _ hadvances _ ih => exact ih (h.of_advances hadvances)

end Search

/-! ## Whole searches -/

namespace Graph

open Search

variable {g : Graph} {target : Value} {q : Query} {log : ReadLog}

/-- The nested search is a run from what the visit of the target expands. -/
theorem exists_searchNested (g : Graph) (target : Value) (q : Query) (log : ReadLog)
    (htarget : target.isNullish = false) :
    ∃ r r₁ slots, g.searchNested (g.size + 1) target q log = some r ∧
      Expands g q [] target ((Course.start log).report q (typeHits g q [] target)) r₁ slots ∧
      Runs g q r₁ slots r := by
  have hsize : g.unseen [] ≤ g.size := by
    unfold unseen
    exact Nat.le_trans (List.length_filter_le _ _) (Nat.le_of_eq List.length_range)
  have hreaches : target.isScalar = true → q.reaches (Way.path []) = true := fun _ =>
    q.reaches_nil
  obtain ⟨r, hvisit, -⟩ :=
    suffices_visit (g := g) (q := q) (Nat.lt_succ_self g.size) (r := .start log) hreaches hsize
  have hruns := resumes_visit (g.size + 1) hvisit (.done r)
  rw [List.append_nil] at hruns
  refine ⟨r, _, _, ?_, expands_of_expand hreaches rfl, hruns⟩
  rw [searchNested, htarget]
  exact hvisit

/-- The search tests its target and then walks below it. -/
theorem search_eq (htarget : target.isNullish = false) :
    g.search target q log =
      let r := (Course.start log).report q (typeHits g q [] target)
      r.andThen q.toScope <|
        match entered? g q.toScope [] [] target with
        | some (id, c) => walk g q [id] (r.room q) log (pendingOf id c [])
        | none => ⟨[], [], log⟩ := by
  have hhits : typeHits g q [] target =
      if q.mode.checks .type && q.criterion.matchesType g target then [⟨[], [], target, .type⟩]
      else [] := by
    simp [typeHits, testsType, q.reaches_nil, Way.path, Way.places]
  rw [search, htarget, hhits]
  cases hentered : entered? g q.toScope [] [] target <;>
    simp [Course.andThen, Course.report, Course.room, Course.start]

theorem outcome_searchNested {r r₁ : Course} {slots : List Pending} (htarget : target.isNullish = false)
    (hexpands : Expands g q [] target ((Course.start log).report q (typeHits g q [] target)) r₁ slots)
    (hruns : Runs g q r₁ slots r) : r.outcome q.toScope = g.search target q log := by
  have hseen : SameSeen g [] [] := fun _ _ _ => Iff.rfl
  have hnone : ∀ room, walk g q [] room log [] = ⟨[], [], log⟩ := fun room => by rw [walk]
  rw [search_eq htarget]
  cases hexpands with
  | stopped hfull =>
    rw [← outcome_of_runs hruns hseen]
    simp only [hfull]
    split
    · rw [walk_full, walk_full]
      rfl
    · rw [walk_full]
      rfl
  | closed hentered hfollowed =>
    rw [← outcome_of_runs hruns (hseen.closed hfollowed)]
    have hentered : entered? g q.toScope [] [] target = none := hentered
    simp only [hentered]
    exact congrArg _ (hnone _)
  | @opened id c hentered =>
    rw [← outcome_of_runs hruns (hseen.cons id)]
    have hentered : entered? g q.toScope [] [] target = some (id, c) := hentered
    simp only [hentered]
    rfl

/-- What can be read at one slot only is read at most once. -/
theorem count_reads_le_one {asked : List Child} {a : Nat} (s : Scope)
    (hnodup : (asked.map Child.site).Nodup)
    (hone : ∀ x ∈ asked, ∀ y ∈ asked, x.accessor? = some a → y.accessor? = some a → x = y) :
    (asked.filterMap (Child.reads s)).count a ≤ 1 := by
  have haccessor : ∀ x : Child, x.reads s = some a → x.accessor? = some a := by
    intro x hx
    unfold Child.reads at hx
    split at hx
    · exact hx
    · cases hx
  induction asked with
  | nil => simp
  | cons x rest ih =>
    obtain ⟨hnew, hrest⟩ := List.nodup_cons.1 hnodup
    have hle := ih hrest fun y hy z hz => hone y (List.mem_cons_of_mem _ hy) z (List.mem_cons_of_mem _ hz)
    by_cases hx : x.reads s = some a
    · have hnone : a ∉ rest.filterMap (Child.reads s) := by
        intro hmem
        obtain ⟨y, hy, hreads⟩ := List.mem_filterMap.1 hmem
        have hsame := hone x (List.mem_cons_self ..) y (List.mem_cons_of_mem _ hy)
          (haccessor x hx) (haccessor y hreads)
        exact hnew (List.mem_map.2 ⟨y, hy, congrArg Child.site hsame.symm⟩)
      simp [List.filterMap_cons_some hx, List.count_eq_zero.2 hnone]
    · cases hreads : x.reads s with
      | none => rwa [List.filterMap_cons_none hreads]
      | some b =>
        have hne : b ≠ a := by
          rintro rfl
          exact hx hreads
        rwa [List.filterMap_cons_some hreads, List.count_cons_of_ne hne]

/-- A search needs no more nested visits than there are containers, and one. It
expands each container at most once, asks the filter about each slot at most
once, and reads the accessor behind each accepted slot when it asks; so an
accessor that stands behind one slot is read at most once. -/
theorem search_nests_within_size (g : Graph) (target : Value) (q : Query) (log : ReadLog) :
    ∃ r, g.searchNested (g.size + 1) target q log = some r ∧
      r.outcome q.toScope = g.search target q log ∧
      (r.expanded.map (·.1)).Nodup ∧
      (∀ x ∈ r.asked, g.Has x) ∧ (r.asked.map Child.site).Nodup ∧
      r.log = (r.asked.filterMap (Child.reads q.toScope)).reverse ++ log ∧
      ∀ a, (∀ x y, g.Has x → g.Has y → x.accessor? = some a → y.accessor? = some a → x = y) →
        r.log.count a ≤ log.count a + 1 := by
  cases htarget : target.isNullish with
  | true =>
    refine ⟨.start log, ?_, ?_, .nil, ?_, .nil, rfl, fun a _ => Nat.le_succ _⟩
    · simp [searchNested, htarget]
    · simp [search, htarget, Course.outcome, Course.start]
    · simp [Course.start]
  | false =>
    obtain ⟨r, r₁, slots, hsearch, hexpands, hruns⟩ := exists_searchNested g target q log htarget
    have hstart : Sound g q.toScope log ((Course.start log).report q (typeHits g q [] target)) [] :=
      ⟨by simp [Course.report, Course.start], by simp [Course.report, Course.start], .nil,
        by simp [Course.report, Course.start], .nil, rfl⟩
    have hsound := hstart.of_expands hexpands
    rw [List.append_nil] at hsound
    obtain ⟨left, hsound⟩ := hsound.of_runs hruns
    have hhas : ∀ x ∈ r.asked, g.Has x := fun x hx => hsound.has x (List.mem_append_left _ hx)
    have hsites : (r.asked.map Child.site).Nodup := by
      have hall := hsound.sites
      rw [List.map_append] at hall
      exact (List.nodup_append.1 hall).1
    refine ⟨r, hsearch, outcome_searchNested htarget hexpands hruns, hsound.expanded, hhas, hsites,
      hsound.log, ?_⟩
    intro a hone
    have hreads := count_reads_le_one q.toScope hsites fun x hx y hy =>
      hone x y (hhas x hx) (hhas y hy)
    rw [hsound.log, List.count_append, List.count_reverse]
    omega

end Graph

end ObjectGraph
