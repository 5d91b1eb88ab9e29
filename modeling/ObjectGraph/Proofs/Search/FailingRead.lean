-- SUMMARY: A property that cannot be read makes no difference to a search: it finds the same without it.
import ObjectGraph.Proofs.Search.Correspondence
import ObjectGraph.Proofs.Search.Renaming
import ObjectGraph.Proofs.Search.Selection
import Mathlib.Data.List.InsertIdx

/-! # Failing reads

A computed property that fails when it is read might as well not be there
(`Graph.search_skips_failing_field`), be it that its accessor fails at every read
(`Graph.failsWhenRead_of_failing`), or that its next read fails and no other slot has it
(`Graph.failsWhenRead_of_unshared`). The search with the property reads an accessor
more often than the search without it, and its other slots have other positions; all
else is the same in both. What the reads of the two searches have in common is
`Search.Aligned`: the logs agree on every other accessor, and a property that can fail
once only is still to be read.
-/

namespace ObjectGraph

/-! ## Properties that fail -/

/-- From this read on every read fails. -/
def Accessor.FailsFrom (a : Accessor) (k : Nat) : Prop := ∀ n, k ≤ n → ∃ e, a.answer n = .error e

/-- The slot is computed, and no search that starts after these reads can read it: the
next read of its accessor fails, and if another slot has the same accessor, which may be
read before this one, so do all later reads. Reads of other accessors do not matter, as
what an accessor gives depends on its own reads only. -/
structure Graph.FailsWhenRead (g : Graph) (log : ReadLog) (x : Child) (a : Accessor) : Prop where
  has : g.Has x
  content : x.slot.content = .computed a
  next : ∃ e, a.answer (log.count a.id) = .error e
  shared : ∀ y b, g.Has y → y.site ≠ x.site → y.slot.content = .computed b → b.id = a.id →
    a.FailsFrom (log.count a.id) ∧ b.FailsFrom (log.count a.id)

/-- The record without the field at a position. -/
def Record.eraseIdx (r : Record) (i : Nat) : Record :=
  ⟨r.className, r.fields.eraseIdx i, r.distinct.sublist ((List.eraseIdx_sublist ..).map _)⟩

/-- The graph without this field of a record. -/
def Graph.without (g : Graph) (x : Child) (r : Record) : Graph :=
  g.put x.parent (.record (r.eraseIdx x.position))

/-! ## The record without a field -/

/-- Where a slot of a record stands, if the slot at another position is left out. -/
def SlotMap.moved (gap i : Nat) : Nat := if gap < i then i - 1 else i

/-- The slots of a record without one of them: those behind it move up. -/
def SlotMap.without (x : Child) (r : Record) : SlotMap where
  keeps y := y.site != x.site
  image y :=
    if y.parent = x.parent then
      { y with
        container := .record (r.eraseIdx x.position)
        position := moved x.position y.position }
    else y

theorem SlotMap.slot_without (x : Child) (r : Record) (y : Child) :
    ((without x r).image y).slot = y.slot := by
  simp only [without]
  split <;> rfl

theorem Way.path_without (x : Child) (r : Record) (way : Way) :
    Way.path (way.map (SlotMap.without x r).image) = way.path := by
  rw [Way.path, List.map_map]
  exact List.map_congr_left fun y _ => by rw [Function.comp_apply, SlotMap.slot_without]

section

variable {x : Child} {r : Record} {c : Container} {slots : List Slot} {k : Nat}

/-- Child slots at a place one after the other, from a position on. -/
def Container.childrenFrom (c : Container) (id : NodeId) (slots : List Slot) (k : Nat) : List Child :=
  (slots.zipIdx k).map fun (slot, i) => ⟨id, c, i, slot⟩

theorem Container.children_eq_childrenFrom (c : Container) (id : NodeId) :
    c.children id = c.childrenFrom id c.slots 0 :=
  List.mapIdx_eq_zipIdx_map

theorem Container.childrenFrom_append (c : Container) (id : NodeId) (first last : List Slot) (k : Nat) :
    c.childrenFrom id (first ++ last) k =
      c.childrenFrom id first k ++ c.childrenFrom id last (k + first.length) := by
  simp [childrenFrom, List.zipIdx_append]

theorem Container.childrenFrom_cons (c : Container) (id : NodeId) (slot : Slot) (last : List Slot) (k : Nat) :
    c.childrenFrom id (slot :: last) k = ⟨id, c, k, slot⟩ :: c.childrenFrom id last (k + 1) := by
  simp [childrenFrom, List.zipIdx_cons]

/-- The slots that are kept move up if they stand behind the one that is left out. -/
theorem SlotMap.without_childrenFrom (hk : k + slots.length ≤ x.position ∨ x.position < k) :
    ((c.childrenFrom x.parent slots k).filter (without x r).keeps).map (without x r).image =
      (Container.record (r.eraseIdx x.position)).childrenFrom x.parent slots (moved x.position k) := by
  induction slots generalizing k with
  | nil => rfl
  | cons slot last ih =>
    rw [List.length_cons] at hk
    have hkeeps : (without x r).keeps ⟨x.parent, c, k, slot⟩ = true := by
      simp only [without, Child.site, bne_iff_ne, ne_eq, Site.slot.injEq, true_and]
      omega
    have himage : (without x r).image ⟨x.parent, c, k, slot⟩ =
        ⟨x.parent, .record (r.eraseIdx x.position), moved x.position k, slot⟩ := if_pos rfl
    have hnext : moved x.position (k + 1) = moved x.position k + 1 := by
      simp only [moved]
      split <;> split <;> omega
    rw [Container.childrenFrom_cons, List.filter_cons_of_pos hkeeps, List.map_cons, himage, ih (by omega),
      hnext, Container.childrenFrom_cons]

end

/-- Without the field a record has the slots that are kept. -/
theorem Container.children_eraseIdx {x : Child} {r : Record} (hrecord : x.container = .record r)
    (hslot : x.container.slots[x.position]? = some x.slot) :
    (record (r.eraseIdx x.position)).children x.parent =
      ((x.container.children x.parent).filter (SlotMap.without x r).keeps).map
        (SlotMap.without x r).image := by
  obtain ⟨hi, hslot⟩ := List.getElem?_eq_some_iff.1 hslot
  obtain ⟨before, behind, hsplit, hposition⟩ : ∃ before behind,
      x.container.slots = before ++ x.slot :: behind ∧ before.length = x.position := by
    refine ⟨x.container.slots.take x.position, x.container.slots.drop (x.position + 1), ?_, ?_⟩
    · rw [← hslot, List.getElem_cons_drop, List.take_append_drop]
    · exact List.length_take_of_le (Nat.le_of_lt hi)
  have herased : (record (r.eraseIdx x.position)).slots = before ++ behind := by
    calc (record (r.eraseIdx x.position)).slots
      _ = (record r).slots.eraseIdx x.position := (List.eraseIdx_map ..).symm
      _ = (before ++ x.slot :: behind).eraseIdx x.position := by rw [← hrecord, hsplit]
      _ = before ++ behind := by
        rw [← hposition, List.eraseIdx_append_of_length_le (Nat.le_refl _), Nat.sub_self,
          List.eraseIdx_cons_zero]
  have hleftOut : ¬(SlotMap.without x r).keeps ⟨x.parent, x.container, x.position, x.slot⟩ = true := by
    simp [SlotMap.without, Child.site]
  have hbefore : SlotMap.moved x.position 0 = 0 := if_neg (Nat.not_lt_zero _)
  have hbehind : SlotMap.moved x.position (x.position + 1) = x.position := if_pos (Nat.lt_succ_self _)
  rw [children_eq_childrenFrom, children_eq_childrenFrom, herased, hsplit, childrenFrom_append,
    childrenFrom_append, childrenFrom_cons, Nat.zero_add, hposition, List.filter_append,
    List.filter_cons_of_neg hleftOut, List.map_append, SlotMap.without_childrenFrom (.inl (by omega)),
    SlotMap.without_childrenFrom (.inr (Nat.lt_succ_self _)), hbefore, hbehind]

namespace Search

variable {g : Graph} {s : Scope} {x y : Child} {a : Accessor} {r : Record}
  {start log log' after : ReadLog} {seen : List NodeId} {p : Pending} {rest : List Pending}

/-! ## One look -/

theorem look_computed (h : s.accepts p.child.container p.child.slot.key = true)
    (hcontent : p.child.slot.content = .computed a) :
    p.look s log = ((a.answer (log.count a.id)).toOption, a.id :: log) := by
  have hread : p.child.slot.content.read log = (a.answer (log.count a.id), a.id :: log) := by
    rw [hcontent]
    rfl
  cases hanswer : a.answer (log.count a.id) with
  | error e => exact look_failed h (hanswer ▸ hread)
  | ok v => exact look_read h (hanswer ▸ hread)

/-- A look at a slot asks its accessor, or it does not depend on what was read. -/
theorem look_cases (p : Pending) (s : Scope) :
    (∃ found, ∀ log, p.look s log = (found, log)) ∨
    ∃ b, p.child.slot.content = .computed b ∧
      ∀ log, p.look s log = ((b.answer (log.count b.id)).toOption, b.id :: log) := by
  cases haccepted : s.accepts p.child.container p.child.slot.key with
  | false => exact .inl ⟨none, fun _ => look_rejected haccepted⟩
  | true =>
    cases hcontent : p.child.slot.content with
    | stored v => exact .inl ⟨some v, fun _ => look_read haccepted (by rw [hcontent]; rfl)⟩
    | computed b => exact .inr ⟨b, rfl, fun _ => look_computed haccepted hcontent⟩

/-- A filter that looks at kinds and classes does not see that the field is gone. -/
theorem accepts_without (hs : s.LooksAtKinds) (hx : g.Has x) (hrecord : x.container = .record r)
    (hy : g.Has y) :
    s.accepts ((SlotMap.without x r).image y).container ((SlotMap.without x r).image y).slot.key =
      s.accepts y.container y.slot.key := by
  rw [SlotMap.slot_without]
  by_cases hparent : y.parent = x.parent
  · have hcontainer : y.container = .record r := by
      rw [← hrecord]
      exact Option.some.inj (hy.node.symm.trans (hparent ▸ hx.node))
    have hslot := hy.slot
    rw [hcontainer] at hslot
    obtain ⟨⟨key, property⟩, -, hslot⟩ := List.mem_map.1 (List.mem_of_getElem? hslot)
    have himage : ((SlotMap.without x r).image y).container = .record (r.eraseIdx x.position) := by
      simp only [SlotMap.without, if_pos hparent]
    rw [himage, hcontainer, ← hslot]
    exact hs _ _ _ rfl rfl fun _ hkey => nomatch hkey
  · simp only [SlotMap.without, if_neg hparent]

/-! ## Reads of the two searches -/

/-- The slot waits, or its container may still be entered. -/
def Front.Awaits (front : Front) (x : Child) : Prop :=
  x.parent ∉ front.seen ∨ ∃ p ∈ front.pending, p.child.site = x.site

/-- What is awaited after a look was awaited before it, and not at the first place. -/
theorem Front.Awaits.of_next (h : (Front.next g s seen log p rest).Awaits x) :
    x.parent ∉ seen ∨ ∃ p ∈ rest, p.child.site = x.site := by
  cases hlook : (p.look s log).1 with
  | none =>
    rw [Front.next_skip (Prod.ext hlook rfl)] at h
    exact h
  | some value =>
    rw [Front.next_look (Prod.ext hlook rfl)] at h
    rcases h with hnew | ⟨p', hp', hsite⟩
    · exact .inl fun hmem => hnew (List.mem_append_right _ hmem)
    · rcases List.mem_append.1 hp' with hp' | hp'
      · have hparent : p'.child.parent = x.parent := by injection hsite
        exact .inl (hparent ▸ (parent_of_mem_children_look hp').2)
      · exact .inr ⟨p', hp', hsite⟩

/-- No other slot has the accessor. -/
def Unshared (g : Graph) (x : Child) (a : Accessor) : Prop :=
  ∀ y b, g.Has y → y.site ≠ x.site → y.slot.content = .computed b → b.id ≠ a.id

/-- The two logs differ in the reads of one accessor only. -/
structure LogsAgree (a : Accessor) (start log log' : ReadLog) : Prop where
  others : ∀ n, n ≠ a.id → log.count n = log'.count n
  least : start.count a.id ≤ log.count a.id
  least' : start.count a.id ≤ log'.count a.id

theorem LogsAgree.cons (h : LogsAgree a start log log') (n : Nat) :
    LogsAgree a start (n :: log) (n :: log') where
  others k hk := by rw [List.count_cons, List.count_cons, h.others k hk]
  least := Nat.le_trans h.least (List.count_le_count_cons ..)
  least' := Nat.le_trans h.least' (List.count_le_count_cons ..)

theorem LogsAgree.cons_left (h : LogsAgree a start log log') : LogsAgree a start (a.id :: log) log' where
  others k hk := by rw [List.count_cons_of_ne hk.symm, h.others k hk]
  least := Nat.le_trans h.least (List.count_le_count_cons ..)
  least' := h.least'

/-- How the search that has the slot and the one that does not go together. -/
structure Aligned (g : Graph) (x : Child) (a : Accessor) (start : ReadLog) (front : Front) (log' : ReadLog) :
    Prop where
  has : ∀ p ∈ front.pending, g.Has p.child
  apart : Apart front.seen front.pending
  logs : LogsAgree a start front.log log'
  unread : Unshared g x a → front.Awaits x → front.log.count a.id = start.count a.id

/-- After a look they still go together, if the reads do. -/
theorem Aligned.next (h : Aligned g x a start ⟨seen, log, p :: rest⟩ log')
    (hlogs : LogsAgree a start (p.look s log).2 after)
    (hunread : Unshared g x a → (Front.next g s seen log p rest).Awaits x →
      (p.look s log).2.count a.id = start.count a.id) :
    Aligned g x a start (.next g s seen log p rest) after := by
  have hhas : ∀ p ∈ rest, g.Has p.child := fun r hr => h.has r (List.mem_cons_of_mem _ hr)
  cases hlook : (p.look s log).1 with
  | none =>
    rw [Front.next_skip (Prod.ext hlook rfl)] at hunread ⊢
    exact ⟨hhas, h.apart.of_cons, hlogs, hunread⟩
  | some value =>
    rw [Front.next_look (Prod.ext hlook rfl)] at hunread ⊢
    refine ⟨fun r hr => ?_, h.apart.after_look value, hlogs, hunread⟩
    rcases List.mem_append.1 hr with hr | hr
    · exact Visit.has_of_mem_children (fun id c heq => (entered?_eq_some heq).2.2.2) hr
    · exact hhas r hr

/-- The slots that both graphs have look alike: another accessor was read as often in
either search, and one that is shared fails in both. -/
theorem Aligned.kept (hs : s.LooksAtKinds) (hfails : g.FailsWhenRead start x a)
    (hrecord : x.container = .record r) (h : Aligned g x a start ⟨seen, log, p :: rest⟩ log')
    (hkeeps : p.child.site ≠ x.site) :
    ((p.image (.without x r)).look s log').1 = (p.look s log).1 ∧
      Aligned g x a start (.next g s seen log p rest) ((p.image (.without x r)).look s log').2 := by
  have hy := h.has p (List.mem_cons_self ..)
  have hlook' : (p.image (.without x r)).look s log' = p.look s log' :=
    Pending.look_congr (accepts_without hs hfails.has hrecord hy)
      (congrArg Slot.content (SlotMap.slot_without x r p.child)) log'
  have hawaits : (Front.next g s seen log p rest).Awaits x → (⟨seen, log, p :: rest⟩ : Front).Awaits x :=
    fun hnext => hnext.of_next.imp_right fun ⟨p', hp', hsite⟩ => ⟨p', List.mem_cons_of_mem _ hp', hsite⟩
  rw [hlook']
  rcases look_cases p s with ⟨found, hlook⟩ | ⟨b, hcontent, hlook⟩
  · refine ⟨by simp only [hlook], h.next (by simpa only [hlook] using h.logs) fun hunshared hnext => ?_⟩
    rw [hlook]
    exact h.unread hunshared (hawaits hnext)
  · have hanswer : (b.answer (log'.count b.id)).toOption = (b.answer (log.count b.id)).toOption := by
      by_cases hid : b.id = a.id
      -- the searches have read it differently often, but it fails from the start on
      · have hb := (hfails.shared _ b hy hkeeps hcontent hid).2
        obtain ⟨e, herror⟩ := hb (log.count b.id) (hid ▸ h.logs.least)
        obtain ⟨e', herror'⟩ := hb (log'.count b.id) (hid ▸ h.logs.least')
        rw [herror, herror']
        rfl
      · rw [h.logs.others b.id hid]
    refine ⟨by simp only [hlook, hanswer], h.next ?_ fun hunshared hnext => ?_⟩
    · simpa only [hlook] using h.logs.cons b.id
    · rw [hlook, List.count_cons_of_ne (hunshared _ b hy hkeeps hcontent)]
      exact h.unread hunshared (hawaits hnext)

/-- The slot that one of the graphs has not gives nothing: its accessor fails. -/
theorem Aligned.leftOut (hfails : g.FailsWhenRead start x a)
    (h : Aligned g x a start ⟨seen, log, p :: rest⟩ log') (hkeeps : p.child.site = x.site) :
    (p.look s log).1 = none ∧ Aligned g x a start (.next g s seen log p rest) log' := by
  obtain rfl : p.child = x := by
    injection hkeeps with hparent hposition
    exact (h.has p (List.mem_cons_self ..)).unique hfails.has hparent hposition
  -- its look comes once, so nothing is promised of later ones
  have hunread : Unshared g p.child a → (Front.next g s seen log p rest).Awaits p.child →
      (p.look s log).2.count a.id = start.count a.id := by
    intro _ hnext
    rcases hnext.of_next with hnew | ⟨p', hp', hsite⟩
    · exact absurd (h.apart.entered p (List.mem_cons_self ..)) hnew
    · exact absurd hsite (h.apart.site_ne p' hp')
  cases haccepted : s.accepts p.child.container p.child.slot.key with
  | false =>
    have hlook : p.look s log = (none, log) := look_rejected haccepted
    exact ⟨by rw [hlook], h.next (by rw [hlook]; exact h.logs) hunread⟩
  | true =>
    have hlook : p.look s log = ((a.answer (log.count a.id)).toOption, a.id :: log) :=
      look_computed haccepted hfails.content
    have hanswer : ∃ e, a.answer (log.count a.id) = .error e := by
      by_cases hunshared : Unshared g p.child a
      · rw [h.unread hunshared (.inr ⟨p, List.mem_cons_self .., rfl⟩)]
        exact hfails.next
      · simp only [Unshared, not_forall, not_not] at hunshared
        obtain ⟨y, b, hy, hsite, hcontent, hid⟩ := hunshared
        exact (hfails.shared y b hy hsite hcontent hid).1 _ h.logs.least
    obtain ⟨e, herror⟩ := hanswer
    refine ⟨?_, h.next (by rw [hlook]; exact h.logs.cons_left) hunread⟩
    rw [hlook, herror]
    rfl

theorem readsAlike_without (hs : s.LooksAtKinds) (hfails : g.FailsWhenRead start x a)
    (hrecord : x.container = .record r) : ReadsAlike g s (.without x r) (Aligned g x a start) where
  kept h hkeeps := h.kept hs hfails hrecord (by simpa [SlotMap.without] using hkeeps)
  leftOut h hkeeps := h.leftOut hfails (by simpa [SlotMap.without] using hkeeps)

end Search

/-! ## The search without the field -/

/-- What a hit says, but for the positions of the slots on the way to it. -/
def Hit.found (h : Hit) : Path × Value × HitKind := (h.path, h.value, h.kind)

namespace Graph

open Search

variable {g : Graph} {q : Query} {log : ReadLog} {x : Child} {a : Accessor} {r : Record}

/-- The slots that have one identity have one accessor. -/
def NamesAccessors (g : Graph) : Prop :=
  ∀ y z b c, g.Has y → g.Has z → y.slot.content = .computed b → z.slot.content = .computed c →
    b.id = c.id → b = c

/-- An accessor that fails at every read fails in each slot that has it, whatever was read. -/
theorem failsWhenRead_of_failing (hnames : g.NamesAccessors) (hx : g.Has x)
    (hcontent : x.slot.content = .computed a) (hfails : ∀ n, ∃ e, a.answer n = .error e) (log : ReadLog) :
    g.FailsWhenRead log x a where
  has := hx
  content := hcontent
  next := hfails _
  shared y b hy _ hb hid := by
    obtain rfl : b = a := hnames y x b a hy hx hb hcontent hid
    have hlater : b.FailsFrom (log.count b.id) := fun n _ => hfails n
    exact ⟨hlater, hlater⟩

/-- Where no other slot has the accessor, it is enough that its next read fails. -/
theorem failsWhenRead_of_unshared (hx : g.Has x) (hcontent : x.slot.content = .computed a)
    (hunshared : Unshared g x a) (hnext : ∃ e, a.answer (log.count a.id) = .error e) :
    g.FailsWhenRead log x a where
  has := hx
  content := hcontent
  next := hnext
  shared y b hy hsite hb hid := absurd hid (hunshared y b hy hsite hb)

/-- A search finds the same, in the same order, in the graph without a computed field that
fails when it is read, whatever it looks for and however it is limited, if its filter does
not look at the other fields: the field gives no hit, hides none and takes the place of none. -/
theorem search_skips_failing_field (hfails : g.FailsWhenRead log x a) (hrecord : x.container = .record r)
    (hfilter : q.toScope.LooksAtKinds) (target : Value) :
    ((g.without x r).search target q log).hits.map Hit.found =
      (g.search target q log).hits.map Hit.found := by
  have hnode := hfails.has.node
  have hothers (y : Child) (hy : y.parent ≠ x.parent) :
      (SlotMap.without x r).keeps y = true ∧ (SlotMap.without x r).image y = y := by
    refine ⟨bne_iff_ne.2 fun hsite => hy ?_, if_neg hy⟩
    injection hsite
  have hcorresponds : g.Corresponds (.without x r) (g.without x r) :=
    corresponds_put hnode (Container.children_eraseIdx hrecord hfails.has.slot) hothers
  have htests : TestsAlike g q.criterion (.without x r) (g.without x r) := by
    refine ⟨fun y => by rw [SlotMap.slot_without], fun v => matchesType_congr fun tag _ => ?_⟩
    rw [hrecord] at hnode
    exact isInstance_put hnode (.record (r.eraseIdx x.position)) rfl (fun _ => rfl) (fun _ => rfl) v
  have hstart : g.StartsAlike target (Aligned g x a log) log log := fun id c _ hnode =>
    { has := fun p hp => has_of_mem_children hnode (mem_pendingOf.1 hp).2
      apart := apart_pendingOf id c []
      logs := ⟨fun _ _ => rfl, Nat.le_refl _, Nat.le_refl _⟩
      unread := fun _ _ => rfl }
  have hhits := search_image hcorresponds (readsAlike_without hfilter hfails hrecord) htests hstart
  rw [eq_comm, ← List.forall₂_eq_eq_eq, List.forall₂_map_left_iff, List.forall₂_map_right_iff]
  refine hhits.imp fun hit hit' ⟨way, hfound, heq⟩ => ?_
  rw [heq, Hit.found, Hit.found, Hit.along, Way.path_without, ← hfound.path]

/-- It cannot be opened at the first attempt. -/
def stuckLid : Accessor := .ofOutcomes 0 (.error ⟨"stuck"⟩) [.ok (.string "lid")]

def lidded : Record :=
  ⟨none, [(.name "lid", ⟨.computed stuckLid, true⟩), (.name "items", ⟨.stored (.node ⟨1⟩), true⟩)], by decide⟩

def lid : Child := ⟨⟨0⟩, .record lidded, 0, ⟨.field (.name "lid"), .computed stuckLid⟩⟩

/-- A box that lies in itself. -/
def box : Graph :=
  { empty with
    nodes := #[.record lidded, .sequence [.string "lid", .node ⟨0⟩, .string "lid", .string "lid"]] }

/-- The lid is the only computed slot. -/
theorem failsWhenRead_lid : box.FailsWhenRead [] lid stuckLid := by
  refine failsWhenRead_of_unshared ⟨rfl, rfl⟩ rfl ?_ ⟨_, rfl⟩
  intro y b hy hsite hcontent
  rcases hy.cases with ⟨⟨i⟩, r, j, key, p, hfield, rfl⟩ | ⟨_, _, _, _, -, rfl⟩ | ⟨_, _, _, _, _, -, rfl⟩
  · have hnode : box.node? ⟨i⟩ = some (.record r) := hy.node
    match i, j with
    | 0, 0 => exact absurd rfl hsite
    | 0, 1 =>
      cases hnode
      cases hfield
      cases hcontent
    | 0, j + 2 =>
      cases hnode
      cases hfield
    | 1, j => cases hnode
    | i + 2, j => cases hnode
  · cases hcontent
  · cases hcontent

/-- The key of the lid is not found, and the limit is met by what lies in the box. -/
theorem search_skips_failing_field_box :
    let q : Query := { Query.plain .all (.exact (.string "lid")) with
      accepts := fun c _ => c.kind != .map
      maxResults := 2 }
    (box.FailsWhenRead [] lid stuckLid ∧ lid.container = .record lidded ∧ q.toScope.LooksAtKinds) ∧
    ((box.without lid lidded).search (.node ⟨0⟩) q []).hits.map Hit.found =
      [([.field "items", .index 0], .string "lid", .value),
        ([.field "items", .index 2], .string "lid", .value)] := by
  intro q
  have hfilter : q.toScope.LooksAtKinds := fun _ _ _ hkind _ _ => congrArg (· != Kind.map) hkind
  refine ⟨⟨failsWhenRead_lid, rfl, hfilter⟩, ?_⟩
  refine (search_skips_failing_field failsWhenRead_lid rfl hfilter (.node ⟨0⟩)).trans ?_
  cbv

end Graph

end ObjectGraph
