-- SUMMARY: The search as nested visits: what one step does, and how deep the visits nest.
import ObjectGraph.Proofs.Search.Hits

/-! # Nested visits

The walk keeps a list of slots to look at. Here the same search is told the
other way, as visits that call each other: a visit of a container looks at its
slots in turn, and visits the value of a slot before it goes on to the next
(`Search.visit`). The number of calls that may be open at once is a parameter,
and the visit fails where one more would be needed. A step at a slot does one of
few things (`Search.Advances`), a visit is a run of such steps
(`Search.resumes_visit`), and it never fails while more calls may be open than
there are containers left (`Search.suffices_visit`).
-/

namespace ObjectGraph

/-! ## The course of a search -/

/-- What a search has done so far. -/
structure Course where
  hits : List Hit
  /-- The references followed, whether or not they lead to a container; latest first. -/
  followed : List NodeId
  /-- The containers whose slots were taken up, and the ways to them; latest first. -/
  expanded : List (NodeId × Way)
  /-- The slots that the filter was asked about, in order. -/
  asked : List Child
  log : ReadLog

/-- The question to the filter about a slot, and its answer. -/
def Child.consulted (s : Scope) (x : Child) : Consultation :=
  ⟨x.container, x.slot.key, s.accepts x.container x.slot.key⟩

/-- The accessor behind a slot. -/
def Child.accessor? (x : Child) : Option Nat :=
  match x.slot.content with
  | .stored _ => none
  | .computed a => some a.id

/-- The accessor that is read if the slot is looked at. -/
def Child.reads (s : Scope) (x : Child) : Option Nat :=
  if s.accepts x.container x.slot.key then x.accessor? else none

namespace Course

def start (log : ReadLog) : Course := ⟨[], [], [], [], log⟩

def room (q : Query) (r : Course) : Nat := q.maxResults - r.hits.length

/-- Add hits while there is room. -/
def report (q : Query) (hits : List Hit) (r : Course) : Course :=
  { r with hits := r.hits ++ hits.take (r.room q) }

/-- Add one hit if its test holds and there is room. -/
def reportIf (q : Query) (holds : Bool) (h : Hit) (r : Course) : Course :=
  r.report q (if holds then [h] else [])

def ask (x : Child) (r : Course) : Course := { r with asked := r.asked ++ [x] }

def outcome (s : Scope) (r : Course) : Outcome := ⟨r.hits, r.asked.map (Child.consulted s), r.log⟩

/-- The outcome, if something else follows. -/
def andThen (s : Scope) (r : Course) (later : Outcome) : Outcome :=
  ⟨r.hits ++ later.hits, r.asked.map (Child.consulted s) ++ later.consulted, later.log⟩

end Course

namespace Search

/-! ## Visits that call each other -/

/-- What a visit does before it looks at slots: test the type, and expand the
container if it was not come by before. -/
def expand (g : Graph) (q : Query) (way : Way) (v : Value) (r : Course) : Course × List Pending :=
  if !q.reaches way.path || r.room q == 0 then (r, [])
  else
    let r := r.reportIf q (q.mode.checks .type && q.criterion.matchesType g v)
      ⟨way.path, way.places, v, .type⟩
    match v with
    | .node id =>
      if r.followed.contains id then (r, [])
      else match g.node? id with
        | none => ({ r with followed := id :: r.followed }, [])
        | some c =>
          ({ r with followed := id :: r.followed, expanded := (id, way) :: r.expanded },
            pendingOf id c way)
    | _ => (r, [])

/-- Look at one slot. If it holds a reference, that is to be visited next. -/
def look (g : Graph) (q : Query) (p : Pending) (r : Course) : Course × Option Value :=
  match p.look q.toScope r.log with
  | (none, log) => ({ r.ask p.child with log }, none)
  | (some v, log) =>
    let hit := Hit.mk p.reach.path p.reach.places v
    let r := { r.ask p.child with log }
    let r := r.reportIf q (q.mode.checks .key && q.criterion.matchesSlotKey p.child.slot.key) (hit .key)
    let r := r.reportIf q (q.mode.checks .value && q.criterion.matchesValue v) (hit .value)
    if v.isScalar then
      (r.reportIf q (q.mode.checks .type && q.criterion.matchesType g v) (hit .type), none)
    else (r, some v)

/-- Look at slots in turn while there is room, and visit what they refer to. -/
def lookAll (g : Graph) (q : Query) (visit : Way → Value → Course → Option Course) :
    List Pending → Course → Option Course
  | [], r => some r
  | p :: rest, r =>
    if r.room q = 0 then some r
    else match look g q p r with
      | (r, none) => lookAll g q visit rest r
      | (r, some v) => (visit p.reach v r).bind (lookAll g q visit rest)

/-- Visit a value, with no more than the given number of visits open at once. -/
def visit (g : Graph) (q : Query) : Nat → Way → Value → Course → Option Course
  | 0, _, _, _ => none
  | levels + 1, way, v, r =>
    let (r, slots) := expand g q way v r
    lookAll g q (visit g q levels) slots r

end Search

/-- The search as a visit of its target. -/
def Graph.searchNested (g : Graph) (levels : Nat) (target : Value) (q : Query) (log : ReadLog) :
    Option Course :=
  if target.isNullish then some (.start log) else Search.visit g q levels [] target (.start log)

namespace Search

variable {g : Graph} {q : Query} {s : Scope} {r r' : Course} {p : Pending} {slots rest : List Pending}
  {v : Value} {way : Way} {log log' : ReadLog} {seen : List NodeId}

/-! ## What one step does -/

theorem room_report (q : Query) (hits : List Hit) (r : Course) :
    (r.report q hits).room q = r.room q - hits.length := by
  simp only [Course.room, Course.report, List.length_append, List.length_take]
  omega

theorem report_append (q : Query) (hits later : List Hit) (r : Course) :
    (r.report q hits).report q later = r.report q (hits ++ later) := by
  have hroom := room_report q hits r
  unfold Course.report at hroom ⊢
  simp only [hroom, List.append_assoc, List.take_append]

theorem report_nil (q : Query) (r : Course) : r.report q [] = r := by
  simp [Course.report]

theorem report_of_full (hits : List Hit) (h : r.room q = 0) : r.report q hits = r := by
  simp [Course.report, h]

/-- The slot was asked about and read, and everything at it was tested. -/
def tested (g : Graph) (q : Query) (p : Pending) (v : Value) (log : ReadLog) (r : Course) : Course :=
  Course.report q (hitsAt g q p.child.slot.key p.reach.path p.reach.places v)
    { r.ask p.child with log }

@[simp] theorem log_tested (log : ReadLog) : (tested g q p v log r).log = log := rfl

@[simp] theorem expanded_tested (log : ReadLog) : (tested g q p v log r).expanded = r.expanded := rfl

/-- How a search goes on from a value, once it was tested: it has no room left, or
there is nothing to expand, or it takes up the slots of a container. -/
inductive Expands (g : Graph) (q : Query) (way : Way) (v : Value) (r : Course) :
    Course → List Pending → Prop
  | stopped : r.room q = 0 → Expands g q way v r r []
  | closed {followed : List NodeId} : entered? g q.toScope r.followed way.path v = none →
    followed = r.followed ∨ (∃ id, followed = id :: r.followed ∧ g.node? id = none) →
    Expands g q way v r { r with followed } []
  | opened {id : NodeId} {c : Container} :
    entered? g q.toScope r.followed way.path v = some (id, c) →
    Expands g q way v r
      { r with followed := id :: r.followed, expanded := (id, way) :: r.expanded }
      (pendingOf id c way)

/-- The step of a search at a slot. -/
inductive Advances (g : Graph) (q : Query) (p : Pending) (r : Course) : Course → List Pending → Prop
  | skipped {log : ReadLog} : p.look q.toScope r.log = (none, log) →
    Advances g q p r { r.ask p.child with log } []
  | read {v : Value} {log : ReadLog} {r' : Course} {slots : List Pending} :
    p.look q.toScope r.log = (some v, log) →
    Expands g q p.reach v (tested g q p v log r) r' slots → Advances g q p r r' slots

/-- The type test at a slot or a target. -/
def typeHits (g : Graph) (q : Query) (way : Way) (v : Value) : List Hit :=
  if testsType q way.path v && q.criterion.matchesType g v then [⟨way.path, way.places, v, .type⟩]
  else []

theorem entered?_of_scalar (seen : List NodeId) (path : Path) (h : v.isScalar = true) :
    entered? g s seen path v = none := by
  cases v <;> simp_all [entered?, Value.isScalar]

theorem entered?_of_not_reaches (seen : List NodeId) {path : Path} (h : s.reaches path = false) :
    entered? g s seen path v = none := by
  cases v <;> simp [entered?, h]

/-- A visit tests the type of a value that it may look into, and goes on from there. -/
theorem expands_of_expand (hreaches : v.isScalar = true → q.reaches way.path = true)
    (h : expand g q way v r = (r', slots)) :
    Expands g q way v (r.report q (typeHits g q way v)) r' slots := by
  unfold expand at h
  split at h
  · rename_i hstop
    obtain ⟨rfl, rfl⟩ := Prod.mk.inj h
    by_cases hroom : r.room q = 0
    · rw [report_of_full _ hroom]
      exact .stopped hroom
    · have hdeep : q.reaches way.path = false := by simpa [hroom] using hstop
      have hcomposite : v.isScalar = false := by
        cases hscalar : v.isScalar with
        | false => rfl
        | true => simp [hreaches hscalar] at hdeep
      have hnone : typeHits g q way v = [] := by simp [typeHits, testsType, hcomposite, hdeep]
      rw [hnone, report_nil]
      exact .closed (entered?_of_not_reaches _ hdeep) (.inl rfl)
  · rename_i hgo
    have hway : q.reaches way.path = true := by simp at hgo; exact hgo.1
    have htype : r.reportIf q (q.mode.checks .type && q.criterion.matchesType g v)
        ⟨way.path, way.places, v, .type⟩ = r.report q (typeHits g q way v) := by
      simp [Course.reportIf, typeHits, testsType, hway]
    rw [htype] at h
    generalize r.report q (typeHits g q way v) = r at h ⊢
    cases v with
    | node id =>
      simp only at h
      split at h
      · rename_i hseen
        obtain ⟨rfl, rfl⟩ := Prod.mk.inj h
        have hseen : id ∈ r.followed := by simpa using hseen
        exact .closed (by simp [entered?, hseen]) (.inl rfl)
      · rename_i hnew
        have hnew : id ∉ r.followed := by simpa using hnew
        split at h
        · rename_i hnode
          obtain ⟨rfl, rfl⟩ := Prod.mk.inj h
          exact .closed (by simp [entered?, hnode]) (.inr ⟨id, rfl, hnode⟩)
        · rename_i c hnode
          obtain ⟨rfl, rfl⟩ := Prod.mk.inj h
          exact .opened (by simp [entered?, hway, hnew, hnode])
    | _ =>
      obtain ⟨rfl, rfl⟩ := Prod.mk.inj h
      exact .closed rfl (.inl rfl)

theorem advances_of_look_none (h : look g q p r = (r', none)) : Advances g q p r r' [] := by
  unfold look at h
  split at h
  · rename_i log hlook
    obtain ⟨rfl, -⟩ := Prod.mk.inj h
    exact .skipped hlook
  · rename_i v log hlook
    split at h
    · rename_i hscalar
      obtain ⟨rfl, -⟩ := Prod.mk.inj h
      have htested : Course.reportIf q (q.mode.checks .type && q.criterion.matchesType g v)
          ⟨p.reach.path, p.reach.places, v, .type⟩
          (Course.reportIf q (q.mode.checks .value && q.criterion.matchesValue v)
            ⟨p.reach.path, p.reach.places, v, .value⟩
            (Course.reportIf q (q.mode.checks .key && q.criterion.matchesSlotKey p.child.slot.key)
              ⟨p.reach.path, p.reach.places, v, .key⟩ { r.ask p.child with log })) =
          tested g q p v log r := by
        simp only [Course.reportIf, report_append, tested, hitsAt, testsType, hscalar, Bool.true_or,
          Bool.and_true, List.append_assoc]
      rw [htested]
      exact .read hlook (.closed (entered?_of_scalar _ _ hscalar) (.inl rfl))
    · simp at h

theorem advances_of_look_some {r₁ : Course} (h : look g q p r = (r₁, some v))
    (hexpand : expand g q p.reach v r₁ = (r', slots)) : Advances g q p r r' slots := by
  unfold look at h
  split at h
  · simp at h
  · rename_i v' log hlook
    split at h
    · simp at h
    · rename_i hcomposite
      simp only [Prod.mk.injEq, Option.some.injEq] at h
      obtain ⟨rfl, rfl⟩ := h
      have hexpands := expands_of_expand (fun hscalar => absurd hscalar hcomposite) hexpand
      simp only [Course.reportIf, report_append] at hexpands
      exact .read hlook hexpands

/-! ## Nested visits as one run -/

/-- Steps at the slots in front of a list, until it is empty or there is no room left. -/
inductive Runs (g : Graph) (q : Query) : Course → List Pending → Course → Prop
  | done (r : Course) : Runs g q r [] r
  | full {r : Course} (pending : List Pending) : r.room q = 0 → Runs g q r pending r
  | step {r r₁ r' : Course} {p : Pending} {slots rest : List Pending} : r.room q ≠ 0 →
    Advances g q p r r₁ slots → Runs g q r₁ (slots ++ rest) r' → Runs g q r (p :: rest) r'

theorem Runs.eq_of_full (hfull : r.room q = 0) (h : Runs g q r rest r') : r' = r := by
  cases h with
  | done => rfl
  | full => rfl
  | step hroom => exact absurd hfull hroom

/-- A run can go on where a visit returns, from what the visit expanded. -/
def Resumes (g : Graph) (q : Query) (visit : Way → Value → Course → Option Course) : Prop :=
  ∀ {way v r r' rest r''}, visit way v r = some r' → Runs g q r' rest r'' →
    Runs g q (expand g q way v r).1 ((expand g q way v r).2 ++ rest) r''

/-- Slots that are looked at together are the front of a longer run. -/
theorem runs_of_lookAll {visit : Way → Value → Course → Option Course} {pending : List Pending}
    {r'' : Course} (hvisit : Resumes g q visit) (h : lookAll g q visit pending r = some r')
    (hrest : Runs g q r' rest r'') : Runs g q r (pending ++ rest) r'' := by
  induction pending generalizing r with
  | nil =>
    obtain rfl := Option.some.inj h
    exact hrest
  | cons p pending ih =>
    rw [lookAll] at h
    split at h
    · rename_i hfull
      obtain rfl := Option.some.inj h
      obtain rfl := hrest.eq_of_full hfull
      exact .full _ hfull
    · rename_i hroom
      split at h
      · rename_i r₁ hlook
        exact .step hroom (advances_of_look_none hlook) (ih h)
      · rename_i r₁ v hlook
        obtain ⟨r₂, hvisited, hlater⟩ := Option.bind_eq_some_iff.1 h
        exact .step hroom (advances_of_look_some hlook rfl) (hvisit hvisited (ih hlater))

theorem resumes_visit (levels : Nat) : Resumes g q (visit g q levels) := by
  induction levels with
  | zero =>
    intro way v r r' rest r'' h
    cases h
  | succ levels ih =>
    intro way v r r' rest r'' h hrest
    exact runs_of_lookAll ih h hrest

/-! ## How deep visits nest -/

theorem unseen_cons_le (g : Graph) (id : NodeId) (seen : List NodeId) :
    g.unseen (id :: seen) ≤ g.unseen seen := by
  unfold Graph.unseen
  rw [← List.countP_eq_length_filter, ← List.countP_eq_length_filter]
  apply List.countP_mono_left
  intro i _ hi
  simp only [List.contains_cons, Bool.not_eq_eq_eq_not, Bool.not_true, Bool.or_eq_false_iff] at hi ⊢
  exact hi.2

theorem unseen_of_expands (h : Expands g q way v r r' slots) :
    g.unseen r'.followed ≤ g.unseen r.followed ∧
      (slots ≠ [] → g.unseen r'.followed < g.unseen r.followed) := by
  cases h with
  | stopped => simp
  | closed _ hfollowed =>
    rcases hfollowed with rfl | ⟨id, rfl, -⟩
    · simp
    · simpa using unseen_cons_le g id r.followed
  | opened hopened =>
    have hlt := unseen_of_entered? hopened
    exact ⟨Nat.le_of_lt hlt, fun _ => hlt⟩

theorem isScalar_of_look {r₁ : Course} (h : look g q p r = (r₁, some v)) : v.isScalar = false := by
  unfold look at h
  split at h
  · simp at h
  · split at h
    · simp at h
    · rename_i hcomposite
      obtain rfl := Option.some.inj (Prod.mk.inj h).2
      simpa using hcomposite

theorem followed_look (g : Graph) (q : Query) (p : Pending) (r : Course) :
    (look g q p r).1.followed = r.followed := by
  unfold look
  split
  · rfl
  · split <;> rfl

/-- The visit succeeds wherever no more than this many containers are left. -/
def Suffices (g : Graph) (q : Query) (left : Nat) (visit : Way → Value → Course → Option Course) :
    Prop :=
  ∀ {way v r}, (v.isScalar = true → q.reaches way.path = true) → g.unseen r.followed ≤ left →
    ∃ r', visit way v r = some r' ∧ g.unseen r'.followed ≤ g.unseen r.followed

theorem exists_lookAll {left : Nat} {visit : Way → Value → Course → Option Course}
    (hvisit : Suffices g q left visit) (pending : List Pending)
    (hleft : g.unseen r.followed ≤ left) :
    ∃ r', lookAll g q visit pending r = some r' ∧ g.unseen r'.followed ≤ g.unseen r.followed := by
  induction pending generalizing r with
  | nil => exact ⟨r, rfl, Nat.le_refl _⟩
  | cons p pending ih =>
    rw [lookAll]
    split
    · exact ⟨r, rfl, Nat.le_refl _⟩
    · have hfollowed := followed_look g q p r
      split
      · rename_i r₁ hlook
        rw [hlook] at hfollowed
        rw [← hfollowed] at hleft ⊢
        exact ih hleft
      · rename_i r₁ v hlook
        rw [hlook] at hfollowed
        rw [← hfollowed] at hleft ⊢
        have hcomposite := isScalar_of_look hlook
        obtain ⟨r₂, hvisited, hle₂⟩ : ∃ r₂, visit p.reach v r₁ = some r₂ ∧
            g.unseen r₂.followed ≤ g.unseen r₁.followed :=
          hvisit (fun hscalar => by simp [hcomposite] at hscalar) hleft
        obtain ⟨r', hlater, hle'⟩ := ih (r := r₂) (Nat.le_trans hle₂ hleft)
        exact ⟨r', by rw [hvisited]; exact hlater, Nat.le_trans hle' hle₂⟩

/-- With one visit more than there are containers left, nothing fails. -/
theorem suffices_visit {left levels : Nat} (hlevels : left < levels) :
    Suffices g q left (visit g q levels) := by
  induction levels generalizing left with
  | zero => exact absurd hlevels (Nat.not_lt_zero _)
  | succ levels ih =>
    intro way v r hreaches hleft
    cases hexpand : expand g q way v r with
    | mk r₁ slots =>
      obtain ⟨hle, hlt⟩ := unseen_of_expands (expands_of_expand hreaches hexpand)
      change g.unseen r₁.followed ≤ g.unseen r.followed at hle
      change slots ≠ [] → g.unseen r₁.followed < g.unseen r.followed at hlt
      simp only [visit, hexpand]
      cases slots with
      | nil => exact ⟨r₁, rfl, hle⟩
      | cons p rest =>
        -- a container was expanded, so one less is left for the visits below
        have hless := hlt (List.cons_ne_nil p rest)
        have hbelow : Suffices g q (left - 1) (visit g q levels) := ih (by omega)
        obtain ⟨r', hlook, hle'⟩ := exists_lookAll hbelow (p :: rest) (r := r₁) (by omega)
        exact ⟨r', hlook, Nat.le_trans hle' hle⟩

end Search

end ObjectGraph
