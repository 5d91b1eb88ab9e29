-- SUMMARY: After a dot a path is read, and followed, as if it had started there.
import ObjectGraph.Path.Resolve
import ObjectGraph.Proofs.Graph.Walk
import ObjectGraph.Proofs.Path.Strict

/-! # Joined paths

A dot outside bodies ends the bare name before it, and nothing of what was read
decides how the rest is read: only positions and issues differ, and the steps so
far stand in front (`Scan.Resumes`). So a dot joins two paths, well formed or
not, unless it falls into a body that the first of them leaves open; and to
follow the joined path is to follow one after the other
(`Graph.resolveText_joined`).
-/

namespace ObjectGraph

/-! ## Bodies apart from their place -/

namespace Body

/-- The body as it would be at the start of the text. -/
def unplaced (b : Body) : Body := { b with start := 0 }

theorem feed_withStart (b : Body) (start : Nat) (c : Char) :
    { b with start }.feed c = ({ (b.feed c).1 with start }, (b.feed c).2) := by
  cases hquote : b.quote with
  | some q =>
    simp only [feed, hquote]
    split_ifs <;> rfl
  | none =>
    simp only [feed, hquote]
    split_ifs <;> simp only [hquote]

theorem feed_unplaced (b : Body) (c : Char) :
    b.unplaced.feed c = ((b.feed c).1.unplaced, (b.feed c).2) := b.feed_withStart 0 c

/-- The place of a body matters to its issues only. -/
theorem finish_withStart (b : Body) (start : Nat) (closed : Bool) :
    ({ b with start }.finish closed).1 = (b.finish closed).1 := by
  cases hkind : b.kind with
  | bracket =>
    simp only [finish, hkind, bracketStep]
    split_ifs <;> rfl
  | lookup =>
    simp only [finish, hkind, lookupStep]
    split_ifs <;> rfl

theorem finish_unplaced (b : Body) (closed : Bool) :
    (b.unplaced.finish closed).1 = (b.finish closed).1 := b.finish_withStart 0 closed

end Body

/-! ## Scans that go on alike -/

namespace Scan

theorem feedPlain_dot (s : Scan) :
    ∃ issues, s.feedPlain '.' = { s.flush with issues := issues, dot := some s.position } := by
  refine ⟨(s.feedPlain '.').issues, ?_⟩
  simp only [feedPlain, if_true]
  split <;> simp [Scan.report]

theorem finish_steps_of_outside {s : Scan} (hbody : s.body = none) :
    s.finish.steps = s.flush.steps := by
  simp only [finish, hbody]
  split <;> rfl

theorem finish_steps_of_inside {s : Scan} {b : Body} (hbody : s.body = some b) :
    s.finish.steps = (s.closeBody b false).flush.steps := by
  simp only [finish, hbody]
  split <;> rfl

/-- What `s` will read next, `t` reads after the steps `p`. -/
structure Resumes (s t : Scan) (p : Path) : Prop where
  steps : t.steps = p ++ s.steps
  bare : t.bare = s.bare
  body : t.body.map Body.unplaced = s.body.map Body.unplaced

namespace Resumes

variable {s t : Scan} {p : Path} {b b' : Body}

theorem body_none (h : s.Resumes t p) (hs : s.body = none) : t.body = none := by
  have hbody := h.body
  simpa [hs] using hbody

theorem body_some (h : s.Resumes t p) (hs : s.body = some b) :
    ∃ b', t.body = some b' ∧ b'.unplaced = b.unplaced := by
  have hbody := h.body
  simpa [hs] using hbody

theorem push (h : s.Resumes t p) (step : Step) : (s.push step).Resumes (t.push step) p := by
  refine ⟨?_, h.bare, h.body⟩
  simp [Scan.push, h.steps]

theorem flush (h : s.Resumes t p) : s.flush.Resumes t.flush p := by
  unfold Scan.flush
  rw [h.bare]
  split
  · exact h
  · exact ⟨(h.push _).steps, rfl, h.body⟩

theorem closeBody (h : s.Resumes t p) (hb : b'.unplaced = b.unplaced) (closed : Bool) :
    (s.closeBody b closed).Resumes (t.closeBody b' closed) p := by
  have hstep : (b'.finish closed).1 = (b.finish closed).1 := by
    rw [← b'.finish_unplaced, hb, b.finish_unplaced]
  rcases hfinish : b.finish closed with ⟨step, issues⟩
  rcases hfinish' : b'.finish closed with ⟨step', issues'⟩
  obtain rfl : step' = step := by simpa [hfinish, hfinish'] using hstep
  simp only [Scan.closeBody, hfinish, hfinish']
  cases step' with
  | none => exact ⟨h.steps, h.bare, rfl⟩
  | some step => exact ⟨(h.push step).steps, h.bare, rfl⟩

theorem feedPlain (h : s.Resumes t p) (c : Char) : (s.feedPlain c).Resumes (t.feedPlain c) p := by
  by_cases hdot : c = '.'
  · subst hdot
    obtain ⟨issues, hs⟩ := s.feedPlain_dot
    obtain ⟨issues', ht⟩ := t.feedPlain_dot
    rw [hs, ht]
    exact ⟨h.flush.steps, h.flush.bare, h.flush.body⟩
  · simp only [Scan.feedPlain, if_neg hdot, h.bare]
    split_ifs with hopen hcall hclose hblank
    · exact ⟨h.flush.steps, h.flush.bare, rfl⟩
    · exact ⟨h.steps, rfl, rfl⟩
    · exact ⟨h.steps, h.bare, h.body⟩
    · exact h
    · exact ⟨h.steps, rfl, h.body⟩
    · exact ⟨h.steps, rfl, h.body⟩

theorem feed (h : s.Resumes t p) (c : Char) : (s.feed c).Resumes (t.feed c) p := by
  unfold Scan.feed
  cases hs : s.body with
  | none =>
    rw [h.body_none hs]
    exact ⟨(h.feedPlain c).steps, (h.feedPlain c).bare, (h.feedPlain c).body⟩
  | some b =>
    obtain ⟨b', ht, hb⟩ := h.body_some hs
    have hfeed := (b'.feed_unplaced c).symm.trans (hb ▸ b.feed_unplaced c)
    obtain ⟨hnext, hclosed⟩ := Prod.mk.inj hfeed
    rw [ht]
    simp only [hclosed]
    split
    · have hclose := h.closeBody hnext true
      exact ⟨hclose.steps, hclose.bare, hclose.body⟩
    · refine ⟨h.steps, h.bare, ?_⟩
      simp [hnext]

theorem run (h : s.Resumes t p) (text : List Char) : (s.run text).Resumes (t.run text) p := by
  induction text generalizing s t with
  | nil => exact h
  | cons c rest ih => exact ih (h.feed c)

theorem finish_steps (h : s.Resumes t p) : t.finish.steps = p ++ s.finish.steps := by
  cases hs : s.body with
  | none =>
    rw [finish_steps_of_outside hs, finish_steps_of_outside (h.body_none hs)]
    exact h.flush.steps
  | some b =>
    obtain ⟨b', ht, hb⟩ := h.body_some hs
    rw [finish_steps_of_inside hs, finish_steps_of_inside ht]
    exact (h.closeBody hb false).flush.steps

end Resumes

/-- Outside bodies, a dot puts the scan back to the start, the steps so far in front. -/
theorem resumes_feed_dot {s : Scan} (hbody : s.body = none) :
    start.Resumes (s.feed '.') s.finish.steps := by
  obtain ⟨issues, hfeed⟩ := s.feedPlain_dot
  rw [finish_steps_of_outside hbody]
  simp only [feed, hbody, hfeed]
  exact ⟨by simp [start], by simp [start], by simp [start, hbody]⟩

end Scan

/-! ## Reading joined paths -/

/-- Does the issue say that a bracket or a look-up has no end? -/
def PathIssue.isUnterminated : PathIssue → Bool
  | .unexpectedEnd _ .bracket | .unexpectedEnd _ .lookup => true
  | _ => false

/-- Reading the text alone reports no bracket and no look-up without an end. -/
def Path.Terminated (text : String) : Prop :=
  ∀ issue ∈ (readWithIssues text).2, issue.isUnterminated = false

instance : DecidablePred Path.Terminated := fun text =>
  inferInstanceAs (Decidable (∀ issue ∈ (Path.readWithIssues text).2, issue.isUnterminated = false))

/-- A body that the text cuts off is reported. -/
theorem Body.exists_unterminated (b : Body) :
    ∃ issue ∈ (b.finish false).2, issue.isUnterminated = true := by
  cases hkind : b.kind with
  | bracket =>
    refine ⟨.unexpectedEnd b.start .bracket, ?_, rfl⟩
    by_cases hempty : b.content = [] <;> simp [finish, hkind, hempty]
  | lookup =>
    refine ⟨.unexpectedEnd b.start .lookup, ?_, rfl⟩
    by_cases hempty : Text.trim b.content = [] <;> simp [finish, hkind, hempty]

namespace Path

theorem Terminated.body_eq_none {text : String} (h : Terminated text) :
    (Scan.start.run text.toList).body = none := by
  let s := Scan.start.run text.toList
  by_contra hbody
  obtain ⟨b, hb⟩ := Option.ne_none_iff_exists'.1 hbody
  obtain ⟨issue, hissue, hcut⟩ := b.exists_unterminated
  have hclosed : issue ∈ (s.closeBody b false).flush.issues := by
    rw [Scan.flush_issues, Scan.closeBody_issues]
    exact List.mem_append_right _ hissue
  have hreported : issue ∈ s.finish.issues := by
    simp only [Scan.finish, s, hb]
    split
    · exact List.mem_append_left _ hclosed
    · exact hclosed
  rw [h issue hreported] at hcut
  cases hcut

/-- What stands after a dot is read as if it stood alone. -/
theorem read_joined {u : String} (hu : Terminated u) (v : String) :
    read (u ++ "." ++ v) = read u ++ read v := by
  have htext : (u ++ "." ++ v).toList = u.toList ++ '.' :: v.toList := by simp
  simp only [read, readWithIssues, htext, Scan.run_append, Scan.run_cons]
  exact ((Scan.resumes_feed_dot hu.body_eq_none).run v.toList).finish_steps

end Path

/-! ## Following joined paths -/

/-- A step leads to a slot of the container. -/
theorem Container.mem_slots_of_locate {c : Container} {step : Step} {content : Content}
    (h : c.locate step = some content) : ∃ slot ∈ c.slots, slot.content = content := by
  cases c with
  | record r =>
    have hslot : ∀ field ∈ r.fields,
        ∃ slot ∈ (Container.record r).slots, slot.content = field.2.content :=
      fun field hfield => ⟨_, List.mem_map.2 ⟨field, hfield, rfl⟩, rfl⟩
    cases step with
    | field name =>
      obtain ⟨p, hget, rfl⟩ := Option.map_eq_some_iff.1 h
      obtain ⟨field, hfind, rfl⟩ := Option.map_eq_some_iff.1 hget
      exact hslot field (List.mem_of_find?_eq_some hfind)
    | symbol text =>
      obtain ⟨field, hfind, rfl⟩ := Option.map_eq_some_iff.1 h
      exact hslot field (List.mem_of_find?_eq_some hfind)
    | index n => cases h
    | entry key isSymbol => cases isSymbol <;> cases h
  | sequence items =>
    cases step with
    | index n =>
      obtain ⟨v, hitem, rfl⟩ := Option.map_eq_some_iff.1 h
      obtain ⟨hn, rfl⟩ := List.getElem?_eq_some_iff.1 hitem
      exact ⟨_, List.mem_mapIdx.2 ⟨n, hn, rfl⟩, rfl⟩
    | entry key isSymbol => cases isSymbol <;> cases h
    | _ => cases h
  | map entries =>
    have hslot : ∀ entry ∈ entries,
        ∃ slot ∈ (Container.map entries).slots, slot.content = .stored entry.2 :=
      fun entry hentry => ⟨_, List.mem_map.2 ⟨entry, hentry, rfl⟩, rfl⟩
    have hsymbol : ∀ text, (findSymbolEntry entries text).map Content.stored = some content →
        ∃ slot ∈ (Container.map entries).slots, slot.content = content := by
      intro text h
      obtain ⟨v, hvalue, rfl⟩ := Option.map_eq_some_iff.1 h
      obtain ⟨entry, hfind, rfl⟩ := Option.map_eq_some_iff.1 hvalue
      exact hslot entry (List.mem_of_find?_eq_some hfind)
    cases step with
    | symbol text => exact hsymbol text h
    | entry text isSymbol =>
      cases isSymbol with
      | true => exact hsymbol text h
      | false =>
        obtain ⟨v, hvalue, rfl⟩ := Option.map_eq_some_iff.1 h
        obtain ⟨entry, hfind, rfl⟩ := Option.map_eq_some_iff.1 hvalue
        rcases Option.or_eq_some_iff.1 hfind with hfind | ⟨-, hfind⟩
        · exact hslot entry (List.mem_of_find?_eq_some hfind)
        · exact hslot entry (List.mem_of_find?_eq_some hfind)
    | field name => cases h
    | index n => cases h

namespace Graph

variable {g : Graph}

theorem exists_has_of_locate {u : Value} {step : Step} {content : Content}
    (h : g.locate u step = some content) :
    ∃ x, g.Has x ∧ u = .node x.parent ∧ x.slot.content = content := by
  obtain ⟨c, hnode, hlocate⟩ := Option.bind_eq_some_iff.1 h
  obtain ⟨id, hvalue, hnode⟩ := Option.bind_eq_some_iff.1 hnode
  obtain ⟨slot, hslot, rfl⟩ := Container.mem_slots_of_locate hlocate
  obtain ⟨i, hi, rfl⟩ := List.getElem_of_mem hslot
  refine ⟨⟨id, c, i, c.slots[i]⟩, ⟨hnode, List.getElem?_eq_getElem hi⟩, ?_, rfl⟩
  cases u with
  | node id => exact congrArg Value.node (Option.some.inj hvalue)
  | _ => cases hvalue

theorem Steady.of_locate (hg : g.Steady) {u : Value} {step : Step} {content : Content}
    (h : g.locate u step = some content) : content.Steady := by
  obtain ⟨x, hx, -, rfl⟩ := exists_has_of_locate h
  exact hg x hx

/-- A path that leads somewhere reads a slot and goes on from what it holds. -/
theorem of_resolve_cons {u v : Value} {step : Step} {rest : Path} {log : ReadLog}
    (h : (g.resolve u (step :: rest) log).1 = some v) :
    ∃ content next log', g.locate u step = some content ∧ content.read log = (.ok next, log') ∧
      (g.resolve next rest log').1 = some v := by
  rw [resolve] at h
  cases hlocate : g.locate u step with
  | none => simp [hlocate] at h
  | some content =>
    rcases hread : content.read log with ⟨_ | next, log'⟩
    · simp [hlocate, hread] at h
    · simp only [hlocate, hread] at h
      exact ⟨content, next, log', rfl, hread, h⟩

/-- What a path leads to lies at the end of a walk. -/
theorem exists_walk_of_resolve {u v : Value} {path : Path} {log : ReadLog}
    (h : (g.resolve u path log).1 = some v) : ∃ way, g.Walk Scope.everything.CanCross u way v := by
  induction path generalizing u log with
  | nil =>
    obtain rfl := Option.some.inj h
    exact ⟨[], .here u⟩
  | cons step rest ih =>
    obtain ⟨content, next, log', hlocate, hread, hrest⟩ := of_resolve_cons h
    obtain ⟨x, hx, rfl, rfl⟩ := exists_has_of_locate hlocate
    obtain ⟨way, hwalk⟩ := ih hrest
    exact ⟨x :: way, .cross hx ⟨rfl, .of_read hread⟩ hwalk⟩

theorem resolve_append (g : Graph) (u : Value) (path path' : Path) (log : ReadLog) :
    g.resolve u (path ++ path') log =
      match g.resolve u path log with
      | (some v, log) => g.resolve v path' log
      | (none, log) => (none, log) := by
  induction path generalizing u log with
  | nil => rfl
  | cons step rest ih =>
    rw [List.cons_append, resolve, resolve]
    cases g.locate u step with
    | none => rfl
    | some content =>
      rcases hread : content.read log with ⟨_ | next, log'⟩
      · simp only [hread]
      · simp only [hread, ih next log']

/-- In a steady graph a path leads to the same value, whatever was read before. -/
theorem Steady.resolve_eq (hg : g.Steady) (u : Value) (path : Path) (log log' : ReadLog) :
    (g.resolve u path log).1 = (g.resolve u path log').1 := by
  induction path generalizing u log log' with
  | nil => rfl
  | cons step rest ih =>
    rw [resolve, resolve]
    cases hlocate : g.locate u step with
    | none => rfl
    | some content =>
      have hread := (hg.of_locate hlocate).read_eq log log'
      rcases hfirst : content.read log with ⟨found, after⟩
      rcases hsecond : content.read log' with ⟨found', after'⟩
      obtain rfl : found = found' := by simpa [hfirst, hsecond] using hread
      cases found with
      | error e => simp only [hfirst, hsecond]
      | ok next =>
        simp only [hfirst, hsecond]
        exact ih next after after'

/-- A path with a dot in it is followed like its two parts, one after the other:
the second part starts from the value to which the first part leads, and the path
leads nowhere if the first part does not. Either part may be malformed, as long
as the first does not leave open a bracket or a look-up. -/
theorem resolveText_joined (hg : g.Steady) {u : String} (hu : Path.Terminated u) (v : String)
    (target : Value) (log log' log'' : ReadLog) :
    Path.read (u ++ "." ++ v) = Path.read u ++ Path.read v ∧
    (g.resolveText target (u ++ "." ++ v) log).1 =
      (g.resolveText target u log').1.bind fun x => (g.resolveText x v log'').1 := by
  have hread := Path.read_joined hu v
  refine ⟨hread, ?_⟩
  rw [resolveText, hread, resolve_append, resolveText, hg.resolve_eq target _ log' log]
  rcases g.resolve target (Path.read u) log with ⟨_ | x, after⟩
  · rfl
  · exact hg.resolve_eq x _ after log''

/-- A record with a computed list. -/
def shelf : Graph :=
  { empty with
    nodes := #[
      .record ⟨none, [(.name "a", ⟨.computed ⟨0, fun _ => .ok (.node ⟨1⟩)⟩, true⟩)], by decide⟩,
      .sequence [.string "x"]] }

theorem steady_shelf : shelf.Steady := by
  refine steady_iff.2 ?_
  simp [shelf, Container.slots, Content.Steady, Accessor.Steady]

/-- A stray bracket and a dot too many before the seam, a bracket left open after it. -/
theorem resolveText_joined_shelf :
    (shelf.Steady ∧ Path.Terminated "a].") ∧
    Path.read "a]." ++ Path.read "[0" = [.field "a", .index 0] ∧
    (shelf.resolveText (.node ⟨0⟩) ("a]." ++ "." ++ "[0") []).1 = some (.string "x") := by
  have hu : Path.Terminated "a]." := by decide
  obtain ⟨hread, hresolve⟩ := resolveText_joined steady_shelf hu "[0" (.node ⟨0⟩) [] [] []
  refine ⟨⟨steady_shelf, hu⟩, by decide, ?_⟩
  rw [hresolve]
  decide

end Graph

end ObjectGraph
