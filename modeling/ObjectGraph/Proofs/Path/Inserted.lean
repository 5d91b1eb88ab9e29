-- SUMMARY: A blank or a stray closer between two texts moves the later issues, and changes nothing else.
import ObjectGraph.Proofs.Path.Culprits

/-! # Insertions

Outside bodies neither a blank nor a `]` changes what is read. What comes after it
is read one position later (`Scan.OneLater`): the scan remembers the same dot, name
or body, at the same place if this was before the insertion and one further if it
comes after. So are the issues (`PathIssue.shift`), and the `]` is an issue itself.
-/

namespace ObjectGraph

/-! ## Moved positions -/

/-- Where the character at `p` is once another one has been inserted at `n`. -/
def Path.shift (n p : Nat) : Nat := if n ≤ p then p + 1 else p

/-- The issue, once a character has been inserted at `n`. -/
def PathIssue.shift (n : Nat) : PathIssue → PathIssue
  | .unexpectedToken p found => .unexpectedToken (Path.shift n p) found
  | .unexpectedEnd p expected => .unexpectedEnd (Path.shift n p) expected
  | .emptySegment p => .emptySegment (Path.shift n p)

def Body.shift (n : Nat) (b : Body) : Body := { b with start := Path.shift n b.start }

section

variable {n p : Nat}

theorem Path.shift_of_le (h : n ≤ p) : shift n p = p + 1 := if_pos h

theorem Path.shift_of_lt (h : p < n) : shift n p = p := if_neg (Nat.not_le_of_lt h)

theorem PathIssue.shift_of_lt {issue : PathIssue} (h : issue.position < n) : issue.shift n = issue := by
  cases issue <;> rw [shift, Path.shift_of_lt (by exact h)]

end

namespace Body

variable {n : Nat} {b : Body}

theorem opened_shift (n : Nat) (kind : BodyKind) (start : Nat) :
    (opened kind start).shift n = opened kind (Path.shift n start) := rfl

theorem feed_shift (n : Nat) (b : Body) (c : Char) :
    (b.shift n).feed c = ((b.feed c).1.shift n, (b.feed c).2) := by
  rw [shift, feed_withStart, shift, feed_start]

/-- A bracket that opens after the insertion moves together with what is in it. -/
theorem repairs_shift (h : b.kind = .bracket → n ≤ b.start) :
    (b.shift n).repairs = b.repairs.map (·.shift n) := by
  cases hkind : b.kind with
  | bracket =>
    have hstart : Path.shift n (b.start + 1) = Path.shift n b.start + 1 := by
      rw [Path.shift_of_le (h hkind), Path.shift_of_le (Nat.le_succ_of_le (h hkind))]
    simp only [repairs, shift, hkind, bracketStep]
    split_ifs <;> simp [PathIssue.shift, hstart]
  | lookup =>
    simp only [repairs, shift, hkind, lookupStep]
    split_ifs <;> simp [PathIssue.shift]

theorem finish_shift (h : b.kind = .bracket → n ≤ b.start) (closed : Bool) :
    (b.shift n).finish closed =
      ((b.finish closed).1, (b.finish closed).2.map (·.shift n)) := by
  refine Prod.ext (b.finish_withStart _ closed) ?_
  change ((b.shift n).finish closed).2 = (b.finish closed).2.map (·.shift n)
  rw [finish_issues, finish_issues, List.map_append, repairs_shift h]
  cases closed <;> rfl

end Body

/-! ## Scans one position apart -/

namespace Scan

/-- `t` has read one more character than `s`, at `n`, and goes on as `s` does. The
issues reported before they go on are `old` and `old'`. -/
structure OneLater (s t : Scan) (n : Nat) (old old' : List PathIssue) : Prop where
  position : t.position = s.position + 1
  after : n ≤ s.position
  steps : t.steps = s.steps
  issues : ∃ new, s.issues = old ++ new ∧ t.issues = old' ++ new.map (·.shift n)
  bare : t.bare = s.bare
  bareStart : s.bare ≠ [] → t.bareStart = Path.shift n s.bareStart
  dot : t.dot = s.dot.map (Path.shift n)
  body : t.body = s.body.map (Body.shift n)
  bracket : ∀ b, s.body = some b → b.kind = .bracket → n ≤ b.start

namespace OneLater

variable {s t : Scan} {n : Nat} {old old' : List PathIssue} {b : Body}

theorem push (h : s.OneLater t n old old') (step : Step) :
    (s.push step).OneLater (t.push step) n old old' :=
  { h with steps := congrArg (· ++ [step]) h.steps, dot := rfl }

theorem report (h : s.OneLater t n old old') (issues : List PathIssue) :
    (s.report issues).OneLater (t.report (issues.map (PathIssue.shift n))) n old old' := by
  obtain ⟨new, hs, ht⟩ := h.issues
  refine { h with issues := ⟨new ++ issues, ?_, ?_⟩ }
  · rw [Scan.report, hs, List.append_assoc]
  · rw [Scan.report, ht, List.append_assoc, List.map_append]

theorem clear (h : s.OneLater t n old old') :
    { s with bare := [] }.OneLater { t with bare := [] } n old old' :=
  { h with bare := rfl, bareStart := fun hne => absurd rfl hne }

theorem flush (h : s.OneLater t n old old') : s.flush.OneLater t.flush n old old' := by
  unfold Scan.flush
  rw [h.bare]
  split
  · exact h
  · exact (h.push _).clear

theorem withBody (h : s.OneLater t n old old') (hb : b.kind = .bracket → n ≤ b.start) :
    { s with body := some b }.OneLater { t with body := some (b.shift n) } n old old' := by
  refine { h with body := rfl, bracket := ?_ }
  rintro b' hb'
  obtain rfl := Option.some.inj hb'
  exact hb

theorem closeBody (h : s.OneLater t n old old') (hb : b.kind = .bracket → n ≤ b.start)
    (closed : Bool) : (s.closeBody b closed).OneLater (t.closeBody (b.shift n) closed) n old old' := by
  have hclosed : { s.report (b.finish closed).2 with body := none }.OneLater
      { t.report ((b.finish closed).2.map (PathIssue.shift n)) with body := none } n old old' :=
    { h.report (b.finish closed).2 with body := rfl, bracket := nofun }
  simp only [Scan.closeBody, Body.finish_shift hb]
  cases (b.finish closed).1 with
  | none => exact hclosed
  | some step => exact hclosed.push step

theorem dot_isSome (h : s.OneLater t n old old') : t.dot.isSome = s.dot.isSome := by
  rw [h.dot, Option.isSome_map]

theorem feedPlain (h : s.OneLater t n old old') (c : Char) :
    (s.feedPlain c).OneLater (t.feedPlain c) n old old' := by
  have hposition : Path.shift n s.position = t.position := by
    rw [Path.shift_of_le h.after, h.position]
  by_cases hdot : c = '.'
  · subst hdot
    have hissues : (if s.flush.dot.isSome then [.emptySegment s.position] else []).map
        (PathIssue.shift n) = if t.flush.dot.isSome then [.emptySegment t.position] else [] := by
      rw [h.flush.dot_isSome]
      split <;> simp [PathIssue.shift, hposition]
    have hreport := h.flush.report (if s.flush.dot.isSome then [.emptySegment s.position] else [])
    rw [hissues] at hreport
    rw [feedPlain_dot_eq, feedPlain_dot_eq]
    exact { hreport with dot := congrArg some hposition.symm }
  · simp only [Scan.feedPlain, if_neg hdot, h.bare]
    split_ifs with hopen hcall hclose hblank hbare
    · have hbody := h.flush.withBody (b := .opened .bracket s.position) fun _ => h.after
      rwa [Body.opened_shift, hposition] at hbody
    · have hstart : Path.shift n s.bareStart = t.bareStart :=
        (h.bareStart (by simp [hcall.2, lookupName_eq])).symm
      have hlookup : (Body.opened .lookup s.bareStart).kind = .bracket → n ≤ s.bareStart := by
        intro hkind
        cases hkind
      have hbody := h.clear.withBody hlookup
      rwa [Body.opened_shift, hstart] at hbody
    · have hreport := h.report [.unexpectedToken s.position c]
      rw [List.map_singleton, PathIssue.shift, hposition] at hreport
      exact hreport
    · exact h
    · exact { h with bare := rfl, bareStart := fun _ => hposition.symm }
    · exact { h with
        bare := rfl
        bareStart := fun _ => h.bareStart fun hnil => hbare (List.isEmpty_iff.2 hnil) }

theorem withPosition (h : s.OneLater t n old old') {p : Nat} (hp : n ≤ p) :
    { s with position := p }.OneLater { t with position := p + 1 } n old old' :=
  { h with position := rfl, after := hp }

theorem feed (h : s.OneLater t n old old') (c : Char) :
    (s.feed c).OneLater (t.feed c) n old old' := by
  have hnext : n ≤ s.position + 1 := Nat.le_succ_of_le h.after
  unfold Scan.feed
  rw [h.body, h.position]
  cases hbody : s.body with
  | none => exact (h.feedPlain c).withPosition hnext
  | some b =>
    have hbracket := h.bracket b hbody
    have hstart := b.feed_start c
    simp only [Option.map_some, Body.feed_shift]
    cases hfeed : b.feed c with
    | mk b' closed =>
      cases closed with
      | true =>
        obtain ⟨-, -, -, rfl⟩ := Body.of_feed_closes hfeed
        exact (h.closeBody hbracket true).withPosition hnext
      | false =>
        have hkind := (Body.feed_content (b := b) (c := c) (by simp [hfeed])).1
        rw [hfeed] at hkind hstart
        refine (h.withBody ?_).withPosition hnext
        rwa [hkind, hstart]

theorem run (h : s.OneLater t n old old') (text : List Char) :
    (s.run text).OneLater (t.run text) n old old' := by
  induction text generalizing s t with
  | nil => exact h
  | cons c rest ih => exact ih (h.feed c)

theorem finish_outside (h : s.OneLater t n old old') (hbody : s.body = none) :
    t.finish.steps = s.finish.steps ∧
      ∃ new, s.finish.issues = old ++ new ∧ t.finish.issues = old' ++ new.map (PathIssue.shift n) := by
  have hbody' : t.body = none := by rw [h.body, hbody, Option.map_none]
  obtain ⟨new, hs, ht⟩ := h.issues
  refine ⟨?_, new ++ (s.flush.dot.map .emptySegment).toList, ?_, ?_⟩
  · rw [finish_steps_of_outside hbody, finish_steps_of_outside hbody', h.flush.steps]
  · rw [finish_issues_outside hbody, hs, List.append_assoc]
  · rw [finish_issues_outside hbody', ht, h.flush.dot, List.map_append, List.append_assoc]
    cases s.flush.dot <;> rfl

theorem finish (h : s.OneLater t n old old') :
    t.finish.steps = s.finish.steps ∧
      ∃ new, s.finish.issues = old ++ new ∧ t.finish.issues = old' ++ new.map (PathIssue.shift n) := by
  cases hbody : s.body with
  | none => exact h.finish_outside hbody
  | some b =>
    have hbody' : t.body = some (b.shift n) := by rw [h.body, hbody, Option.map_some]
    rw [finish_inside hbody, finish_inside hbody']
    exact (h.closeBody (h.bracket b hbody) false).finish_outside (closeBody_body ..)

end OneLater

/-- Outside bodies, what a scan remembers is before the next position. -/
theorem Located.oneLater {s : Scan} {text : List Char} (h : s.Located text) (hbody : s.body = none)
    (issues : List PathIssue) :
    s.OneLater { s with issues := issues, position := s.position + 1 } text.length s.issues issues where
  position := rfl
  after := Nat.le_of_eq h.position.symm
  steps := rfl
  issues := ⟨[], by simp, by simp⟩
  bare := rfl
  bareStart hne := (Path.shift_of_lt ((h.bare hne).start_lt hne)).symm
  dot := by
    cases hdot : s.dot with
    | none => rfl
    | some p => exact congrArg some (Path.shift_of_lt (h.dot p hdot).position_lt).symm
  body := by rw [hbody, Option.map_none]
  bracket b hb := by
    rw [hbody] at hb
    cases hb

theorem Located.map_shift_issues {s : Scan} {text : List Char} (h : s.Located text) :
    s.issues.map (PathIssue.shift text.length) = s.issues := by
  refine (List.map_congr_left fun issue hissue => ?_).trans (List.map_id _)
  exact PathIssue.shift_of_lt (h.issues issue hissue).2.position_lt

end Scan

/-! ## Readings -/

namespace Path

variable {u : String} {c : Char}

/-- Reading goes on after a character that only adds to the issues. -/
theorem readWithIssues_push (hu : Terminated u) {issues : List PathIssue}
    (hfeed : (Scan.start.run u.toList).feed c = { Scan.start.run u.toList with
      issues := issues, position := (Scan.start.run u.toList).position + 1 }) (v : String) :
    (readWithIssues (u.push c ++ v)).1 = (readWithIssues (u ++ v)).1 ∧
    ∃ later, (readWithIssues (u ++ v)).2 = (Scan.start.run u.toList).issues ++ later ∧
      (readWithIssues (u.push c ++ v)).2 = issues ++ later.map (PathIssue.shift u.length) := by
  have hlater := (Scan.located_run u.toList).oneLater hu.body_eq_none issues
  rw [← hfeed] at hlater
  have htext : (u ++ v).toList = u.toList ++ v.toList := String.toList_append
  have hpushed : (u.push c ++ v).toList = u.toList ++ c :: v.toList := by simp
  simp only [readWithIssues, htext, hpushed, Scan.run_append, Scan.run_cons]
  exact (hlater.run v.toList).finish

/-- Between a text that leaves no bracket and no look-up open and any other text, a
blank changes nothing but the positions of what comes after it. So does a `]`, except
that it is itself reported. -/
theorem readWithIssues_insert (hu : Terminated u) (v : String) :
    (∀ c, Text.isBlank c = true →
      readWithIssues (u.push c ++ v) = ((readWithIssues (u ++ v)).1,
        (readWithIssues (u ++ v)).2.map (PathIssue.shift u.length))) ∧
    (readWithIssues (u.push ']' ++ v)).1 = (readWithIssues (u ++ v)).1 ∧
    ∃ earlier later, (readWithIssues (u ++ v)).2 = earlier ++ later ∧
      (readWithIssues (u.push ']' ++ v)).2 =
        earlier.map (PathIssue.shift u.length) ++
          .unexpectedToken u.length ']' :: later.map (PathIssue.shift u.length) := by
  have hlocated := Scan.located_run u.toList
  have hbody := hu.body_eq_none
  refine ⟨fun c hc => ?_, ?_⟩
  · obtain ⟨hsteps, later, hissues, hmoved⟩ := readWithIssues_push hu (Scan.feed_blank hbody hc) v
    refine Prod.ext hsteps ?_
    rw [hmoved, hissues, List.map_append]
    exact congrArg (· ++ _) hlocated.map_shift_issues.symm
  · obtain ⟨hsteps, later, hissues, hmoved⟩ := readWithIssues_push hu (Scan.feed_closer_outside hbody) v
    refine ⟨hsteps, _, later, hissues, ?_⟩
    have hposition : (Scan.start.run u.toList).position = u.length := hlocated.position
    have hearlier : (Scan.start.run u.toList).issues.map (PathIssue.shift u.length) =
        (Scan.start.run u.toList).issues := hlocated.map_shift_issues
    rw [hmoved, hearlier, hposition, List.append_assoc, List.singleton_append]

/-- A blank and a `]` inside the `get` of an empty look-up, after a dot too many. -/
theorem readWithIssues_insert_call :
    (Terminated "a..ge" ∧ Text.isBlank ' ' = true) ∧
    readWithIssues ("a..ge".push ' ' ++ "t()[7") = ([.field "a", .index 7],
      [.emptySegment 2, .emptySegment 3, .unexpectedEnd 9 .bracket]) ∧
    (readWithIssues ("a..ge".push ']' ++ "t()[7")).1 = [.field "a", .index 7] ∧
    .unexpectedToken 5 ']' ∈ (readWithIssues ("a..ge".push ']' ++ "t()[7")).2 := by
  have hu : Terminated "a..ge" := by decide
  have hblank : Text.isBlank ' ' = true := by decide
  obtain ⟨hinsert, hsteps, earlier, later, -, hissues⟩ := readWithIssues_insert hu "t()[7"
  refine ⟨⟨hu, hblank⟩, ?_, ?_, ?_⟩
  · rw [hinsert ' ' hblank]
    decide
  · rw [hsteps]
    decide
  · rw [hissues]
    exact List.mem_append_right _ (List.mem_cons_self ..)

end Path

end ObjectGraph
