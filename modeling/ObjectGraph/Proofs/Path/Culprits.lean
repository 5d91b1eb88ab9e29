-- SUMMARY: Issues point at what they report: at a character of the text that stands outside bodies.
import ObjectGraph.Proofs.Path.Joined

/-! # Culprits

The position of an issue is that of a character in the text, and this character is
what the issue is about (`PathIssue.PointsInto`). A scan remembers three places
before it reports them: the last dot, the start of a bare name, and the start of a
body. Each of them stands in the text that has been read (`Scan.Located`), and
stays there whatever is read next.
-/

namespace ObjectGraph

/-! ## Places in a text -/

namespace Path

/-- A bare name goes on after a blank, and after a `]` that closes nothing. -/
def isSkipped (c : Char) : Bool := Text.isBlank c || c == ']'

/-- The word begins with the name, whose characters are all that is not skipped in it. -/
structure IsWord (word name : List Char) : Prop where
  head : word.head? = name.head?
  chars : word.filter (!isSkipped ·) = name

/-- After this text no bracket and no look-up is open. -/
def Outside (before : List Char) : Prop := (Scan.start.run before).body = none

/-- After this text a segment may begin: no bare name is being read either. -/
structure AtSegment (before : List Char) : Prop where
  outside : Outside before
  bare : (Scan.start.run before).bare = []

/-- In the text a body opens at this position, with this text after its opener. A
look-up opens at the `g` of its `get`. -/
inductive Opens (text : List Char) : BodyKind → Nat → List Char → Prop
  | bracket {before rest : List Char} : Outside before → text = before ++ '[' :: rest →
    Opens text .bracket before.length rest
  | lookup {before word rest : List Char} : AtSegment before → IsWord word Scan.lookupName →
    text = before ++ word ++ '(' :: rest → Opens text .lookup before.length rest

end Path

namespace BodyKind

/-- The delimiter that balances the opener of the body is in the text. -/
def Closes (kind : BodyKind) (rest : List Char) : Prop :=
  ∃ inner after, Balanced kind [] inner ∧ rest = inner ++ kind.closer :: after

/-- What is missing where the body is not closed. -/
def missing : BodyKind → Closer
  | .bracket => .bracket
  | .lookup => .lookup

end BodyKind

namespace PathIssue

open ObjectGraph.Path

/-- The issue has the position of the character in the text that it is about: a `]`
or a dot outside bodies, or the place where a body opens. A `Symbol(` without its
`)` is reported where it begins in a bracket, and for a look-up at its `get`. -/
inductive PointsInto (text : List Char) : PathIssue → Prop
  | strayCloser {before rest : List Char} : Outside before → text = before ++ ']' :: rest →
    PointsInto text (.unexpectedToken before.length ']')
  | dot {before rest : List Char} : Outside before → text = before ++ '.' :: rest →
    PointsInto text (.emptySegment before.length)
  | emptyBody {kind : BodyKind} {p : Nat} {rest : List Char} : Opens text kind p rest →
    PointsInto text (.emptySegment p)
  | unclosedBody {kind : BodyKind} {p : Nat} {rest : List Char} : Opens text kind p rest →
    ¬ kind.Closes rest → PointsInto text (.unexpectedEnd p kind.missing)
  | symbol {p : Nat} {rest : List Char} : Opens text .bracket p rest → Body.symbolOpen <+: rest →
    PointsInto text (.unexpectedEnd (p + 1) .symbol)
  | symbolEntry {p : Nat} {rest : List Char} : Opens text .lookup p rest →
    Body.symbolOpen <+: rest.dropWhile Text.isBlank → PointsInto text (.unexpectedEnd p .symbol)

/-- The characters at which an issue of this kind may point. -/
def culprits : PathIssue → List Char
  | .unexpectedToken _ _ => [']']
  | .emptySegment _ => ['.', '[', 'g']
  | .unexpectedEnd _ .bracket => ['[']
  | .unexpectedEnd _ .lookup => ['g']
  | .unexpectedEnd _ .symbol => ['S', 'g']

end PathIssue

/-! ## Texts that go on -/

namespace Path

variable {text before word name rest more : List Char} {kind : BodyKind} {p : Nat}

theorem Opens.append (h : Opens text kind p rest) (more : List Char) :
    Opens (text ++ more) kind p (rest ++ more) := by
  cases h with
  | bracket hout htext => exact .bracket hout (by simp [htext])
  | lookup hsegment hword htext => exact .lookup hsegment hword (by simp [htext])

/-- The character at which a body opens. -/
def opensAt : BodyKind → Char
  | .bracket => '['
  | .lookup => 'g'

theorem getElem?_of_opens (h : Opens text kind p rest) : text[p]? = some (opensAt kind) := by
  cases h with
  | bracket _ htext => simp [htext, opensAt]
  | @lookup before word rest _ hword htext =>
    have hhead : word.head? = some 'g' := hword.head
    cases word with
    | nil => cases hhead
    | cons c letters =>
      obtain rfl := Option.some.inj hhead
      simp [htext, opensAt]

theorem prefix_dropWhile_append (h : Body.symbolOpen <+: rest.dropWhile Text.isBlank)
    (more : List Char) : Body.symbolOpen <+: (rest ++ more).dropWhile Text.isBlank := by
  have hne : (rest.dropWhile Text.isBlank).isEmpty = false := by
    cases hrest : rest.dropWhile Text.isBlank with
    | nil => exact absurd (hrest ▸ h) (by decide)
    | cons => rfl
  rw [List.dropWhile_append, hne]
  exact h.trans (List.prefix_append ..)

end Path

namespace PathIssue

open ObjectGraph.Path

variable {text : List Char} {issue : PathIssue}

/-- What is not about the end of the text stays right when the text goes on. -/
theorem PointsInto.append (h : issue.PointsInto text) (hissue : issue.isUnterminated = false)
    (more : List Char) : issue.PointsInto (text ++ more) := by
  cases h with
  | @strayCloser before rest hout htext =>
    have hmore : text ++ more = before ++ ']' :: (rest ++ more) := by simp [htext]
    exact .strayCloser hout hmore
  | @dot before rest hout htext =>
    have hmore : text ++ more = before ++ '.' :: (rest ++ more) := by simp [htext]
    exact .dot hout hmore
  | emptyBody hopens => exact .emptyBody (hopens.append more)
  | @unclosedBody kind => cases kind <;> cases hissue
  | symbol hopens hsymbol => exact .symbol (hopens.append more) (hsymbol.trans (List.prefix_append ..))
  | symbolEntry hopens hsymbol =>
    exact .symbolEntry (hopens.append more) (prefix_dropWhile_append hsymbol more)

theorem PointsInto.exists_culprit (h : issue.PointsInto text) :
    ∃ c ∈ issue.culprits, text[issue.position]? = some c := by
  cases h with
  | strayCloser _ htext => exact ⟨']', by simp [culprits], by simp [position, htext]⟩
  | dot _ htext => exact ⟨'.', by simp [culprits], by simp [position, htext]⟩
  | @emptyBody kind _ _ hopens =>
    exact ⟨opensAt kind, by cases kind <;> simp [culprits, opensAt], getElem?_of_opens hopens⟩
  | @unclosedBody kind _ _ hopens =>
    exact ⟨opensAt kind, by cases kind <;> simp [culprits, opensAt, BodyKind.missing],
      getElem?_of_opens hopens⟩
  | symbol hopens hsymbol =>
    cases hopens with
    | bracket _ htext =>
      obtain ⟨after, rfl⟩ := hsymbol
      exact ⟨'S', by simp [culprits], by simp [position, htext, Body.symbolOpen_eq]⟩
  | symbolEntry hopens => exact ⟨'g', by simp [culprits], getElem?_of_opens hopens⟩

theorem PointsInto.position_lt (h : issue.PointsInto text) : issue.position < text.length := by
  obtain ⟨c, -, hc⟩ := h.exists_culprit
  exact (List.getElem?_eq_some_iff.1 hc).1

end PathIssue

/-! ## What bodies report -/

namespace Body

theorem feed_start (b : Body) (c : Char) : (b.feed c).1.start = b.start :=
  congrArg (fun next => next.1.start) (b.feed_withStart b.start c)

theorem start_of_takes {b b' : Body} {text : List Char} (h : b.takes text = some b') :
    b'.start = b.start := by
  induction text generalizing b with
  | nil =>
    obtain rfl := Option.some.inj h
    rfl
  | cons c rest ih =>
    rw [takes] at h
    split at h
    · cases h
    · rw [ih h, feed_start]

/-- As long as the body is not closed, its closer is not in the text. -/
theorem not_closes_of_takes {kind : BodyKind} {start : Nat} {rest : List Char} {b : Body}
    (h : (opened kind start).takes rest = some b) : ¬ kind.Closes rest := by
  rintro ⟨inner, after, hinner, rfl⟩
  have htakes : (opened kind start).takes inner = some (outside kind start inner 1) :=
    takes_balanced hinner start 0
  rw [takes_append, htakes, Option.bind_some, takes, feed_closer_last] at h
  cases h

theorem eq_of_mem_unclosed {closed : Bool} {issue reported : PathIssue}
    (h : issue ∈ if closed then [] else [reported]) : issue = reported := by
  cases closed with
  | false => exact List.mem_singleton.1 h
  | true => cases h

theorem mem_bracketStep_issues {start : Nat} {content : List Char} {issue : PathIssue}
    (h : issue ∈ (bracketStep start content).2) :
    symbolOpen <+: content ∧ issue = .unexpectedEnd (start + 1) .symbol := by
  unfold bracketStep at h
  split_ifs at h with hsymbol hdigits
  · exact ⟨List.isPrefixOf_iff_prefix.1 hsymbol, eq_of_mem_unclosed h⟩
  · cases h
  · cases h

theorem mem_lookupStep_issues {start : Nat} {content : List Char} {issue : PathIssue}
    (h : issue ∈ (lookupStep start content).2) :
    symbolOpen <+: content ∧ issue = .unexpectedEnd start .symbol := by
  unfold lookupStep at h
  split_ifs at h with hsymbol
  · exact ⟨List.isPrefixOf_iff_prefix.1 hsymbol, eq_of_mem_unclosed h⟩
  · cases h

/-- What is reported of a body whether it is closed or not. -/
def repairs (b : Body) : List PathIssue :=
  match b.kind with
  | .bracket =>
    if b.content.isEmpty then [.emptySegment b.start] else (bracketStep b.start b.content).2
  | .lookup =>
    if (Text.trim b.content).isEmpty then [.emptySegment b.start]
    else (lookupStep b.start (Text.trim b.content)).2

theorem finish_issues (b : Body) (closed : Bool) :
    (b.finish closed).2 =
      (if closed then [] else [.unexpectedEnd b.start b.kind.missing]) ++ b.repairs := by
  cases hkind : b.kind <;> simp only [finish, repairs, hkind, BodyKind.missing] <;> split <;> rfl

theorem mem_repairs {b : Body} {issue : PathIssue} (h : issue ∈ b.repairs) :
    issue = .emptySegment b.start ∨
    (b.kind = .bracket ∧ symbolOpen <+: b.content ∧ issue = .unexpectedEnd (b.start + 1) .symbol) ∨
    (b.kind = .lookup ∧ symbolOpen <+: Text.trim b.content ∧
      issue = .unexpectedEnd b.start .symbol) := by
  unfold repairs at h
  split at h
  · rename_i hkind
    split at h
    · exact .inl (List.mem_singleton.1 h)
    · obtain ⟨hsymbol, rfl⟩ := mem_bracketStep_issues h
      exact .inr (.inl ⟨hkind, hsymbol, rfl⟩)
  · rename_i hkind
    split at h
    · exact .inl (List.mem_singleton.1 h)
    · obtain ⟨hsymbol, rfl⟩ := mem_lookupStep_issues h
      exact .inr (.inr ⟨hkind, hsymbol, rfl⟩)

end Body

theorem Text.trim_prefix (text : List Char) : trim text <+: text.dropWhile isBlank := by
  rw [trim, ← List.reverse_suffix, List.reverse_reverse]
  exact List.dropWhile_suffix _

namespace Body

variable {kind : BodyKind} {text rest : List Char} {p : Nat} {b : Body} {issue : PathIssue}

/-- The repairs of a body that opens in the text, up to whose end it is read. -/
theorem pointsInto_of_mem_repairs (hopens : Path.Opens text kind p rest)
    (htaken : (opened kind p).takes rest = some b) (h : issue ∈ b.repairs) :
    issue.isUnterminated = false ∧ issue.PointsInto text := by
  obtain ⟨hkind, hcontent⟩ := content_of_takes htaken
  have hstart : b.start = p := start_of_takes htaken
  have hrest : b.content = rest := hcontent
  have hkind' : b.kind = kind := hkind
  subst hstart hrest hkind'
  rcases mem_repairs h with rfl | ⟨hbracket, hsymbol, rfl⟩ | ⟨hlookup, hsymbol, rfl⟩
  · exact ⟨rfl, .emptyBody hopens⟩
  · exact ⟨rfl, .symbol (hbracket ▸ hopens) hsymbol⟩
  · exact ⟨rfl, .symbolEntry (hlookup ▸ hopens) (hsymbol.trans (Text.trim_prefix _))⟩

end Body

/-! ## What the scan remembers -/

namespace Path

/-- In the text a bare name is being read, which starts at this position. -/
def NameAt (text : List Char) (start : Nat) (name : List Char) : Prop :=
  ∃ before word, AtSegment before ∧ IsWord word name ∧ text = before ++ word ∧ start = before.length

variable {text name : List Char} {start : Nat} {c : Char}

theorem IsWord.ne_nil {word : List Char} (h : IsWord word name) (hname : name ≠ []) : word ≠ [] := by
  rintro rfl
  exact hname h.chars.symm

/-- Once a name has begun, it goes on with what is not skipped. -/
theorem NameAt.append (h : NameAt text start name) (hname : name ≠ []) (c : Char) :
    NameAt (text ++ [c]) start (name ++ [c].filter (!isSkipped ·)) := by
  obtain ⟨before, word, hsegment, hword, rfl, rfl⟩ := h
  refine ⟨before, word ++ [c], hsegment, ⟨?_, ?_⟩, List.append_assoc .., rfl⟩
  · rw [List.head?_append_of_ne_nil _ (hword.ne_nil hname), List.head?_append_of_ne_nil _ hname]
    exact hword.head
  · rw [List.filter_append, hword.chars]

theorem NameAt.skip (h : NameAt text start name) (hname : name ≠ []) (hc : isSkipped c = true) :
    NameAt (text ++ [c]) start name := by
  simpa [hc] using h.append hname c

theorem NameAt.concat (h : NameAt text start name) (hname : name ≠ []) (hc : isSkipped c = false) :
    NameAt (text ++ [c]) start (name ++ [c]) := by
  simpa [hc] using h.append hname c

theorem NameAt.start_lt (h : NameAt text start name) (hname : name ≠ []) : start < text.length := by
  obtain ⟨before, word, -, hword, rfl, rfl⟩ := h
  have hlength := List.length_pos_of_ne_nil (hword.ne_nil hname)
  rw [List.length_append]
  omega

theorem nameAt_singleton (h : AtSegment text) (hc : isSkipped c = false) :
    NameAt (text ++ [c]) text.length [c] :=
  ⟨text, [c], h, ⟨rfl, by simp [hc]⟩, rfl, rfl⟩

end Path

namespace Scan

open ObjectGraph.Path PathIssue

/-- Whatever the scan remembers stands in the text that it has read. -/
structure Located (s : Scan) (text : List Char) : Prop where
  position : s.position = text.length
  issues : ∀ issue ∈ s.issues, issue.isUnterminated = false ∧ issue.PointsInto text
  dot : ∀ p, s.dot = some p → (emptySegment p).PointsInto text
  bare : s.bare ≠ [] → NameAt text s.bareStart s.bare
  body : ∀ b, s.body = some b → s.bare = [] ∧
    ∃ rest, Opens text b.kind b.start rest ∧ (Body.opened b.kind b.start).takes rest = some b

variable {s t : Scan} {text : List Char} {c : Char}

theorem located_start : start.Located [] := by
  refine ⟨rfl, ?_, ?_, ?_, ?_⟩ <;> simp [start]

/-- What was remembered before the last character is still in the text. -/
theorem Located.next (h : s.Located text) (hposition : t.position = s.position + 1)
    (hissues : ∀ issue ∈ t.issues, issue ∈ s.issues ∨
      issue.isUnterminated = false ∧ issue.PointsInto (text ++ [c]))
    (hdot : ∀ p, t.dot = some p → s.dot = some p ∨ (emptySegment p).PointsInto (text ++ [c]))
    (hbare : t.bare ≠ [] → NameAt (text ++ [c]) t.bareStart t.bare)
    (hbody : ∀ b, t.body = some b → t.bare = [] ∧ ∃ rest, Opens (text ++ [c]) b.kind b.start rest ∧
      (Body.opened b.kind b.start).takes rest = some b) : t.Located (text ++ [c]) := by
  refine ⟨by simp [hposition, h.position], fun issue hissue => ?_, fun p hp => ?_, hbare, hbody⟩
  · rcases hissues issue hissue with hold | hnew
    · obtain ⟨hcut, hpoints⟩ := h.issues issue hold
      exact ⟨hcut, hpoints.append hcut _⟩
    · exact hnew
  · rcases hdot p hp with hold | hnew
    · exact (h.dot p hold).append rfl _
    · exact hnew

/-- The same, where no body is open afterwards. -/
theorem Located.nextOutside (h : s.Located text) (hposition : t.position = s.position + 1)
    (hissues : ∀ issue ∈ t.issues, issue ∈ s.issues ∨
      issue.isUnterminated = false ∧ issue.PointsInto (text ++ [c]))
    (hdot : ∀ p, t.dot = some p → s.dot = some p ∨ (emptySegment p).PointsInto (text ++ [c]))
    (hbare : t.bare ≠ [] → NameAt (text ++ [c]) t.bareStart t.bare) (hbody : t.body = none) :
    t.Located (text ++ [c]) := by
  refine h.next hposition hissues hdot hbare fun b hb => ?_
  rw [hbody] at hb
  cases hb

theorem dot_of_flush {p : Nat} (h : s.flush.dot = some p) : s.dot = some p := by
  unfold flush at h
  split at h
  · exact h
  · cases h

/-- A dot is reported where another one waits for a step. -/
theorem feedPlain_dot_eq (s : Scan) :
    s.feedPlain '.' =
      { s.flush.report (if s.flush.dot.isSome then [emptySegment s.position] else []) with
        dot := some s.position } := by
  simp only [feedPlain, if_true]
  split <;> simp [report]

theorem feed_closer_outside (hbody : s.body = none) :
    s.feed ']' = { s with
      issues := s.issues ++ [.unexpectedToken s.position ']'], position := s.position + 1 } := by
  simp [feed, hbody, feedPlain, report]

theorem Located.feed_dot (h : s.Located text) (hbody : s.body = none) (hout : Outside text) :
    (s.feed '.').Located (text ++ ['.']) := by
  have hpoints : (emptySegment s.position).PointsInto (text ++ ['.']) := by
    rw [h.position]
    exact .dot hout rfl
  simp only [feed, hbody, feedPlain_dot_eq]
  refine h.nextOutside (flush_position s ▸ rfl) (fun issue hissue => ?_) (fun p hp => .inr ?_)
    (fun hbare => absurd (flush_bare s) hbare) ((flush_body s).trans hbody)
  · rcases List.mem_append.1 hissue with hold | hnew
    · exact .inl (flush_issues s ▸ hold)
    · split at hnew
      · obtain rfl := List.mem_singleton.1 hnew
        exact .inr ⟨rfl, hpoints⟩
      · cases hnew
  · obtain rfl := Option.some.inj hp
    exact hpoints

theorem Located.feed_bracket (h : s.Located text) (hbody : s.body = none) (hout : Outside text) :
    (s.feed '[').Located (text ++ ['[']) := by
  rw [Scan.feed_bracket hbody]
  refine h.next (by simp) (fun issue hissue => .inl (by simpa using hissue))
    (fun p hp => .inl (dot_of_flush hp)) (fun hbare => absurd (flush_bare s) hbare) fun b hb => ?_
  obtain rfl := Option.some.inj hb
  refine ⟨flush_bare s, [], ?_, rfl⟩
  rw [h.position]
  exact .bracket hout rfl

theorem Located.feed_call (h : s.Located text) (hbody : s.body = none) (hbare : s.bare = lookupName) :
    (s.feed '(').Located (text ++ ['(']) := by
  obtain ⟨before, word, hbefore, hword, rfl, hstart⟩ := h.bare (by simp [hbare, lookupName_eq])
  rw [Scan.feed_call hbody hbare]
  refine h.next rfl (fun _ => .inl) (fun _ => .inl) (fun hne => absurd rfl hne) fun b hb => ?_
  obtain rfl := Option.some.inj hb
  refine ⟨rfl, [], ?_, rfl⟩
  rw [hstart]
  exact .lookup hbefore (hbare ▸ hword) rfl

theorem Located.feed_closer (h : s.Located text) (hbody : s.body = none) (hout : Outside text) :
    (s.feed ']').Located (text ++ [']']) := by
  rw [feed_closer_outside hbody]
  refine h.nextOutside rfl (fun issue hissue => ?_) (fun _ => .inl)
    (fun hne => (h.bare hne).skip hne rfl) hbody
  rcases List.mem_append.1 hissue with hold | hnew
  · exact .inl hold
  · obtain rfl := List.mem_singleton.1 hnew
    rw [h.position]
    exact .inr ⟨rfl, .strayCloser hout rfl⟩

theorem Located.feed_blank (h : s.Located text) (hbody : s.body = none) (hc : Text.isBlank c = true) :
    (s.feed c).Located (text ++ [c]) := by
  have hskipped : isSkipped c = true := by simp [isSkipped, hc]
  rw [Scan.feed_blank hbody hc]
  exact h.nextOutside rfl (fun _ => .inl) (fun _ => .inl) (fun hne => (h.bare hne).skip hne hskipped) hbody

theorem Located.feed_name (h : s.Located text) (hbody : s.body = none)
    (hsegment : s.bare = [] → AtSegment text) (hc : IsNameChar c)
    (hcall : ¬(c = '(' ∧ s.bare = lookupName)) : (s.feed c).Located (text ++ [c]) := by
  have hname : isSkipped c = false := by simp [isSkipped, hc.1, hc.2.2.2]
  rw [Scan.feed_name hbody hc hcall]
  refine h.nextOutside rfl (fun _ => .inl) (fun _ => .inl) (fun _ => ?_) hbody
  by_cases hbare : s.bare = []
  · simp only [hbare, List.isEmpty_nil, if_true, List.nil_append]
    rw [h.position]
    exact nameAt_singleton (hsegment hbare) hname
  · simp only [List.isEmpty_iff, hbare, if_false]
    exact (h.bare hbare).concat hbare hname

theorem Located.feed_outside (h : (start.run text).Located text) (hout : Outside text) (c : Char) :
    (start.run (text ++ [c])).Located (text ++ [c]) := by
  have hsegment (hbare : (start.run text).bare = []) : AtSegment text := ⟨hout, hbare⟩
  rw [run_append, run_cons, run_nil]
  by_cases hdot : c = '.'
  · exact hdot ▸ h.feed_dot hout hout
  by_cases hbracket : c = '['
  · exact hbracket ▸ h.feed_bracket hout hout
  by_cases hcall : c = '(' ∧ (start.run text).bare = lookupName
  · exact hcall.1 ▸ h.feed_call hout hcall.2
  by_cases hclose : c = ']'
  · exact hclose ▸ h.feed_closer hout hout
  cases hblank : Text.isBlank c with
  | true => exact h.feed_blank hout hblank
  | false => exact h.feed_name hout hsegment ⟨hblank, hdot, hbracket, hclose⟩ hcall

theorem closeBody_dot {p : Nat} {b : Body} {closed : Bool} (h : (s.closeBody b closed).dot = some p) :
    s.dot = some p := by
  unfold closeBody at h
  rcases hfinish : b.finish closed with ⟨_ | step, issues⟩ <;> rw [hfinish] at h
  · exact h
  · cases h

@[simp] theorem closeBody_bare (s : Scan) (b : Body) (closed : Bool) :
    (s.closeBody b closed).bare = s.bare := by
  unfold closeBody
  rcases b.finish closed with ⟨_ | step, issues⟩ <;> rfl

@[simp] theorem closeBody_body (s : Scan) (b : Body) (closed : Bool) :
    (s.closeBody b closed).body = none := by
  unfold closeBody
  rcases b.finish closed with ⟨_ | step, issues⟩ <;> rfl

/-- What a body has taken is the text after its opener. -/
theorem Located.feed_taken (h : s.Located text) {b b' : Body} (hbody : s.body = some b)
    (hfeed : b.feed c = (b', false)) : (s.feed c).Located (text ++ [c]) := by
  obtain ⟨hbare, rest, hopens, htaken⟩ := h.body b hbody
  have htaken' : (Body.opened b.kind b.start).takes (rest ++ [c]) = some b' := by
    rw [Body.takes_append, htaken, Option.bind_some]
    simp [Body.takes, hfeed]
  have hkind : b'.kind = b.kind := (Body.content_of_takes htaken').1
  have hstart : b'.start = b.start := Body.start_of_takes (b := .opened b.kind b.start) htaken'
  have hnext : s.feed c = { s with body := some b', position := s.position + 1 } := by
    simp [feed, hbody, hfeed]
  rw [hnext]
  refine h.next rfl (fun _ => .inl) (fun _ => .inl) (fun hne => absurd hbare hne) fun b'' hb'' => ?_
  obtain rfl := Option.some.inj hb''
  rw [hkind, hstart]
  exact ⟨hbare, rest ++ [c], hopens.append [c], htaken'⟩

theorem Located.feed_closes (h : s.Located text) {b b' : Body} (hbody : s.body = some b)
    (hfeed : b.feed c = (b', true)) : (s.feed c).Located (text ++ [c]) := by
  obtain ⟨hbare, rest, hopens, htaken⟩ := h.body b hbody
  obtain ⟨-, -, -, rfl⟩ := Body.of_feed_closes hfeed
  have hnext : s.feed c = { s.closeBody b' true with position := s.position + 1 } := by
    simp [feed, hbody, hfeed]
  rw [hnext]
  refine h.nextOutside rfl (fun issue hissue => ?_) (fun p hp => .inl (closeBody_dot hp))
    (fun hne => absurd hbare (closeBody_bare s b' true ▸ hne)) (closeBody_body s b' true)
  have hissue' : issue ∈ (s.closeBody b' true).issues := hissue
  rw [closeBody_issues, Body.finish_issues] at hissue'
  rcases List.mem_append.1 hissue' with hold | hnew
  · exact .inl hold
  · obtain ⟨hcut, hpoints⟩ := Body.pointsInto_of_mem_repairs hopens htaken hnew
    exact .inr ⟨hcut, hpoints.append hcut [c]⟩

theorem Located.feed_inside (h : s.Located text) {b : Body} (hbody : s.body = some b) (c : Char) :
    (s.feed c).Located (text ++ [c]) := by
  cases hfeed : b.feed c with
  | mk b' closed =>
    cases closed with
    | false => exact h.feed_taken hbody hfeed
    | true => exact h.feed_closes hbody hfeed

theorem located_run (text : List Char) : (start.run text).Located text := by
  induction text using List.reverseRecOn with
  | nil => exact located_start
  | append_singleton text c ih =>
    cases hbody : (start.run text).body with
    | none => exact ih.feed_outside hbody c
    | some b =>
      rw [run_append]
      exact ih.feed_inside hbody c

theorem finish_issues_outside (hbody : s.body = none) :
    s.finish.issues = s.issues ++ (s.flush.dot.map emptySegment).toList := by
  simp only [finish, hbody]
  cases hdot : s.flush.dot <;> simp [report]

/-- An open body is left first. -/
theorem finish_inside {b : Body} (hbody : s.body = some b) :
    s.finish = (s.closeBody b false).finish := by
  simp only [finish, hbody, closeBody_body]

theorem mem_finish_issues_outside (hbody : s.body = none) {issue : PathIssue}
    (h : issue ∈ s.finish.issues) : issue ∈ s.issues ∨ ∃ p, s.dot = some p ∧ issue = .emptySegment p := by
  rw [finish_issues_outside hbody] at h
  rcases List.mem_append.1 h with hold | hnew
  · exact .inl hold
  · obtain ⟨p, hdot, rfl⟩ := Option.map_eq_some_iff.1 (Option.mem_toList.1 hnew)
    exact .inr ⟨p, dot_of_flush hdot, rfl⟩

theorem Located.pointsInto_of_mem_finish (h : s.Located text) {issue : PathIssue}
    (hissue : issue ∈ s.finish.issues) : issue.PointsInto text := by
  cases hbody : s.body with
  | none =>
    rcases mem_finish_issues_outside hbody hissue with hold | ⟨p, hdot, rfl⟩
    · exact (h.issues issue hold).2
    · exact h.dot p hdot
  | some b =>
    obtain ⟨-, rest, hopens, htaken⟩ := h.body b hbody
    rw [finish_inside hbody] at hissue
    rcases mem_finish_issues_outside (closeBody_body ..) hissue with hold | ⟨p, hdot, rfl⟩
    · rw [closeBody_issues, Body.finish_issues] at hold
      rcases List.mem_append.1 hold with hold | hnew
      · exact (h.issues issue hold).2
      rcases List.mem_append.1 hnew with hcut | hrepair
      · obtain rfl := List.mem_singleton.1 hcut
        exact .unclosedBody hopens (Body.not_closes_of_takes htaken)
      · exact (Body.pointsInto_of_mem_repairs hopens htaken hrepair).2
    · exact h.dot p (closeBody_dot hdot)

end Scan

/-- Each issue has the position of a character of the text, one of those that issues
of its kind are about, and this character stands where the issue says. -/
theorem Path.issues_point_into (text : String) :
    ∀ issue ∈ (readWithIssues text).2, issue.position < text.length ∧
      (∃ c ∈ issue.culprits, text.toList[issue.position]? = some c) ∧
      issue.PointsInto text.toList := by
  intro issue hissue
  have hpoints := (Scan.located_run text.toList).pointsInto_of_mem_finish hissue
  exact ⟨hpoints.position_lt, hpoints.exists_culprit, hpoints⟩

/-- Positions count characters, whatever their encoding. -/
theorem Path.issues_point_into_accented :
    .unexpectedToken 5 ']' ∈ (readWithIssues "né..ß]").2 ∧
    (PathIssue.unexpectedToken 5 ']').position < "né..ß]".length ∧
    (∃ c ∈ [']'], "né..ß]".toList[5]? = some c) ∧
    (PathIssue.unexpectedToken 5 ']').PointsInto "né..ß]".toList := by
  have hissue : .unexpectedToken 5 ']' ∈ (readWithIssues "né..ß]").2 := by decide
  exact ⟨hissue, issues_point_into "né..ß]" _ hissue⟩

end ObjectGraph
