-- SUMMARY: Reading a written path gives the path back, without issues.
import ObjectGraph.Proofs.Path.Grammar

/-! # Written paths are read back

A written path is a row of segments: bare names, brackets and look-ups. Each
segment takes the scan from one settled state to the next and adds exactly its
own step (`Scan.Settled.run_writeStep`); the whole path follows by induction on
its steps (`Path.readWithIssues_write`).
-/

namespace ObjectGraph

/-! ## Quoting -/

namespace Path

theorem unescape_flatMap_quoteChar (text : List Char) : unescape (text.flatMap quoteChar) = text := by
  induction text with
  | nil => rfl
  | cons c rest ih =>
    rw [List.flatMap_cons]
    by_cases hc : c = '"' ∨ c = '\\'
    · rw [quoteChar, if_pos hc]
      simp [unescape, ih]
    · rw [quoteChar, if_neg hc]
      have hback : c ≠ '\\' := fun h => hc (.inr h)
      simp [unescape, hback, ih]

theorem unquote_quoted (text : List Char) : unquote (quoted text) = some text := by
  simp [unquote, quoted, unescape_flatMap_quoteChar]

/-- Only a text that starts with a quote can be one in quotes. -/
theorem unquote_eq_none {text : List Char} (h : ∀ c ∈ text, c ≠ '"' ∧ c ≠ '\'') :
    unquote text = none := by
  cases text with
  | nil => rfl
  | cons c rest =>
    have hc := h c (List.mem_cons_self ..)
    simp [unquote, hc.1, hc.2]

end Path

/-! ## Texts inside a body -/

namespace Body

/-- Take a whole text, unless it closes the body. -/
def takes (b : Body) : List Char → Option Body
  | [] => some b
  | c :: rest => if (b.feed c).2 then none else (b.feed c).1.takes rest

theorem takes_append (b : Body) (u v : List Char) :
    b.takes (u ++ v) = (b.takes u).bind (·.takes v) := by
  induction u generalizing b with
  | nil => rfl
  | cons c rest ih =>
    simp only [List.cons_append, takes]
    split
    · rfl
    · exact ih _

/-- The characters that a body of either kind keeps without further notice. -/
def IsPlain (kind : BodyKind) (c : Char) : Prop :=
  c ≠ '"' ∧ c ≠ '\'' ∧ c ≠ kind.opener ∧ c ≠ kind.closer

theorem takes_plain {b : Body} {text : List Char} (hquote : b.quote = none)
    (h : ∀ c ∈ text, IsPlain b.kind c) :
    b.takes text = some { b with content := b.content ++ text } := by
  induction text generalizing b with
  | nil => simp [takes]
  | cons c rest ih =>
    obtain ⟨hdouble, hsingle, hopen, hclose⟩ := h c (List.mem_cons_self ..)
    have hfeed : b.feed c = ({ b with content := b.content ++ [c] }, false) := by
      simp [feed, hquote, hdouble, hsingle, hopen, hclose]
    rw [takes, hfeed]
    have hrest := ih (b := { b with content := b.content ++ [c] }) hquote
      fun d hd => h d (List.mem_cons_of_mem _ hd)
    simp only [Bool.false_eq_true, if_false]
    rw [hrest]
    simp

/-- Inside quotes a text is taken as it stands. -/
theorem takes_quotedText {b : Body} {q : Char} {text : List Char} (htext : QuotedText q text)
    (hquote : b.quote = some q) (hescaped : b.escaped = false) :
    b.takes text = some { b with content := b.content ++ text } := by
  obtain ⟨kind, start, content, depth, quote, escaped⟩ := b
  subst hquote hescaped
  induction htext generalizing content with
  | nil => simp [takes]
  | plain hq hplain _ ih => simp [takes, feed, hq, hplain, ih]
  | escaped _ ih => simp [takes, feed, ih]

theorem quotedText_flatMap_quoteChar (text : List Char) :
    QuotedText '"' (text.flatMap Path.quoteChar) := by
  induction text with
  | nil => exact .nil
  | cons c rest ih =>
    rw [List.flatMap_cons, Path.quoteChar]
    split
    · exact .escaped ih
    · rename_i hc
      have ⟨hdouble, hback⟩ := not_or.1 hc
      exact .plain hdouble hback ih

theorem takes_quoted {b : Body} {text : List Char} (hquote : b.quote = none)
    (hescaped : b.escaped = false) (hopen : quoteMayOpen b.content = true) :
    b.takes (Path.quoted text) = some { b with content := b.content ++ Path.quoted text } := by
  obtain ⟨kind, start, content, depth, quote, escaped⟩ := b
  subst hquote hescaped
  have hfirst : feed ⟨kind, start, content, depth, none, false⟩ '"' =
      (⟨kind, start, content ++ ['"'], depth, some '"', false⟩, false) := by
    simp only at hopen
    simp [feed, hopen]
  rw [Path.quoted, List.cons_append, takes, hfirst]
  simp only [Bool.false_eq_true, if_false]
  rw [takes_append, takes_quotedText (quotedText_flatMap_quoteChar text) rfl rfl]
  simp [takes, feed]

theorem symbolOpen_eq : symbolOpen = ['S', 'y', 'm', 'b', 'o', 'l', '('] := rfl

theorem takes_symbolOpen (kind : BodyKind) (start : Nat) :
    (opened kind start).takes symbolOpen =
      some { opened kind start with
        content := symbolOpen, depth := if kind = .lookup then 2 else 1 } := by
  cases kind <;> simp [symbolOpen_eq, opened, takes, feed, BodyKind.opener, BodyKind.closer]

/-! ## Bodies that hold a step -/

/-- The text between an opener and its closer is read as the step. -/
def Holds (kind : BodyKind) (text : List Char) (step : Step) : Prop :=
  ∀ start, ∃ b, (opened kind start).takes text = some b ∧ b.feed kind.closer = (b, true) ∧
    b.finish true = (some step, [])

theorem literal_quoted (text : List Char) : literal (Path.quoted text) = String.ofList text := by
  simp [literal, Path.unquote_quoted]

theorem isPlain_of_isBareDescription {text : List Char} (h : Path.isBareDescription text = true)
    (kind : BodyKind) : ∀ c ∈ text, IsPlain kind c := by
  simp only [Path.isBareDescription, Bool.not_eq_eq_eq_not, Bool.not_true, List.any_eq_false] at h
  intro c hc
  have hnot := h c hc
  refine ⟨?_, ?_, ?_, ?_⟩ <;> rintro rfl <;> revert hnot
  · decide
  · decide
  · cases kind <;> decide
  · cases kind <;> decide

/-- A description as it stands between the parentheses of `Symbol(...)`. -/
def writtenDescription (text : List Char) : List Char :=
  if Path.isBareDescription text then text else Path.quoted text

theorem literal_writtenDescription (text : List Char) :
    literal (writtenDescription text) = String.ofList text := by
  unfold writtenDescription
  split
  · rename_i hbare
    have hplain := isPlain_of_isBareDescription hbare .bracket
    have hnone := Path.unquote_eq_none fun c hc => ⟨(hplain c hc).1, (hplain c hc).2.1⟩
    simp [literal, hnone]
  · exact literal_quoted text

theorem takes_writtenDescription {b : Body} (hquote : b.quote = none) (hescaped : b.escaped = false)
    (hcontent : b.content = symbolOpen) (text : List Char) :
    b.takes (writtenDescription text) =
      some { b with content := b.content ++ writtenDescription text } := by
  unfold writtenDescription
  split
  · rename_i hbare
    exact takes_plain hquote (isPlain_of_isBareDescription hbare b.kind)
  · exact takes_quoted hquote hescaped (by rw [hcontent]; decide)

theorem writeSymbol_eq (text : List Char) :
    Path.writeSymbol text = symbolOpen ++ writtenDescription text ++ [')'] := rfl

theorem takes_writeSymbol (kind : BodyKind) (start : Nat) (text : List Char) :
    (opened kind start).takes (Path.writeSymbol text) =
      some { opened kind start with content := Path.writeSymbol text } := by
  rw [writeSymbol_eq, takes_append, takes_append, takes_symbolOpen, Option.bind_some,
    takes_writtenDescription (by rfl) (by rfl) (by rfl), Option.bind_some]
  cases kind <;> rfl

theorem description_writeSymbol (text : List Char) :
    symbolOpen.isPrefixOf (Path.writeSymbol text) = true ∧
      description ((Path.writeSymbol text).drop symbolOpen.length) = (String.ofList text, true) := by
  rw [writeSymbol_eq, List.append_assoc, List.drop_left]
  refine ⟨List.isPrefixOf_iff_prefix.2 (List.prefix_append _ _), ?_⟩
  simp [description, literal_writtenDescription]

theorem holds_quoted_field (name : String) :
    Holds .bracket (Path.quoted name.toList) (.field name) := by
  intro start
  refine ⟨_, takes_quoted rfl rfl rfl, rfl, ?_⟩
  have hnot : symbolOpen.isPrefixOf (Path.quoted name.toList) = false := rfl
  have hdigit : (Path.quoted name.toList).all Char.isDigit = false := rfl
  simp only [finish, opened, List.nil_append, bracketStep, hnot, hdigit, literal_quoted]
  simp [Path.quoted]

theorem holds_symbol (description : String) :
    Holds .bracket (Path.writeSymbol description.toList) (.symbol description) := by
  intro start
  refine ⟨_, takes_writeSymbol .bracket start _, rfl, ?_⟩
  have ⟨hpre, hdescription⟩ := description_writeSymbol description.toList
  simp only [finish, opened, bracketStep, hpre, hdescription]
  simp [writeSymbol_eq]

theorem digitsValue_toDigits (n : Nat) : digitsValue (Nat.toDigits 10 n) = n := by
  have h := Nat.ofDigitChars_ten_toDigits (n := n)
  rwa [Nat.ofDigitChars_eq_foldl] at h

theorem holds_index {n : Nat} (h : n < Step.indexLimit) :
    Holds .bracket (Nat.toDigits 10 n) (.index n) := by
  have hdigit : ∀ c ∈ Nat.toDigits 10 n, c.isDigit = true := fun c hc =>
    Nat.isDigit_of_mem_toDigits (by decide) (by decide) hc
  intro start
  have hplain : ∀ c ∈ Nat.toDigits 10 n, IsPlain .bracket c := by
    intro c hc
    refine ⟨?_, ?_, ?_, ?_⟩ <;> rintro rfl <;> exact absurd (hdigit _ hc) (by decide)
  refine ⟨_, takes_plain rfl hplain, rfl, ?_⟩
  have hsymbol : symbolOpen.isPrefixOf (Nat.toDigits 10 n) = false := by
    refine Bool.eq_false_iff.2 fun hpre => ?_
    have hmem : 'S' ∈ Nat.toDigits 10 n :=
      (List.isPrefixOf_iff_prefix.1 hpre).subset (by decide)
    exact absurd (hdigit _ hmem) (by decide)
  simp only [finish, opened, List.nil_append, bracketStep, hsymbol, List.all_eq_true.2 hdigit,
    digitsValue_toDigits]
  simp [h, Nat.toDigits_ne_nil]

theorem trim_quoted (text : List Char) : Text.trim (Path.quoted text) = Path.quoted text :=
  Text.trim_of_ends _ rfl rfl

theorem trim_writeSymbol (text : List Char) :
    Text.trim (Path.writeSymbol text) = Path.writeSymbol text :=
  Text.trim_of_ends ("ymbol(".toList ++ writtenDescription text) rfl rfl

theorem holds_quoted_entry (key : String) :
    Holds .lookup (Path.quoted key.toList) (.entry key false) := by
  intro start
  refine ⟨_, takes_quoted rfl rfl rfl, rfl, ?_⟩
  have hnot : symbolOpen.isPrefixOf (Path.quoted key.toList) = false := rfl
  simp only [finish, opened, List.nil_append, trim_quoted, lookupStep, hnot, literal_quoted]
  simp [Path.quoted]

theorem holds_symbol_entry (description : String) :
    Holds .lookup (Path.writeSymbol description.toList) (.entry description true) := by
  intro start
  refine ⟨_, takes_writeSymbol .lookup start _, rfl, ?_⟩
  have ⟨hpre, hdescription⟩ := description_writeSymbol description.toList
  simp only [finish, opened, trim_writeSymbol, lookupStep, hpre, hdescription]
  simp [writeSymbol_eq]

end Body

/-! ## Characters outside bodies -/

namespace Scan

@[simp] theorem run_nil (s : Scan) : s.run [] = s := rfl

@[simp] theorem run_cons (s : Scan) (c : Char) (rest : List Char) :
    s.run (c :: rest) = (s.feed c).run rest := rfl

@[simp] theorem flush_body (s : Scan) : s.flush.body = s.body := by
  unfold flush; split <;> rfl

@[simp] theorem flush_issues (s : Scan) : s.flush.issues = s.issues := by
  unfold flush; split <;> rfl

@[simp] theorem flush_position (s : Scan) : s.flush.position = s.position := by
  unfold flush; split <;> rfl

@[simp] theorem flush_bare (s : Scan) : s.flush.bare = [] := by
  unfold flush; split
  · rename_i h; exact List.isEmpty_iff.1 h
  · rfl

theorem flush_of_bare_nil {s : Scan} (h : s.bare = []) : s.flush = s := by
  simp [flush, h]

theorem feed_dot {s : Scan} (hbody : s.body = none) (hdot : s.flush.dot = none) :
    s.feed '.' = { s.flush with dot := some s.position, position := s.position + 1 } := by
  simp [feed, hbody, feedPlain, hdot]

theorem feed_bracket {s : Scan} (hbody : s.body = none) :
    s.feed '[' =
      { s.flush with body := some (.opened .bracket s.position), position := s.position + 1 } := by
  simp [feed, hbody, feedPlain]

theorem feed_call {s : Scan} (hbody : s.body = none) (hbare : s.bare = lookupName) :
    s.feed '(' =
      { s with
        bare := [], body := some (.opened .lookup s.bareStart), position := s.position + 1 } := by
  simp [feed, hbody, feedPlain, hbare]

theorem feed_blank {s : Scan} {c : Char} (hbody : s.body = none) (hblank : Text.isBlank c = true) :
    s.feed c = { s with position := s.position + 1 } := by
  have hmarks : c ≠ '.' ∧ c ≠ '[' ∧ c ≠ '(' ∧ c ≠ ']' := by
    refine ⟨?_, ?_, ?_, ?_⟩ <;> rintro rfl <;> exact absurd hblank (by decide)
  simp [feed, hbody, feedPlain, hblank, hmarks]

theorem feed_name {s : Scan} {c : Char} (hbody : s.body = none) (hname : IsNameChar c)
    (hcall : ¬ (c = '(' ∧ s.bare = lookupName)) :
    s.feed c =
      { s with
        bare := s.bare ++ [c],
        bareStart := if s.bare.isEmpty then s.position else s.bareStart,
        position := s.position + 1 } := by
  obtain ⟨hblank, hdot, hopen, hclose⟩ := hname
  simp only [feed, hbody, feedPlain, hdot, hopen, hcall, hclose, hblank, if_false,
    Bool.false_eq_true]

/-! ## Segments -/

/-- Outside a body, `p` being the steps read so far. -/
structure Between (s : Scan) (p : Path) : Prop where
  body : s.body = none
  issues : s.issues = []
  steps : s.flush.steps = p

/-- Before a segment: a dot may have been read, but nothing of the segment. -/
structure Ready (s : Scan) (p : Path) : Prop extends s.Between p where
  bare : s.bare = []

/-- After a segment: no dot waits for a step. -/
structure Settled (s : Scan) (p : Path) : Prop extends s.Between p where
  dot : s.flush.dot = none

theorem ready_start : start.Ready [] := ⟨⟨rfl, rfl, rfl⟩, rfl⟩

theorem settled_start : start.Settled [] := ⟨⟨rfl, rfl, rfl⟩, rfl⟩

theorem Settled.feed_dot {s : Scan} {p : Path} (h : s.Settled p) : (s.feed '.').Ready p := by
  rw [Scan.feed_dot h.body h.dot]
  refine ⟨⟨by simp [h.body], by simp [h.issues], ?_⟩, by simp⟩
  rw [flush_of_bare_nil (by simp)]
  exact h.steps

theorem run_takes {s : Scan} {b b' : Body} {text : List Char} (hbody : s.body = some b)
    (htakes : b.takes text = some b') :
    s.run text = { s with body := some b', position := s.position + text.length } := by
  induction text generalizing s b with
  | nil =>
    simp only [Body.takes, Option.some.injEq] at htakes
    simp [← hbody, ← htakes]
  | cons c rest ih =>
    rw [Body.takes] at htakes
    split at htakes
    · cases htakes
    · rename_i hopen
      have hfeed : s.feed c =
          { s with body := some (b.feed c).1, position := s.position + 1 } := by
        simp [feed, hbody, hopen]
      rw [run_cons, hfeed, ih rfl htakes]
      simp [Nat.add_assoc, Nat.add_comm 1]

/-- A body has just been opened. -/
structure Opened (s : Scan) (kind : BodyKind) (p : Path) : Prop where
  body : ∃ start, s.body = some (.opened kind start)
  issues : s.issues = []
  bare : s.bare = []
  steps : s.steps = p

theorem Opened.run_eq {s : Scan} {kind : BodyKind} {p : Path} {text : List Char} {step : Step}
    (h : s.Opened kind p) (hholds : Body.Holds kind text step) :
    s.run (text ++ [kind.closer]) =
      { s with
        body := none, steps := p ++ [step], dot := none,
        position := s.position + text.length + 1 } := by
  obtain ⟨start, hbody⟩ := h.body
  obtain ⟨b, htakes, hclose, hfinish⟩ := hholds start
  rw [run_append, run_takes hbody htakes]
  simp [feed, hclose, closeBody, hfinish, report, push, h.steps, h.issues]

/-- The text of a body and its closer add the step. -/
theorem Opened.run_holds {s : Scan} {kind : BodyKind} {p : Path} {text : List Char} {step : Step}
    (h : s.Opened kind p) (hholds : Body.Holds kind text step) :
    (s.run (text ++ [kind.closer])).Settled (p ++ [step]) := by
  rw [h.run_eq hholds]
  refine ⟨⟨rfl, h.issues, ?_⟩, ?_⟩ <;> simp [flush, h.bare]

theorem Between.feed_bracket {s : Scan} {p : Path} (h : s.Between p) :
    (s.feed '[').Opened .bracket p := by
  rw [Scan.feed_bracket h.body]
  exact ⟨⟨s.position, rfl⟩, (flush_issues s).trans h.issues, flush_bare s, h.steps⟩

/-- Reading the characters of a bare name, blanks among them. They stay together until
something ends them, as an opener after `get` would. -/
theorem run_name {s : Scan} {text name : List Char} (hbody : s.body = none)
    (htext : text.filter (!Text.isBlank ·) = name) (hname : ∀ c ∈ name, IsNameChar c)
    (hcall : ∀ front rest, name = front ++ '(' :: rest → s.bare ++ front ≠ lookupName) :
    ∃ start, s.run text =
      { s with
        bare := s.bare ++ name, bareStart := start, position := s.position + text.length } := by
  induction text generalizing s name with
  | nil =>
    obtain rfl : [] = name := htext
    exact ⟨s.bareStart, by simp⟩
  | cons c rest ih =>
    cases hblank : Text.isBlank c with
    | true =>
      have hfeed := feed_blank hbody hblank
      have hrest : rest.filter (!Text.isBlank ·) = name := by simpa [hblank] using htext
      obtain ⟨start, hrun⟩ := ih (s := s.feed c) (by rw [hfeed]; exact hbody) hrest hname
        (by rw [hfeed]; exact hcall)
      refine ⟨start, ?_⟩
      rw [run_cons, hrun, hfeed]
      simp [Nat.add_assoc, Nat.add_comm 1]
    | false =>
      rw [List.filter_cons_of_pos (by simp [hblank])] at htext
      subst htext
      have hlookup : ¬ (c = '(' ∧ s.bare = lookupName) := by
        rintro ⟨rfl, hbare⟩
        exact hcall [] _ rfl (by simpa using hbare)
      have hfeed := feed_name hbody (hname c (List.mem_cons_self ..)) hlookup
      obtain ⟨start, hrun⟩ := ih (s := s.feed c) (by rw [hfeed]; exact hbody) rfl
        (fun d hd => hname d (List.mem_cons_of_mem _ hd)) (by
          intro front after heq
          rw [hfeed, List.append_assoc]
          exact hcall (c :: front) after (congrArg (c :: ·) heq))
      refine ⟨start, ?_⟩
      rw [run_cons, hrun, hfeed]
      simp [Nat.add_assoc, Nat.add_comm 1]

theorem lookupName_eq : lookupName = ['g', 'e', 't'] := rfl

theorem isNameChar_of_mem_lookupName : ∀ c ∈ lookupName, IsNameChar c := by
  have hblank : Text.isBlank 'g' = false ∧ Text.isBlank 'e' = false ∧ Text.isBlank 't' = false := by
    decide
  simp [lookupName_eq, IsNameChar, hblank]

/-- The name of a look-up is first read as a bare name. -/
theorem Ready.run_get {s : Scan} {p : Path} {text : List Char} (h : s.Ready p)
    (htext : text.filter (!Text.isBlank ·) = lookupName) :
    (s.run (text ++ ['('])).Opened .lookup p := by
  obtain ⟨start, hrun⟩ := run_name h.body htext isNameChar_of_mem_lookupName (by
    intro front rest heq
    have hmem : '(' ∈ lookupName := by simp [heq]
    exact absurd hmem (by decide))
  rw [h.bare, List.nil_append] at hrun
  have hbody : (s.run text).body = none := by
    rw [hrun]
    exact h.body
  have hbare : (s.run text).bare = lookupName := by rw [hrun]
  rw [run_append, run_cons, run_nil, feed_call hbody hbare, hrun]
  refine ⟨⟨start, rfl⟩, h.issues, rfl, ?_⟩
  rw [← h.steps, flush_of_bare_nil h.bare]

theorem Ready.run_bare {s : Scan} {p : Path} {name : String} (h : s.Ready p)
    (hname : Path.isBareName name.toList = true) :
    (s.run name.toList).Settled (p ++ [.field name]) := by
  simp only [Path.isBareName, Bool.and_eq_true, Bool.not_eq_eq_eq_not, Bool.not_true,
    List.any_eq_false, Path.isNameBreak, Bool.or_eq_true, not_or, Bool.not_eq_true] at hname
  obtain ⟨⟨hne, -⟩, hbreak⟩ := hname
  have hchars : ∀ c ∈ name.toList, IsNameChar c ∧ c ≠ '(' := by
    intro c hc
    obtain ⟨hblank, hmarks⟩ := hbreak c hc
    simp at hmarks
    exact ⟨⟨hblank, hmarks.1, hmarks.2.1, hmarks.2.2.1⟩, hmarks.2.2.2.1⟩
  have hfilter : name.toList.filter (!Text.isBlank ·) = name.toList :=
    List.filter_eq_self.2 fun c hc => by simp [(hchars c hc).1.1]
  obtain ⟨start, hrun⟩ := run_name h.body hfilter (fun c hc => (hchars c hc).1) (by
    intro front rest heq
    exact absurd rfl (hchars '(' (by simp [heq])).2)
  rw [hrun, h.bare, List.nil_append]
  have hsteps : s.steps = p := by rw [← h.steps, flush_of_bare_nil h.bare]
  refine ⟨⟨h.body, h.issues, ?_⟩, ?_⟩ <;> simp [flush, push, hne, hsteps]

/-- The steps whose segments need no dot before them. -/
def isBracketed : Step → Bool
  | .field name => !Path.isBareName name.toList
  | .index _ | .symbol _ => true
  | .entry _ _ => false

theorem writeStep_of_bracketed {step : Step} (h : isBracketed step = true) (separator : List Char) :
    Path.writeStep separator step = Path.writeStep [] step := by
  cases step with
  | field name =>
    simp only [isBracketed, Bool.not_eq_eq_eq_not, Bool.not_true] at h
    simp [Path.writeStep, h]
  | index n => rfl
  | symbol description => rfl
  | entry key isSymbol => cases h

theorem writeStep_dot {step : Step} (h : isBracketed step = false) :
    Path.writeStep ['.'] step = '.' :: Path.writeStep [] step := by
  cases step with
  | field name =>
    simp only [isBracketed, Bool.not_eq_eq_eq_not, Bool.not_false] at h
    simp [Path.writeStep, h]
  | index n => cases h
  | symbol description => cases h
  | entry key isSymbol => cases isSymbol <;> simp [Path.writeStep]

theorem Between.run_writeStep {s : Scan} {p : Path} {step : Step} (h : s.Between p)
    (haddr : step.Addressable) (hbracket : isBracketed step = true) :
    (s.run (Path.writeStep [] step)).Settled (p ++ [step]) := by
  cases step with
  | field name =>
    simp only [isBracketed, Bool.not_eq_eq_eq_not, Bool.not_true] at hbracket
    simp only [Path.writeStep, hbracket, Bool.false_eq_true, if_false]
    exact h.feed_bracket.run_holds (Body.holds_quoted_field name)
  | index n => exact h.feed_bracket.run_holds (Body.holds_index haddr)
  | symbol description => exact h.feed_bracket.run_holds (Body.holds_symbol description)
  | entry key isSymbol => cases hbracket

theorem Ready.run_entry {s : Scan} {p : Path} {text : List Char} {step : Step} (h : s.Ready p)
    (hholds : Body.Holds .lookup text step) :
    (s.run ("get(".toList ++ text ++ [')'])).Settled (p ++ [step]) := by
  rw [List.append_assoc, run_append]
  have hfilter : lookupName.filter (!Text.isBlank ·) = lookupName := by decide
  have hget : (s.run "get(".toList).Opened .lookup p := h.run_get hfilter
  exact hget.run_holds hholds

theorem Ready.run_writeStep {s : Scan} {p : Path} {step : Step} (h : s.Ready p)
    (haddr : step.Addressable) : (s.run (Path.writeStep [] step)).Settled (p ++ [step]) := by
  by_cases hbracket : isBracketed step = true
  · exact h.toBetween.run_writeStep haddr hbracket
  · cases step with
    | field name =>
      simp only [isBracketed, Bool.not_eq_eq_eq_not, Bool.not_true, Bool.not_eq_false] at hbracket
      simpa [Path.writeStep, hbracket] using h.run_bare hbracket
    | index n => exact absurd rfl hbracket
    | symbol description => exact absurd rfl hbracket
    | entry key isSymbol =>
      cases isSymbol with
      | false => exact h.run_entry (Body.holds_quoted_entry key)
      | true => exact h.run_entry (Body.holds_symbol_entry key)

theorem Settled.run_writeStep {s : Scan} {p : Path} {step : Step} (h : s.Settled p)
    (haddr : step.Addressable) : (s.run (Path.writeStep ['.'] step)).Settled (p ++ [step]) := by
  cases hbracket : isBracketed step with
  | true =>
    rw [writeStep_of_bracketed hbracket]
    exact h.toBetween.run_writeStep haddr hbracket
  | false =>
    rw [writeStep_dot hbracket, run_cons]
    exact h.feed_dot.run_writeStep haddr

theorem Settled.run_steps {s : Scan} {p steps : Path} (h : s.Settled p)
    (haddr : ∀ step ∈ steps, step.Addressable) :
    (s.run (steps.flatMap (Path.writeStep ['.']))).Settled (p ++ steps) := by
  induction steps generalizing s p with
  | nil => simpa using h
  | cons step rest ih =>
    have hfirst := h.run_writeStep (haddr step (List.mem_cons_self ..))
    rw [List.flatMap_cons, run_append]
    simpa using ih hfirst fun t ht => haddr t (List.mem_cons_of_mem _ ht)

theorem settled_writeChars {p : Path} (haddr : ∀ step ∈ p, step.Addressable) :
    (start.run p.writeChars).Settled p := by
  cases p with
  | nil => exact settled_start
  | cons step rest =>
    have hfirst := ready_start.run_writeStep (haddr step (List.mem_cons_self ..))
    rw [Path.writeChars, run_append]
    exact hfirst.run_steps fun t ht => haddr t (List.mem_cons_of_mem _ ht)

theorem Settled.finish {s : Scan} {p : Path} (h : s.Settled p) :
    s.finish.steps = p ∧ s.finish.issues = [] := by
  simp [Scan.finish, h.body, h.dot, h.steps, h.issues]

end Scan

/-! ## Whole paths -/

namespace Path

theorem readWithIssues_write {p : Path} (haddr : ∀ step ∈ p, step.Addressable) :
    readWithIssues p.write = (p, []) := by
  have ⟨hsteps, hissues⟩ := (Scan.settled_writeChars haddr).finish
  simp [readWithIssues, write, hsteps, hissues]

theorem read_write {p : Path} (haddr : ∀ step ∈ p, step.Addressable) : read p.write = p := by
  rw [read, readWithIssues_write haddr]

/-- Every path is read back strictly from its written form. -/
theorem readStrict_write {p : Path} (haddr : ∀ step ∈ p, step.Addressable) :
    readStrict p.write = .ok p := by
  simp [readStrict, readWithIssues_write haddr]

theorem readStrict_write_mixed :
    let p : Path := [.field "get", .entry "k\")" false, .symbol "a]\\b", .field "", .index 0,
      .field "Symbol(", .entry "" true, .index 18446744073709551615, .field "12", .field " x"]
    (∀ step ∈ p, step.Addressable) ∧ readStrict p.write = .ok p :=
  ⟨by decide, readStrict_write (by decide)⟩

end Path

end ObjectGraph
