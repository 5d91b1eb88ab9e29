-- SUMMARY: A body is closed where its delimiters balance, and read as the step that it denotes.
import Mathlib.Data.List.TakeWhile
import ObjectGraph.Proofs.Path.RoundTrip

/-! # Bodies against the grammar

A body that is being read holds a depth and an open quote; the grammar knows
neither. A text that the reading takes without closing the body unwinds its
depth (`Body.unwinds_of_takes`), so the text up to the closer is balanced. What
is then made of it is compared with the denotation (`Body.finish_eq_iff`).
-/

namespace ObjectGraph

theorem Text.trim_eq_nil_iff {text : List Char} :
    trim text = [] ↔ ∀ c ∈ text, isBlank c = true := by
  simp only [trim, List.reverse_eq_nil_iff, List.dropWhile_eq_nil_iff, List.mem_reverse]
  constructor
  · intro h c hc
    rw [← List.takeWhile_append_dropWhile (p := isBlank) (l := text), List.mem_append] at hc
    rcases hc with hc | hc
    · exact List.mem_takeWhile_imp hc
    · exact h c hc
  · intro h c hc
    exact h c ((List.dropWhile_suffix _).subset hc)

/-! ## Quotes -/

theorem opensQuote_iff {before : List Char} {c : Char} :
    OpensQuote before c ↔ (c = '"' ∨ c = '\'') ∧ Body.quoteMayOpen before = true := by
  simp [OpensQuote, IsQuote, Body.quoteMayOpen, ← Text.trim_eq_nil_iff]

theorem unquote_eq_some_iff {text name : List Char} :
    Path.unquote text = some name ↔
      ∃ q inner, IsQuote q ∧ text = q :: inner ++ [q] ∧ name = Path.unescape inner := by
  constructor
  · intro h
    cases text with
    | nil => cases h
    | cons q rest =>
      rw [Path.unquote] at h
      split at h
      · rename_i hquote
        obtain ⟨inner, rfl⟩ := List.getLast?_eq_some_iff.1 hquote.2
        rw [List.dropLast_concat, Option.some.injEq] at h
        exact ⟨q, inner, hquote.1, rfl, h.symm⟩
      · cases h
  · rintro ⟨q, inner, hquote, rfl, rfl⟩
    simp only [IsQuote] at hquote
    simp [Path.unquote, hquote]

theorem unquoted_iff {text name : List Char} :
    Unquoted text name ↔ (Path.unquote text).getD text = name := by
  constructor
  · rintro (⟨inner, hquote⟩ | hplain)
    · rw [unquote_eq_some_iff.2 ⟨_, inner, hquote, rfl, rfl⟩, Option.getD_some]
    · have hnone : Path.unquote text = none := by
        refine Option.eq_none_iff_forall_ne_some.2 fun name h => ?_
        obtain ⟨q, inner, hquote, rfl, -⟩ := unquote_eq_some_iff.1 h
        exact hplain q inner hquote rfl
      rw [hnone, Option.getD_none]
  · rintro rfl
    cases h : Path.unquote text with
    | none =>
      refine .plain fun q inner hquote heq => ?_
      have hsome := unquote_eq_some_iff.2 ⟨q, inner, hquote, heq, rfl⟩
      rw [h] at hsome
      cases hsome
    | some name =>
      obtain ⟨q, inner, hquote, rfl, rfl⟩ := unquote_eq_some_iff.1 h
      exact .quoted inner hquote

namespace Body

/-! ## What a body denotes -/

theorem literal_eq {text name : List Char} (h : Unquoted text name) :
    literal text = String.ofList name := by
  rw [literal, unquoted_iff.1 h]

theorem exists_unquoted (text : List Char) :
    ∃ name, Unquoted text name ∧ literal text = String.ofList name :=
  ⟨_, unquoted_iff.2 rfl, rfl⟩

theorem description_eq_iff {rest : List Char} {text : String} :
    description rest = (text, true) ↔
      ∃ inner name, rest = inner ++ [')'] ∧ Unquoted inner name ∧ text = String.ofList name := by
  constructor
  · intro h
    unfold description at h
    split at h
    · rename_i hlast
      obtain ⟨inner, rfl⟩ := List.getLast?_eq_some_iff.1 hlast
      obtain ⟨name, hname, hliteral⟩ := exists_unquoted inner
      rw [List.dropLast_concat, Prod.mk.injEq] at h
      exact ⟨inner, name, rfl, hname, h.1.symm.trans hliteral⟩
    · simp at h
  · rintro ⟨inner, name, rfl, hname, rfl⟩
    simp [description, literal_eq hname]

theorem description_concat {text name : List Char} (h : Unquoted text name) :
    description (text ++ [')']) = (String.ofList name, true) :=
  description_eq_iff.2 ⟨text, name, rfl, h, rfl⟩

/-- A body that begins like a symbol and needs no repair is one. -/
theorem exists_symbol {content : List Char} {text : String} {closed : Bool} {issue : PathIssue}
    (hsymbol : symbolOpen.isPrefixOf content = true)
    (hdescription : description (content.drop symbolOpen.length) = (text, closed))
    (hissues : (if closed then [] else [issue]) = []) :
    ∃ inner name, content = symbolOpen ++ inner ++ [')'] ∧ Unquoted inner name ∧
      text = String.ofList name := by
  obtain ⟨rest, rfl⟩ := List.isPrefixOf_iff_prefix.1 hsymbol
  cases closed with
  | false => cases hissues
  | true =>
    rw [List.drop_left] at hdescription
    obtain ⟨inner, name, rfl, hname, rfl⟩ := description_eq_iff.1 hdescription
    exact ⟨inner, name, (List.append_assoc ..).symm, hname, rfl⟩

theorem symbolOpen_isPrefixOf (rest : List Char) :
    symbolOpen.isPrefixOf (symbolOpen ++ rest) = true :=
  List.isPrefixOf_iff_prefix.2 (List.prefix_append _ _)

theorem not_symbolOpen_of_digits {digits : List Char} (h : ∀ c ∈ digits, c.isDigit = true) :
    ¬ symbolOpen <+: digits := by
  intro hpre
  have hletter : 'S'.isDigit = true := h 'S' (hpre.subset (by decide))
  exact absurd hletter (by decide)

theorem unquoted_digits {digits : List Char} (h : ∀ c ∈ digits, c.isDigit = true) :
    Unquoted digits digits := by
  refine .plain fun q inner hquote heq => ?_
  have hdigit : q.isDigit = true := h q (by simp [heq])
  rcases hquote with rfl | rfl <;> exact absurd hdigit (by decide)

theorem denotes_of_bracketStep {start : Nat} {content : List Char} {step : Step}
    (hne : content ≠ []) (h : bracketStep start content = (step, [])) :
    BodyKind.bracket.Denotes content step := by
  unfold bracketStep at h
  split at h
  · rename_i hsymbol
    split at h
    rename_i text closed hdescription
    obtain ⟨rfl, hissues⟩ := Prod.mk.inj h
    obtain ⟨inner, name, rfl, hname, rfl⟩ := exists_symbol hsymbol hdescription hissues
    exact .symbol hname
  · rename_i hsymbol
    rw [List.isPrefixOf_iff_prefix] at hsymbol
    split at h
    · rename_i hdigits
      rw [List.all_eq_true] at hdigits
      obtain ⟨rfl, -⟩ := Prod.mk.inj h
      split
      · rename_i hlt
        exact .index hne hdigits hlt
      · rename_i hge
        exact .field hne hsymbol (fun _ => Nat.le_of_not_lt hge) (unquoted_digits hdigits)
    · rename_i hdigits
      obtain ⟨rfl, -⟩ := Prod.mk.inj h
      obtain ⟨name, hname, hliteral⟩ := exists_unquoted content
      rw [hliteral]
      exact .field hne hsymbol (fun hall => absurd (List.all_eq_true.2 hall) hdigits) hname

theorem bracketStep_of_denotes {start : Nat} {content : List Char} {step : Step}
    (h : BodyKind.bracket.Denotes content step) : bracketStep start content = (step, []) := by
  cases h with
  | symbol hname =>
    simp [bracketStep, description_concat hname, symbolOpen_isPrefixOf]
  | index hne hdigits hlt =>
    have hsymbol := mt List.isPrefixOf_iff_prefix.1 (not_symbolOpen_of_digits hdigits)
    simp [bracketStep, hsymbol, List.all_eq_true.2 hdigits, hlt]
  | field hne hsymbol hlimit hname =>
    have hsymbol' := mt List.isPrefixOf_iff_prefix.1 hsymbol
    by_cases hdigits : content.all Char.isDigit = true
    · have hall := List.all_eq_true.1 hdigits
      have hge := hlimit hall
      rw [← unquoted_iff.1 hname, unquoted_iff.1 (unquoted_digits hall)]
      simp [bracketStep, hsymbol', hdigits, hge]
    · simp [bracketStep, hsymbol', hdigits, literal_eq hname]

theorem denotes_of_lookupStep {start : Nat} {content : List Char} {step : Step}
    (hne : Text.trim content ≠ []) (h : lookupStep start (Text.trim content) = (step, [])) :
    BodyKind.lookup.Denotes content step := by
  unfold lookupStep at h
  split at h
  · rename_i hsymbol
    split at h
    rename_i text closed hdescription
    obtain ⟨rfl, hissues⟩ := Prod.mk.inj h
    obtain ⟨inner, name, heq, hname, rfl⟩ := exists_symbol hsymbol hdescription hissues
    exact .symbolEntry heq hname
  · rename_i hsymbol
    obtain ⟨rfl, -⟩ := Prod.mk.inj h
    obtain ⟨name, hname, hliteral⟩ := exists_unquoted (Text.trim content)
    rw [hliteral]
    exact .entry hne (mt List.isPrefixOf_iff_prefix.2 hsymbol) hname

theorem lookupStep_of_denotes {start : Nat} {content : List Char} {step : Step}
    (h : BodyKind.lookup.Denotes content step) :
    lookupStep start (Text.trim content) = (step, []) := by
  cases h with
  | symbolEntry heq hname =>
    simp [lookupStep, heq, description_concat hname, symbolOpen_isPrefixOf]
  | entry hne hsymbol hname =>
    have hsymbol' := mt List.isPrefixOf_iff_prefix.1 hsymbol
    simp [lookupStep, hsymbol', literal_eq hname]

theorem ne_nil_of_denotes {content : List Char} {step : Step}
    (h : BodyKind.bracket.Denotes content step) : content ≠ [] := by
  cases h with
  | symbol => simp
  | index hne => exact hne
  | field hne => exact hne

theorem trim_ne_nil_of_denotes {content : List Char} {step : Step}
    (h : BodyKind.lookup.Denotes content step) : Text.trim content ≠ [] := by
  cases h with
  | symbolEntry heq => simp [heq]
  | entry hne => exact hne

/-- A closed body that needs no repair gives the step that it denotes. -/
theorem finish_eq_iff {b : Body} {step : Step} :
    b.finish true = (some step, []) ↔ b.kind.Denotes b.content step := by
  obtain ⟨kind, start, content, depth, quote, escaped⟩ := b
  cases kind with
  | bracket =>
    constructor
    · intro h
      simp only [finish] at h
      split at h
      · simp at h
      · rename_i hne
        rw [List.isEmpty_iff] at hne
        simp only [if_true, List.nil_append, Prod.mk.injEq, Option.some.injEq] at h
        have hstep : bracketStep start content = (step, []) := Prod.ext h.1 h.2
        exact denotes_of_bracketStep hne hstep
    · intro h
      simp [finish, ne_nil_of_denotes h, bracketStep_of_denotes h]
  | lookup =>
    constructor
    · intro h
      simp only [finish] at h
      split at h
      · simp at h
      · rename_i hne
        rw [List.isEmpty_iff] at hne
        simp only [if_true, List.nil_append, Prod.mk.injEq, Option.some.injEq] at h
        have hstep : lookupStep start (Text.trim content) = (step, []) := Prod.ext h.1 h.2
        exact denotes_of_lookupStep hne hstep
    · intro h
      simp [finish, trim_ne_nil_of_denotes h, lookupStep_of_denotes h]

/-- Without a step there is an issue. -/
theorem exists_step_of_finish {b : Body} (h : (b.finish true).2 = []) :
    ∃ step, b.finish true = (some step, []) := by
  cases hkind : b.kind with
  | bracket =>
    by_cases hempty : b.content = []
    · simp [finish, hkind, hempty] at h
    · simpa [finish, hkind, hempty] using h
  | lookup =>
    by_cases hempty : Text.trim b.content = []
    · simp [finish, hkind, hempty] at h
    · simpa [finish, hkind, hempty] using h

/-- A body that the end of the text cuts off is an issue. -/
theorem finish_false_issues (b : Body) : (b.finish false).2 ≠ [] := by
  cases hkind : b.kind with
  | bracket => by_cases hempty : b.content = [] <;> simp [finish, hkind, hempty]
  | lookup => by_cases hempty : Text.trim b.content = [] <;> simp [finish, hkind, hempty]

/-! ## Where a body ends -/

/-- Reading at the given depth, outside quotes. -/
def outside (kind : BodyKind) (start : Nat) (content : List Char) (depth : Nat) : Body :=
  ⟨kind, start, content, depth, none, false⟩

/-- Reading a quoted section. -/
def inQuotes (kind : BodyKind) (start : Nat) (content : List Char) (depth : Nat) (q : Char) : Body :=
  ⟨kind, start, content, depth, some q, false⟩

section

variable {kind : BodyKind} {start depth : Nat} {before text : List Char} {c q : Char}

theorem feed_quote (h : OpensQuote before c) :
    (outside kind start before depth).feed c =
      (inQuotes kind start (before ++ [c]) depth c, false) := by
  simp [feed, outside, inQuotes, opensQuote_iff.1 h]

theorem feed_plain (hopener : c ≠ kind.opener) (hcloser : c ≠ kind.closer)
    (hquote : ¬ OpensQuote before c) :
    (outside kind start before depth).feed c =
      (outside kind start (before ++ [c]) depth, false) := by
  rw [opensQuote_iff] at hquote
  simp [feed, outside, hquote, hopener, hcloser]

theorem feed_opener :
    (outside kind start before depth).feed kind.opener =
      (outside kind start (before ++ [kind.opener]) (depth + 1), false) := by
  cases kind <;> simp [feed, outside, BodyKind.opener]

theorem feed_closer_nested :
    (outside kind start before (depth + 2)).feed kind.closer =
      (outside kind start (before ++ [kind.closer]) (depth + 1), false) := by
  cases kind <;> simp [feed, outside, BodyKind.opener, BodyKind.closer]

theorem feed_closer_last :
    (outside kind start before 1).feed kind.closer = (outside kind start before 1, true) := by
  cases kind <;> simp [feed, outside, BodyKind.opener, BodyKind.closer]

/-- Only a closer outside quotes closes a body, and leaves it as it is. -/
theorem of_feed_closes {b b' : Body} (h : b.feed c = (b', true)) :
    c = b.kind.closer ∧ b.quote = none ∧ b.depth ≤ 1 ∧ b' = b := by
  unfold feed at h
  split at h
  · split_ifs at h <;> simp at h
  · rename_i hquote
    split_ifs at h with hopens hopener hcloser hdepth <;> simp at h
    exact ⟨hcloser, hquote, hdepth, h.symm⟩

theorem takes_quotedSection (hopen : OpensQuote before q) (htext : QuotedText q text) :
    (outside kind start before depth).takes (q :: text ++ [q]) =
      some (outside kind start (before ++ (q :: text ++ [q])) depth) := by
  rw [List.cons_append, takes, feed_quote hopen]
  simp only [Bool.false_eq_true, if_false]
  rw [takes_append, takes_quotedText htext rfl rfl, Option.bind_some]
  have hescape : q ≠ '\\' := by
    rcases hopen.1 with rfl | rfl <;> decide
  simp [takes, feed, inQuotes, outside, hescape]

/-- A balanced text is taken at any depth. -/
theorem takes_balanced (h : Balanced kind before text) (start depth : Nat) :
    (outside kind start before (depth + 1)).takes text =
      some (outside kind start (before ++ text) (depth + 1)) := by
  induction h generalizing depth with
  | nil => simp [takes]
  | plain hopener hcloser hquote _ ih =>
    rw [takes, feed_plain hopener hcloser hquote]
    simpa using ih depth
  | quoted hopen htext _ ih =>
    rw [takes_append, takes_quotedSection hopen htext, Option.bind_some, ih depth,
      List.append_assoc]
  | nested _ _ ihinner ihrest =>
    rw [List.append_assoc, List.cons_append, takes, feed_opener]
    simp only [Bool.false_eq_true, if_false]
    rw [takes_append, ihinner (depth + 1), Option.bind_some, List.cons_append, List.nil_append,
      takes, feed_closer_nested]
    simpa using ihrest depth

end

theorem feed_content {b : Body} {c : Char} (h : (b.feed c).2 ≠ true) :
    (b.feed c).1.kind = b.kind ∧ (b.feed c).1.content = b.content ++ [c] := by
  cases hquote : b.quote with
  | some q =>
    simp only [feed, hquote]
    split_ifs <;> exact ⟨rfl, rfl⟩
  | none =>
    simp only [feed, hquote] at h ⊢
    split_ifs at h ⊢ <;> first | exact absurd rfl h | exact ⟨rfl, rfl⟩

/-- What is taken before the body closes is its content. -/
theorem content_of_takes {b b' : Body} {text : List Char} (h : b.takes text = some b') :
    b'.kind = b.kind ∧ b'.content = b.content ++ text := by
  induction text generalizing b with
  | nil =>
    obtain rfl := Option.some.inj h
    simp
  | cons c rest ih =>
    rw [takes] at h
    split at h
    · cases h
    · rename_i hopen
      obtain ⟨hkind, hcontent⟩ := ih h
      have hfeed := feed_content hopen
      rw [hkind, hcontent, hfeed.1, hfeed.2]
      simp

/-- The text balances up to a closer of each open level, and after the last of them. -/
inductive Unwinds (kind : BodyKind) : List Char → Nat → List Char → Prop
  | last {before text : List Char} : Balanced kind before text → Unwinds kind before 0 text
  | level {before inner rest : List Char} {levels : Nat} : Balanced kind before inner →
    Unwinds kind (before ++ inner ++ [kind.closer]) levels rest →
    Unwinds kind before (levels + 1) (inner ++ kind.closer :: rest)

section

variable {kind : BodyKind} {start depth levels : Nat} {before text : List Char} {c q : Char}

/-- What does not disturb the balance may stand in front. -/
theorem Unwinds.prepend (front : List Char) (h : Unwinds kind (before ++ front) levels text)
    (hfront : ∀ rest, Balanced kind (before ++ front) rest → Balanced kind before (front ++ rest)) :
    Unwinds kind before levels (front ++ text) := by
  cases h with
  | last hbalanced => exact .last (hfront _ hbalanced)
  | level hinner hrest =>
    rw [← List.append_assoc]
    refine .level (hfront _ hinner) ?_
    simpa only [List.append_assoc] using hrest

/-- A quoted section that is over was closed by its quote. -/
theorem exists_quotedText_of_takes {b : Body} (hend : b.quote = none) :
    ∀ {text before : List Char}, (inQuotes kind start before depth q).takes text = some b →
      ∃ inner rest, text = inner ++ q :: rest ∧ QuotedText q inner ∧
        (outside kind start (before ++ inner ++ [q]) depth).takes rest = some b
  | [], before, h => by
    obtain rfl := Option.some.inj h
    cases hend
  | c :: rest, before, h => by
    by_cases hback : c = '\\'
    · subst hback
      cases rest with
      | nil =>
        obtain rfl := Option.some.inj h
        cases hend
      | cons d rest =>
        have hrest : (inQuotes kind start (before ++ ['\\', d]) depth q).takes rest = some b := by
          simpa [takes, feed, inQuotes] using h
        obtain ⟨inner, after, rfl, hinner, htakes⟩ := exists_quotedText_of_takes hend hrest
        refine ⟨'\\' :: d :: inner, after, rfl, .escaped hinner, ?_⟩
        simpa using htakes
    · by_cases hquote : c = q
      · subst hquote
        refine ⟨[], rest, rfl, .nil, ?_⟩
        simpa [takes, feed, inQuotes, outside, hback] using h
      · have hrest : (inQuotes kind start (before ++ [c]) depth q).takes rest = some b := by
          simpa [takes, feed, inQuotes, hback, hquote] using h
        obtain ⟨inner, after, rfl, hinner, htakes⟩ := exists_quotedText_of_takes hend hrest
        refine ⟨c :: inner, after, rfl, .plain hquote hback hinner, ?_⟩
        simpa using htakes

/-- Taking a text down to the last open level, outside quotes, unwinds the levels. -/
theorem unwinds_of_takes {b : Body} (hquote : b.quote = none) (hdepth : b.depth ≤ 1)
    {text before : List Char} {levels : Nat}
    (h : (outside kind start before (levels + 1)).takes text = some b) :
    Unwinds kind before levels text := by
  cases text with
  | nil =>
    obtain rfl := Option.some.inj h
    obtain rfl : levels = 0 := by simpa [outside] using hdepth
    exact .last .nil
  | cons c rest =>
    rw [takes] at h
    by_cases hopens : OpensQuote before c
    · rw [feed_quote hopens] at h
      obtain ⟨inner, after, rfl, hinner, htakes⟩ := exists_quotedText_of_takes hquote h
      have hfront : before ++ [c] ++ inner ++ [c] = before ++ (c :: inner ++ [c]) := by simp
      rw [hfront] at htakes
      have hrest := unwinds_of_takes hquote hdepth htakes
      simpa using hrest.prepend _ fun _ hbalanced => .quoted hopens hinner hbalanced
    · by_cases hopener : c = kind.opener
      · subst hopener
        rw [feed_opener] at h
        -- The levels below come back after the closer of the new one.
        cases unwinds_of_takes hquote hdepth h with
        | @level _ inner after _ hinner hrest =>
          have hfront : before ++ [kind.opener] ++ inner ++ [kind.closer] =
            before ++ (kind.opener :: inner ++ [kind.closer]) := by simp
          rw [hfront] at hrest
          simpa using hrest.prepend _ fun _ hbalanced => .nested hinner hbalanced
      · by_cases hcloser : c = kind.closer
        · subst hcloser
          cases levels with
          | zero =>
            rw [feed_closer_last] at h
            cases h
          | succ levels =>
            rw [feed_closer_nested] at h
            refine .level .nil ?_
            rw [List.append_nil]
            exact unwinds_of_takes hquote hdepth h
        · rw [feed_plain hopener hcloser hopens] at h
          have hrest := unwinds_of_takes hquote hdepth h
          exact hrest.prepend [c] fun _ hbalanced =>
            .plain hopener hcloser hopens hbalanced
termination_by text.length

end

/-- The text up to the character that closes a body is balanced, and the character is the closer. -/
theorem balanced_of_closes {kind : BodyKind} {start : Nat} {text : List Char} {b b' : Body}
    {c : Char} (htakes : (opened kind start).takes text = some b)
    (hcloses : b.feed c = (b', true)) :
    Balanced kind [] text ∧ c = kind.closer ∧ b' = b ∧ b.kind = kind ∧ b.content = text := by
  obtain ⟨hchar, hquote, hdepth, hbody⟩ := of_feed_closes hcloses
  obtain ⟨hkind, hcontent⟩ := content_of_takes htakes
  have htakes' : (outside kind start [] 1).takes text = some b := htakes
  have hunwinds : Unwinds kind [] 0 text := unwinds_of_takes hquote hdepth htakes'
  cases hunwinds with
  | last hbalanced => exact ⟨hbalanced, hchar.trans (congrArg _ hkind), hbody, hkind, hcontent⟩

end Body

end ObjectGraph
