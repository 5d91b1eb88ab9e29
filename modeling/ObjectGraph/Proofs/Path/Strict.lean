-- SUMMARY: Strict reading accepts exactly the texts of the grammar, and gives the steps they denote.
import ObjectGraph.Proofs.Path.Enclosed

/-! # Strict reading decides the grammar

One direction consumes a row segment by segment (`Scan.Settled.run_row`). The
other keeps, after every character that is read without an issue, the row that
the characters so far make up (`Scan.Traced`), up to a dot, a bare name or a
body that is not over yet.
-/

namespace ObjectGraph

/-! ## Rows of pieces -/

theorem exists_marks {pieces : List Piece} {name : List Char}
    (h : pieces.filter (!·.isBlank) = name.map .mark) :
    ∃ text : List Char, pieces = text.map .mark ∧ text.filter (!Text.isBlank ·) = name := by
  induction pieces generalizing name with
  | nil =>
    obtain rfl : name = [] := by simpa using h.symm
    exact ⟨[], rfl, rfl⟩
  | cons piece rest ih =>
    cases hblank : piece.isBlank with
    | true =>
      cases piece with
      | body kind text => cases hblank
      | mark c =>
        obtain ⟨text, rfl, htext⟩ := @ih name (by simpa [hblank] using h)
        refine ⟨c :: text, rfl, ?_⟩
        have hc : Text.isBlank c = true := hblank
        simpa [hc] using htext
    | false =>
      rw [List.filter_cons_of_pos (by simp [hblank])] at h
      obtain ⟨c, name, rfl, rfl, hrest⟩ := List.map_eq_cons_iff.1 h.symm
      obtain ⟨text, rfl, htext⟩ := ih hrest.symm
      refine ⟨c :: text, rfl, ?_⟩
      have hc : Text.isBlank c = false := hblank
      simpa [hc] using htext

@[simp] theorem flatMap_chars_marks (text : List Char) :
    (text.map Piece.mark).flatMap Piece.chars = text := by
  simp [List.flatMap_map, Piece.chars]

namespace Row

@[simp] theorem pieces_nil : pieces [] = [] := rfl

theorem pieces_concat (row : Row) (dot : Bool) (segment : Segment) :
    pieces (row ++ [(dot, segment)]) = row.pieces ++ (dotPieces dot ++ segment.pieces) := by
  simp [pieces]

end Row

namespace Scan

/-! ## Rows are read -/

variable {s : Scan} {p : Path} {row : Row} {pieces : List Piece}

theorem flush_moved (s : Scan) (start position : Nat) :
    { s with bareStart := start, position := position }.flush =
      { s.flush with bareStart := start, position := position } := by
  unfold flush; split <;> rfl

theorem run_blanks (hbody : s.body = none) (hpieces : pieces.filter (!·.isBlank) = []) :
    ∃ start position,
      s.run (pieces.flatMap Piece.chars) =
        { s with bareStart := start, position := position } := by
  obtain ⟨text, rfl, hblank⟩ := exists_marks (show _ = List.map Piece.mark [] from hpieces)
  obtain ⟨start, hrun⟩ := run_name hbody hblank (by simp) (by simp)
  refine ⟨start, s.position + text.length, ?_⟩
  rw [flatMap_chars_marks, hrun, List.append_nil]

theorem Between.run_blanks (h : s.Between p) (hpieces : pieces.filter (!·.isBlank) = []) :
    (s.run (pieces.flatMap Piece.chars)).Between p ∧
      (s.run (pieces.flatMap Piece.chars)).bare = s.bare := by
  obtain ⟨start, position, hrun⟩ := Scan.run_blanks h.body hpieces
  rw [hrun]
  exact ⟨⟨h.body, h.issues, by rw [flush_moved]; exact h.steps⟩, rfl⟩

theorem Settled.run_blanks (h : s.Settled p) (hpieces : pieces.filter (!·.isBlank) = []) :
    (s.run (pieces.flatMap Piece.chars)).Settled p := by
  obtain ⟨start, position, hrun⟩ := Scan.run_blanks h.body hpieces
  refine ⟨(h.toBetween.run_blanks hpieces).1, ?_⟩
  rw [hrun, flush_moved]
  exact h.dot

end Scan

/-! ## What is read without an issue -/

/-- A name or a look-up may follow: after a bare name at the end, a dot has been read. -/
def Row.TakesName (row : Row) (dot : Bool) : Prop :=
  ∀ last ∈ row.getLast?, last.2.isBare = true → dot = true

/-- The pieces are those of the row, of a dot that waits for a segment, and of a name
that is not over. -/
structure Outline (row : Row) (pieces : List Piece) (dot : Bool) (name : List Char) (p : Path) :
    Prop where
  pieces : pieces.filter (!·.isBlank) = row.pieces ++ (Row.dotPieces dot ++ name.map .mark)
  separated : row.Separated
  denotes : List.Forall₂ (fun segment step => segment.2.Denotes step) row p

namespace Outline

variable {row : Row} {pieces : List Piece} {dot : Bool} {name : List Char} {p : Path} {c : Char}

theorem nil : Outline [] [] false [] [] := ⟨rfl, .nil, .nil⟩

theorem mark_blank (h : Outline row pieces dot name p) (hblank : Text.isBlank c = true) :
    Outline row (pieces ++ [.mark c]) dot name p := by
  refine ⟨?_, h.separated, h.denotes⟩
  simp [List.filter_append, h.pieces, hblank]

theorem mark_name (h : Outline row pieces dot name p) (hblank : Text.isBlank c = false) :
    Outline row (pieces ++ [.mark c]) dot (name ++ [c]) p := by
  refine ⟨?_, h.separated, h.denotes⟩
  simp [List.filter_append, h.pieces, hblank]

theorem mark_dot (h : Outline row pieces false [] p) :
    Outline row (pieces ++ [.mark '.']) true [] p := by
  have hblank : Text.isBlank '.' = false := by decide
  refine ⟨?_, h.separated, h.denotes⟩
  simp [List.filter_append, h.pieces, hblank, Row.dotPieces]

/-- The name, with the pieces that follow it, is over as a segment. -/
theorem concat (h : Outline row pieces dot name p) (rest : List Piece) {segment : Segment}
    {step : Step} (hsegment : segment.Denotes step)
    (htakes : segment.isBracket = false → row.TakesName dot)
    (hrest : name.map .mark ++ rest.filter (!·.isBlank) = segment.pieces) :
    Outline (row ++ [(dot, segment)]) (pieces ++ rest) false [] (p ++ [step]) := by
  refine ⟨?_, ?_, ?_⟩
  · simp [List.filter_append, h.pieces, Row.pieces_concat, ← hrest, Row.dotPieces]
  · refine List.isChain_append.2 ⟨h.separated, .singleton _, ?_⟩
    intro last hlast first hfirst hbare hbracket
    obtain rfl : (dot, segment) = first := by simpa using hfirst
    exact htakes hbracket last hlast hbare
  · exact List.rel_append h.denotes (.cons hsegment .nil)

end Outline

theorem IsName.concat {name : List Char} {c : Char} (hname : name ≠ [] → IsName name)
    (hc : IsNameChar c) (hcall : ¬ (c = '(' ∧ name = Scan.lookupName)) : IsName (name ++ [c]) := by
  refine ⟨by simp, ?_, ?_⟩
  · intro d hd
    rcases List.mem_append.1 hd with hd | hd
    · exact (hname (List.ne_nil_of_mem hd)).chars d hd
    · obtain rfl := List.mem_singleton.1 hd
      exact hc
  · intro hpre
    rcases List.prefix_concat_iff.1 hpre with heq | hpre
    · obtain ⟨hfront, hlast⟩ := List.append_inj' heq rfl
      exact hcall ⟨(List.cons.inj hlast).1.symm, hfront.symm⟩
    · have hne : name ≠ [] := by
        rintro rfl
        cases List.prefix_nil.1 hpre
      exact (hname hne).noCall hpre

namespace Scan

/-- The name that stands before a body of this kind. -/
def calledName : BodyKind → List Char
  | .bracket => []
  | .lookup => lookupName

/-- The text that has been read is a row and what is not over yet: a bare name, or a body. -/
inductive Traced (s : Scan) (text : List Char) : Prop
  | outside {row : Row} {pieces : List Piece} : s.body = none →
    text = pieces.flatMap Piece.chars → Outline row pieces s.dot.isSome s.bare s.steps →
    row.TakesName s.dot.isSome → (s.bare ≠ [] → IsName s.bare) → Traced s text
  | inside (kind : BodyKind) {row : Row} {pieces : List Piece} {start : Nat} {b : Body}
    {inner : List Char} : s.body = some b → s.bare = [] →
    (Body.opened kind start).takes inner = some b →
    text = pieces.flatMap Piece.chars ++ kind.opener :: inner →
    Outline row pieces s.dot.isSome (calledName kind) s.steps →
    (kind = .lookup → row.TakesName s.dot.isSome) → Traced s text

variable {s : Scan} {row : Row} {pieces : List Piece} {text : List Char} {c : Char}

theorem exists_outline_flush (h : Outline row pieces s.dot.isSome s.bare s.steps)
    (htakes : row.TakesName s.dot.isSome) (hname : s.bare ≠ [] → IsName s.bare) :
    ∃ row, Outline row pieces s.flush.dot.isSome [] s.flush.steps := by
  by_cases hbare : s.bare = []
  · rw [flush_of_bare_nil hbare]
    rw [hbare] at h
    exact ⟨row, h⟩
  · have hconcat := h.concat [] (.bare (hname hbare)) (fun _ => htakes) (List.append_nil _)
    rw [List.append_nil] at hconcat
    have hflush : s.flush = { s.push (.field (String.ofList s.bare)) with bare := [] } := by
      simp [flush, hbare]
    rw [hflush]
    exact ⟨_, hconcat⟩

/-- One character outside a body. -/
theorem Traced.feed_outside (hbody : s.body = none)
    (h : Outline row pieces s.dot.isSome s.bare s.steps) (htakes : row.TakesName s.dot.isSome)
    (hname : s.bare ≠ [] → IsName s.bare) (hissues : (s.feed c).issues = []) :
    (s.feed c).Traced (pieces.flatMap Piece.chars ++ [c]) := by
  have hmark : pieces.flatMap Piece.chars ++ [c] =
      (pieces ++ [Piece.mark c]).flatMap Piece.chars := by simp [Piece.chars]
  obtain ⟨row', hflush⟩ := exists_outline_flush h htakes hname
  by_cases hdot : c = '.'
  · subst hdot
    cases hwaits : s.flush.dot with
    | some position => simp [feed, hbody, feedPlain, hwaits, report] at hissues
    | none =>
      rw [hwaits] at hflush
      have houtline : Outline row' (pieces ++ [.mark '.']) true s.flush.bare s.flush.steps := by
        rw [flush_bare]
        exact hflush.mark_dot
      rw [feed_dot hbody hwaits, hmark]
      exact .outside (by simp [hbody]) rfl houtline (fun _ _ _ => rfl) (by simp)
  by_cases hbracket : c = '['
  · subst hbracket
    rw [feed_bracket hbody]
    refine .inside .bracket rfl (flush_bare s) rfl rfl hflush ?_
    intro hkind
    cases hkind
  by_cases hcall : c = '(' ∧ s.bare = lookupName
  · obtain ⟨rfl, hbare⟩ := hcall
    rw [hbare] at h
    rw [feed_call hbody hbare]
    exact .inside .lookup rfl rfl rfl rfl h fun _ => htakes
  by_cases hclose : c = ']'
  · subst hclose
    simp [feed, hbody, feedPlain, report] at hissues
  cases hblank : Text.isBlank c with
  | true =>
    rw [feed_blank hbody hblank, hmark]
    exact .outside hbody rfl (h.mark_blank hblank) htakes hname
  | false =>
    have hchar : IsNameChar c := ⟨hblank, hdot, hbracket, hclose⟩
    rw [feed_name hbody hchar hcall, hmark]
    exact .outside hbody rfl (h.mark_name hblank) htakes fun _ => .concat hname hchar hcall

theorem closeBody_issues (s : Scan) (b : Body) (closed : Bool) :
    (s.closeBody b closed).issues = s.issues ++ (b.finish closed).2 := by
  unfold closeBody
  cases b.finish closed with
  | mk step issues => cases step <;> rfl

theorem exists_segment {kind : BodyKind} {step : Step} (hbalanced : Balanced kind [] text)
    (hdenotes : kind.Denotes text step) :
    ∃ segment : Segment, segment.Denotes step ∧ segment.isBare = false ∧
      segment.pieces = (calledName kind).map .mark ++ [.body kind text] ∧
      (segment.isBracket = false → kind = .lookup) := by
  cases kind with
  | bracket => exact ⟨.bracket text, .bracket hbalanced hdenotes, rfl, rfl, nofun⟩
  | lookup => exact ⟨.lookup text, .lookup hbalanced hdenotes, rfl, rfl, fun _ => rfl⟩

/-- One character in a body. -/
theorem Traced.feed_inside {kind : BodyKind} {start : Nat} {b : Body} {inner : List Char}
    (hbody : s.body = some b) (hbare : s.bare = [])
    (htaken : (Body.opened kind start).takes inner = some b)
    (h : Outline row pieces s.dot.isSome (calledName kind) s.steps)
    (htakes : kind = .lookup → row.TakesName s.dot.isSome) (hissues : (s.feed c).issues = []) :
    (s.feed c).Traced (pieces.flatMap Piece.chars ++ kind.opener :: (inner ++ [c])) := by
  cases hfeedBody : b.feed c with
  | mk b' closed =>
    cases closed with
    | false =>
      have hfeed : s.feed c = { s with body := some b', position := s.position + 1 } := by
        simp [feed, hbody, hfeedBody]
      have htaken' : (Body.opened kind start).takes (inner ++ [c]) = some b' := by
        rw [Body.takes_append, htaken, Option.bind_some]
        simp [Body.takes, hfeedBody]
      rw [hfeed]
      exact .inside kind rfl hbare htaken' rfl h htakes
    | true =>
      obtain ⟨hbalanced, rfl, rfl, rfl, rfl⟩ := Body.balanced_of_closes htaken hfeedBody
      have hfeed : s.feed b'.kind.closer =
          { s.closeBody b' true with position := s.position + 1 } := by
        simp [feed, hbody, hfeedBody]
      have hfinish : (b'.finish true).2 = [] := by
        rw [hfeed] at hissues
        exact (List.append_eq_nil_iff.1 ((closeBody_issues s b' true).symm.trans hissues)).2
      obtain ⟨step, hstep⟩ := Body.exists_step_of_finish hfinish
      obtain ⟨segment, hsegment, hnotBare, hpieces, hkind⟩ :=
        exists_segment hbalanced (Body.finish_eq_iff.1 hstep)
      have hclose : s.closeBody b' true = { s with
          issues := s.issues ++ [], body := none, steps := s.steps ++ [step], dot := none } := by
        simp only [closeBody, hstep, push, report]
      have hchars : pieces.flatMap Piece.chars ++
          b'.kind.opener :: (b'.content ++ [b'.kind.closer]) =
          (pieces ++ [Piece.body b'.kind b'.content]).flatMap Piece.chars := by
        simp [Piece.chars]
      have hconcat := h.concat [.body b'.kind b'.content] hsegment
        (fun hbracket => htakes (hkind hbracket)) hpieces.symm
      rw [← hbare] at hconcat
      have htakes' : Row.TakesName (row ++ [(s.dot.isSome, segment)]) false := by
        intro last hlast hlastBare
        rw [List.getLast?_concat, Option.mem_some_iff] at hlast
        rw [← hlast, hnotBare] at hlastBare
        cases hlastBare
      rw [hfeed, hclose, hchars]
      exact .outside rfl rfl hconcat htakes' fun hne => absurd hbare hne

/-- At the end neither an issue nor a body may be left over. -/
theorem of_finish_issues (h : s.finish.issues = []) : s.issues = [] ∧ s.body = none := by
  cases hbody : s.body with
  | none =>
    refine ⟨?_, rfl⟩
    cases hdot : s.flush.dot with
    | none => simpa [finish, hbody, hdot] using h
    | some position => simp [finish, hbody, hdot, report] at h
  | some b =>
    have hcut := Body.finish_false_issues b
    cases hdot : (s.closeBody b false).flush.dot <;>
      simp [finish, hbody, hdot, report, closeBody_issues, hcut] at h

theorem Traced.spells (h : s.Traced text) (hissues : s.finish.issues = []) :
    Path.Spells text s.finish.steps := by
  have hnone := (of_finish_issues hissues).2
  cases h with
  | inside kind hbody =>
    rw [hnone] at hbody
    cases hbody
  | @outside row pieces hbody htext houtline htakes hname =>
    obtain ⟨row', hflush⟩ := exists_outline_flush houtline htakes hname
    cases hdot : s.flush.dot with
    | some position => simp [finish, hbody, hdot, report] at hissues
    | none =>
      have hsteps : s.finish.steps = s.flush.steps := by simp [finish, hbody, hdot]
      rw [hdot] at hflush
      rw [hsteps]
      refine ⟨pieces, row', htext, ?_, hflush.separated, hflush.denotes⟩
      simpa [Row.dotPieces] using hflush.pieces

end Scan

end ObjectGraph
