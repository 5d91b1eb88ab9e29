-- SUMMARY: Symbols that are made and symbols that graphs share: which answers of a run of calls are equal.
import ObjectGraph.Proofs.Document.Identity
import Mathlib.Data.List.Induction
import Mathlib.Data.List.Pairwise
import Mathlib.Logic.Function.Basic

/-! # Interning

A symbol is made by a call of its own, or asked of a graph by its description, which
makes it on first use. All graphs draw on one supply (`Workspace`), and a run of calls
keeps a record of what each of them has answered (`History`). The record and the tables
tell the same (`Recorded`), so two answers are equal exactly if one call gave both, or
both are the symbol of one description in one graph (`History.beq_iff`). What loading
does with a draft of a graph is a series of such calls (`History.steps`).
-/

namespace ObjectGraph

/-- A call that answers with a symbol: one that makes it, with a description or without, or
one that asks a graph for the symbol of a description. -/
inductive SymbolCall (ι : Type) where
  | fresh (description : Option String)
  | shared (graph : ι) (description : String)

namespace SymbolCall

variable {ι : Type} {c c' : SymbolCall ι}

/-- Both calls ask one graph for the symbol of one description. -/
def SameShared (c c' : SymbolCall ι) : Prop :=
  ∃ i description, c = .shared i description ∧ c' = .shared i description

theorem SameShared.symm (h : c.SameShared c') : c'.SameShared c := by
  obtain ⟨i, description, hc, hc'⟩ := h
  exact ⟨i, description, hc', hc⟩

theorem sameShared_shared_iff {i : ι} {description : String} :
    c.SameShared (.shared i description) ↔ c = .shared i description := by
  constructor
  · rintro ⟨_, _, hc, hshared⟩
    exact hc.trans hshared.symm
  · intro hc
    exact ⟨i, description, hc, rfl⟩

end SymbolCall

/-! ## Numbers -/

namespace Symbol

/-- The number, as a counter of 64 bits gives it. -/
def word (s : Symbol) : UInt64 := UInt64.ofNat s.id

/-- Symbols of one round of the counter are told apart by what it gives. -/
theorem word_eq_iff {s t : Symbol} {first : Nat} (hs : first ≤ s.id) (hs' : s.id < first + UInt64.size)
    (ht : first ≤ t.id) (ht' : t.id < first + UInt64.size) : s.word = t.word ↔ (s == t) = true := by
  rw [beq_iff]
  constructor
  · intro hword
    have hmod : s.id % UInt64.size = t.id % UInt64.size := congrArg UInt64.toNat hword
    unfold UInt64.size at *
    omega
  · exact congrArg UInt64.ofNat

end Symbol

/-! ## Calls -/

/-- Graphs that draw on one supply of identities. -/
structure Workspace (ι : Type) where
  graph : ι → Graph
  supply : Supply

namespace Workspace

variable {ι : Type} {w w' : Workspace ι} {i : ι} {description : String} {s : Symbol}

/-- The call has made the symbol: it has the next number, and a shared one is entered in the
table of its graph, where nothing stood under its description. -/
structure Made (w : Workspace ι) (c : SymbolCall ι) (s : Symbol) (w' : Workspace ι) : Prop where
  id : s.id = w.supply.symbols
  next : w'.supply.symbols = w.supply.symbols + 1
  new : ∀ i description t, c = .shared i description → (description, t) ∉ (w.graph i).shared
  described : ∀ i description, c = .shared i description → s.description = some description
  entries : ∀ i description t, (description, t) ∈ (w'.graph i).shared ↔
    (description, t) ∈ (w.graph i).shared ∨ c = .shared i description ∧ t = s

def draft (w : Workspace ι) (i : ι) : Draft := ⟨w.graph i, w.supply⟩

variable [DecidableEq ι]

/-- Go on with a draft of one of the graphs. -/
def replace (w : Workspace ι) (i : ι) (d : Draft) : Workspace ι :=
  ⟨Function.update w.graph i d.graph, d.supply⟩

@[simp] theorem draft_replace (w : Workspace ι) (i : ι) (d : Draft) : (w.replace i d).draft i = d := by
  simp [draft, replace]

@[simp] theorem replace_draft (w : Workspace ι) (i : ι) : w.replace i (w.draft i) = w := by
  simp [draft, replace]

@[simp] theorem replace_replace (w : Workspace ι) (i : ι) (d d' : Draft) :
    (w.replace i d).replace i d' = w.replace i d' := by
  simp [replace]

theorem mem_shared_replace {j : ι} {d : Draft} {entry : String × Symbol} :
    entry ∈ ((w.replace i d).graph j).shared ↔
      if j = i then entry ∈ d.graph.shared else entry ∈ (w.graph j).shared := by
  by_cases h : j = i
  · subst h
    simp [replace]
  · simp [replace, h]

/-- The symbol that a call answers with, and the workspace after it. -/
def answer (w : Workspace ι) : SymbolCall ι → Symbol × Workspace ι
  | .fresh description =>
    let (s, supply) := w.supply.newSymbol description
    (s, { w with supply })
  | .shared i description =>
    let (s, d) := (w.draft i).sharedSymbol description
    (s, w.replace i d)

theorem made_fresh (w : Workspace ι) (description : Option String) :
    w.Made (.fresh description) (w.answer (.fresh description)).1 (w.answer (.fresh description)).2 where
  id := rfl
  next := rfl
  new := nofun
  described := nofun
  entries i description' t := by
    constructor
    · intro hentry
      exact .inl hentry
    · rintro (hentry | ⟨hcall, -⟩)
      · exact hentry
      · cases hcall

theorem made_shared (h : (w.graph i).shared.lookup description = none) :
    w.Made (.shared i description) (w.answer (.shared i description)).1
      (w.answer (.shared i description)).2 := by
  rw [answer, Draft.sharedSymbol_of_new (d := w.draft i) h]
  refine ⟨rfl, rfl, ?_, ?_, ?_⟩
  · rintro _ _ t ⟨⟩ hentry
    simpa using List.lookup_eq_none_iff.1 h _ hentry
  · rintro _ _ ⟨⟩
    rfl
  · intro j description' t
    rw [mem_shared_replace]
    by_cases hj : j = i
    · subst hj
      simp [draft, eq_comm]
    · simp [hj, Ne.symm hj]

theorem answer_of_lookup (h : (w.graph i).shared.lookup description = some s) :
    w.answer (.shared i description) = (s, w) := by
  rw [answer, Draft.sharedSymbol_of_lookup (d := w.draft i) h]
  simp

/-- A call looks its symbol up, or makes it. -/
theorem answer_cases (w : Workspace ι) (c : SymbolCall ι) :
    (∃ i description s, c = .shared i description ∧ (description, s) ∈ (w.graph i).shared ∧
      w.answer c = (s, w)) ∨
    w.Made c (w.answer c).1 (w.answer c).2 := by
  cases c with
  | fresh description => exact .inr (w.made_fresh description)
  | shared i description =>
    cases hlookup : (w.graph i).shared.lookup description with
    | some s =>
      obtain ⟨before, after, hsplit, -⟩ := List.lookup_eq_some_iff.1 hlookup
      exact .inl ⟨i, description, s, rfl, by simp [hsplit], answer_of_lookup hlookup⟩
    | none => exact .inr (made_shared hlookup)

end Workspace

/-! ## Runs of calls -/

section Runs

variable {ι : Type} {first : Nat} {past : List (SymbolCall ι × Symbol)} {w w' : Workspace ι}

/-- Two answers have one number exactly if both are the symbol of one description in one graph. -/
def ToldApart (x y : SymbolCall ι × Symbol) : Prop := x.2.id = y.2.id ↔ x.1.SameShared y.1

theorem ToldApart.symm {x y : SymbolCall ι × Symbol} (h : ToldApart x y) : ToldApart y x := by
  constructor
  · intro hid
    exact (h.1 hid.symm).symm
  · intro hshared
    exact (h.2 hshared.symm).symm

instance : Std.Symm (@ToldApart ι) := ⟨fun _ _ => ToldApart.symm⟩

/-- What the record of the calls tells of the tables and of the numbers handed out. -/
structure Recorded (first : Nat) (past : List (SymbolCall ι × Symbol)) (w : Workspace ι) : Prop where
  apart : past.Pairwise ToldApart
  below : ∀ x ∈ past, x.2.id < w.supply.symbols
  above : ∀ x ∈ past, first ≤ x.2.id
  started : first ≤ w.supply.symbols
  entries : ∀ i description s, (description, s) ∈ (w.graph i).shared ↔ (.shared i description, s) ∈ past
  described : ∀ i description s, (SymbolCall.shared i description, s) ∈ past → s.description = some description

namespace Recorded

variable {c : SymbolCall ι} {i : ι} {description : String} {s : Symbol}

/-- The number of a shared symbol was given to the calls for that symbol only. -/
theorem toldApart_shared (h : Recorded first past w) {x : SymbolCall ι × Symbol} (hx : x ∈ past)
    (hs : (.shared i description, s) ∈ past) : ToldApart x (.shared i description, s) := by
  by_cases heq : x = (.shared i description, s)
  · subst heq
    exact ⟨fun _ => ⟨i, description, rfl, rfl⟩, fun _ => rfl⟩
  · exact h.apart.forall hx hs heq

theorem found (h : Recorded first past w) (hentry : (description, s) ∈ (w.graph i).shared) :
    Recorded first (past ++ [(.shared i description, s)]) w := by
  have hs : (.shared i description, s) ∈ past := (h.entries i description s).1 hentry
  -- the answer was given before, so the record holds nothing else than it did
  have hsame : ∀ x, x ∈ past ++ [(.shared i description, s)] ↔ x ∈ past := by
    intro x
    rw [List.mem_append, List.mem_singleton]
    constructor
    · rintro (hx | rfl)
      · exact hx
      · exact hs
    · exact .inl
  refine ⟨?_, ?_, ?_, h.started, ?_, ?_⟩
  · refine List.pairwise_append.2 ⟨h.apart, List.pairwise_singleton _ _, ?_⟩
    intro x hx y hy
    rw [List.mem_singleton.1 hy]
    exact h.toldApart_shared hx hs
  · intro x hx
    exact h.below x ((hsame x).1 hx)
  · intro x hx
    exact h.above x ((hsame x).1 hx)
  · intro j other t
    rw [hsame]
    exact h.entries j other t
  · intro j other t ht
    exact h.described j other t ((hsame _).1 ht)

theorem made (h : Recorded first past w) (hmade : w.Made c s w') : Recorded first (past ++ [(c, s)]) w' := by
  refine ⟨?_, ?_, ?_, ?_, ?_, ?_⟩
  · refine List.pairwise_append.2 ⟨h.apart, List.pairwise_singleton _ _, ?_⟩
    intro x hx y hy
    rw [List.mem_singleton.1 hy]
    constructor
    · intro hid
      exact absurd (hid.trans hmade.id) (Nat.ne_of_lt (h.below x hx))
    · rintro ⟨i, description, hcall, hc⟩
      have hentry := (h.entries i description x.2).2 (hcall ▸ hx)
      exact absurd hentry (hmade.new i description x.2 hc)
  · refine List.forall_mem_append.2 ⟨fun x hx => ?_, List.forall_mem_singleton.2 ?_⟩
    · exact hmade.next ▸ Nat.lt_succ_of_lt (h.below x hx)
    · exact hmade.next ▸ hmade.id ▸ Nat.lt_succ_self _
  · refine List.forall_mem_append.2 ⟨h.above, List.forall_mem_singleton.2 ?_⟩
    exact hmade.id ▸ h.started
  · exact hmade.next ▸ Nat.le_succ_of_le h.started
  · intro i description t
    rw [hmade.entries, h.entries, List.mem_append, List.mem_singleton, Prod.mk.injEq, eq_comm (a := c)]
  · intro i description t ht
    rcases List.mem_append.1 ht with ht | ht
    · exact h.described i description t ht
    · obtain ⟨hc, rfl⟩ := Prod.mk.inj (List.mem_singleton.1 ht)
      exact hmade.described i description hc.symm

theorem answer [DecidableEq ι] (h : Recorded first past w) (c : SymbolCall ι) :
    Recorded first (past ++ [(c, (w.answer c).1)]) (w.answer c).2 := by
  rcases w.answer_cases c with ⟨i, description, s, rfl, hentry, hanswer⟩ | hmade
  · rw [hanswer]
    exact h.found hentry
  · exact h.made hmade

end Recorded

variable [DecidableEq ι]

/-- The calls so far with their answers, and the workspace after them. The graphs start
without symbols, and between the calls anything may be done that leaves their tables
and the number of the next symbol. -/
inductive History (first : Nat) : List (SymbolCall ι × Symbol) → Workspace ι → Prop
  | start {w : Workspace ι} : (∀ i, (w.graph i).shared = []) → w.supply.symbols = first → History first [] w
  | call {past : List (SymbolCall ι × Symbol)} {w : Workspace ι} (c : SymbolCall ι) : History first past w →
    History first (past ++ [(c, (w.answer c).1)]) (w.answer c).2
  | other {past : List (SymbolCall ι × Symbol)} {w w' : Workspace ι} : History first past w →
    (∀ i, (w'.graph i).shared = (w.graph i).shared) → w'.supply.symbols = w.supply.symbols →
    History first past w'

namespace History

theorem recorded (h : History first past w) : Recorded first past w := by
  induction h with
  | start hempty hfirst =>
    refine ⟨.nil, by simp, by simp, Nat.le_of_eq hfirst.symm, ?_, by simp⟩
    intro i description s
    simp [hempty i]
  | call c _ ih => exact ih.answer c
  | other _ htables hsymbols ih =>
    refine ⟨ih.apart, ?_, ih.above, ?_, ?_, ih.described⟩
    · rw [hsymbols]
      exact ih.below
    · rw [hsymbols]
      exact ih.started
    · intro i description s
      rw [htables]
      exact ih.entries i description s

/-- Every sequence of calls is answered, whatever the graphs hold besides their tables. -/
theorem exists_of_calls (calls : List (SymbolCall ι)) (hempty : ∀ i, (w.graph i).shared = []) :
    ∃ past w', History w.supply.symbols past w' ∧ past.map (·.1) = calls := by
  induction calls using List.reverseRecOn with
  | nil => exact ⟨[], w, .start hempty rfl, rfl⟩
  | append_singleton calls c ih =>
    obtain ⟨past, w', hpast, hcalls⟩ := ih
    exact ⟨_, _, hpast.call c, by simp [hcalls]⟩

/-- Two answers are equal exactly if one call gave both, or both are the symbol of one
description in one graph. -/
theorem beq_iff (h : History first past w) {m n : Nat} {x y : SymbolCall ι × Symbol}
    (hx : past[m]? = some x) (hy : past[n]? = some y) :
    (x.2 == y.2) = true ↔ m = n ∨ x.1.SameShared y.1 := by
  have hapart := List.pairwise_iff_getElem.1 h.recorded.apart
  obtain ⟨hm, rfl⟩ := List.getElem?_eq_some_iff.1 hx
  obtain ⟨hn, rfl⟩ := List.getElem?_eq_some_iff.1 hy
  rw [Symbol.beq_iff]
  rcases Nat.lt_trichotomy m n with hlt | heq | hgt
  · rw [or_iff_right (Nat.ne_of_lt hlt)]
    exact hapart m n hm hn hlt
  · subst heq
    simp
  · rw [or_iff_right (Nat.ne_of_gt hgt)]
    exact (hapart n m hn hm hgt).symm

/-- As long as the counter of 64 bits does not repeat itself, what it gives tells the answers apart. -/
theorem word_eq_iff (h : History first past w) (hfew : w.supply.symbols ≤ first + UInt64.size)
    {x y : SymbolCall ι × Symbol} (hx : x ∈ past) (hy : y ∈ past) :
    x.2.word = y.2.word ↔ (x.2 == y.2) = true := by
  have hrecorded := h.recorded
  have hbelow : ∀ z ∈ past, z.2.id < first + UInt64.size := fun z hz =>
    Nat.lt_of_lt_of_le (hrecorded.below z hz) hfew
  exact Symbol.word_eq_iff (hrecorded.above x hx) (hbelow x hx) (hrecorded.above y hy) (hbelow y hy)

/-- Shared symbols are equal exactly if they are those of one description in one graph. -/
theorem beq_iff_of_shared (h : History first past w) {i j : ι} {a b : String} {s t : Symbol}
    (hs : (.shared i a, s) ∈ past) (ht : (.shared j b, t) ∈ past) : (s == t) = true ↔ i = j ∧ a = b := by
  have hapart : ToldApart (.shared i a, s) (.shared j b, t) := h.recorded.toldApart_shared hs ht
  rw [Symbol.beq_iff]
  refine hapart.trans (SymbolCall.sameShared_shared_iff.trans ?_)
  rw [SymbolCall.shared.injEq]

/-- Working on a draft of one of the graphs is a series of calls for its symbols. -/
theorem steps (h : History first past w) {i : ι} {d : Draft} (hsteps : (w.draft i).Steps d) :
    ∃ later, History first (past ++ later) (w.replace i d) := by
  induction hsteps with
  | refl =>
    refine ⟨[], ?_⟩
    rwa [List.append_nil, Workspace.replace_draft]
  | @tail d d' _ hstep ih =>
    obtain ⟨later, hlater⟩ := ih
    have hother (htable : d'.graph.shared = d.graph.shared) (hsymbols : d'.supply.symbols = d.supply.symbols) :
        History first (past ++ later) (w.replace i d') := by
      refine hlater.other (fun j => ?_) hsymbols
      by_cases hj : j = i
      · subst hj
        simpa [Workspace.replace] using htable
      · simp [Workspace.replace, hj]
    cases hstep with
    | symbol description =>
      have hcall := hlater.call (.shared i description)
      rw [Workspace.answer, Workspace.draft_replace, List.append_assoc] at hcall
      exact ⟨_, by simpa using hcall⟩
    | callable => exact ⟨later, hother rfl rfl⟩
    | register => exact ⟨later, hother rfl rfl⟩
    | add => exact ⟨later, hother rfl rfl⟩

end History

end Runs

end ObjectGraph
