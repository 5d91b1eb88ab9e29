-- SUMMARY: Reading a compressed member does not look at what follows it.
import ObjectGraph.Gzip.Member

/-! # Members one after the other

A reader of compressed data takes the bits that it needs and leaves all others, so it reads
the same when more bytes follow. Where it is given fuel, more fuel does not change what it
reads either. Both are one relation between readers (`Gzip.Extends`), which goes through the
readers as they are put together. So a member is read alike whatever follows it
(`Gzip.member?_append`), and of members that stand one after the other the first one is
decompressed (`Gzip.Series.decompress?_eq`).
-/

namespace ObjectGraph

namespace Gzip

/-! ## Readers of bits -/

/-- The bits with more bytes after them. -/
def Bits.followedBy (s : Bits) (tail : List UInt8) : Bits := ⟨s.started, s.bytes ++ tail⟩

theorem Bits.size_le_followedBy (s : Bits) (tail : List UInt8) : s.size ≤ (s.followedBy tail).size := by
  simp only [size, followedBy, List.length_append]
  omega

/-- What the first reader reads, the second one reads also when more bytes follow, and it
leaves those. -/
def Extends {α : Type} (read read' : Bits → Option (α × Bits)) : Prop :=
  ∀ ⦃s : Bits⦄ ⦃x : α⦄ ⦃s' : Bits⦄, read s = some (x, s') →
    ∀ tail, read' (s.followedBy tail) = some (x, s'.followedBy tail)

/-- The same is read whatever follows. -/
abbrev Stable {α : Type} (read : Bits → Option (α × Bits)) : Prop := Extends read read

namespace Extends

variable {α β : Type} {read read' other other' : Bits → Option (α × Bits)}

theorem pure (x : α) : Stable fun s => some (x, s) := by
  intro s y s' h tail
  cases h
  rfl

theorem fail : Extends (fun _ => none) read := by
  intro s x s' h
  cases h

theorem bind (h : Extends read read') {next next' : α × Bits → Option (β × Bits)}
    (hnext : ∀ x, Extends (fun s => next (x, s)) fun s => next' (x, s)) :
    Extends (fun s => read s >>= next) fun s => read' s >>= next' := by
  intro s y s' hboth tail
  obtain ⟨⟨x, s₁⟩, hread, hrest⟩ := Option.bind_eq_some_iff.1 hboth
  exact Option.bind_eq_some_iff.2 ⟨_, h hread tail, hnext x hrest tail⟩

/-- What comes in between may depend on anything but the bits. -/
theorem given (o : Option α) {next next' : α → Bits → Option (β × Bits)}
    (h : ∀ x, Extends (next x) (next' x)) :
    Extends (fun s => o >>= fun x => next x s) fun s => o >>= fun x => next' x s := by
  cases o with
  | none => exact fail
  | some x => exact h x

theorem ite (c : Prop) [Decidable c] (h : Extends read read') (hother : Extends other other') :
    Extends (fun s => if c then read s else other s) fun s => if c then read' s else other' s := by
  by_cases hc : c
  · simpa only [if_pos hc] using h
  · simpa only [if_neg hc] using hother

end Extends

theorem stable_bit? : Stable Bits.bit? := by
  rintro ⟨started, bytes⟩ x s' h tail
  cases started with
  | cons b rest =>
    cases h
    rfl
  | nil =>
    cases bytes with
    | nil => cases h
    | cons byte bytes =>
      cases h
      rfl

theorem stable_number? (count : Nat) : Stable (Bits.number? count) := by
  induction count with
  | zero => exact .pure 0
  | succ count ih => exact stable_bit?.bind fun _ => ih.bind fun _ => .pure _

theorem stable_numbers? (bits count : Nat) : Stable (numbers? bits count) := by
  induction count with
  | zero => exact .pure []
  | succ count ih => exact (stable_number? bits).bind fun _ => ih.bind fun _ => .pure _

theorem stable_extended? (bases : Array (Nat × Nat)) (symbol : Nat) : Stable (extended? bases symbol) :=
  .given _ fun (_, count) => (stable_number? count).bind fun _ => .pure _

theorem stable_symbolFrom? (symbols : Array Nat) (counts : List Nat) (word first index : Nat) :
    Stable (Code.symbolFrom? symbols counts word first index) := by
  induction counts generalizing word first index with
  | nil => exact .fail
  | cons count counts ih =>
    refine stable_bit?.bind fun b => .ite _ (.given _ fun _ => .pure _) ?_
    apply ih

theorem Code.stable_symbol? (c : Code) : Stable c.symbol? := stable_symbolFrom? ..

/-! ## Codes in the data -/

theorem stable_lengthCode? (count : Nat) : Stable (lengthCode? count) :=
  (stable_numbers? 3 count).bind fun _ => .given _ fun _ => .pure _

theorem stable_codeLengths? (code : Code) (total fuel : Nat) (done : Array Nat) :
    Stable (codeLengths? code total fuel done) := by
  induction fuel generalizing done with
  | zero => exact .fail
  | succ fuel ih =>
    refine .ite _ (.pure done) (.ite _ .fail ?_)
    refine code.stable_symbol?.bind fun symbol => .ite _ (ih _) ?_
    refine .ite _ (.given _ fun _ => ?_) (.given _ fun _ => ?_)
    · exact (stable_number? _).bind fun _ => ih _
    · exact (stable_number? _).bind fun _ => ih _

theorem stable_readCodes? : Stable readCodes? := by
  refine (stable_number? 5).bind fun literals => (stable_number? 5).bind fun distances => ?_
  refine (stable_number? 4).bind fun count => .ite _ .fail ?_
  refine (stable_lengthCode? _).bind fun code => (stable_codeLengths? ..).bind fun lengths => ?_
  exact .given _ fun _ => .given _ fun _ => .pure _

/-! ## Blocks -/

theorem extends_inflateSymbols (codes : Codes) {fuel fuel' : Nat} (hfuel : fuel ≤ fuel') (out : Array UInt8) :
    Extends (inflateSymbols codes fuel out) (inflateSymbols codes fuel' out) := by
  induction fuel generalizing fuel' out with
  | zero => exact .fail
  | succ fuel ih =>
    obtain ⟨fuel', rfl⟩ := Nat.exists_eq_add_one_of_ne_zero (Nat.ne_of_gt (Nat.zero_lt_of_lt hfuel))
    have hrest := Nat.le_of_succ_le_succ hfuel
    refine codes.literals.stable_symbol?.bind fun symbol => ?_
    refine .ite _ (ih hrest _) (.ite _ (.pure out) ?_)
    refine (stable_extended? ..).bind fun length => codes.distances.stable_symbol?.bind fun symbol => ?_
    exact (stable_extended? ..).bind fun distance => ih hrest _

/-- The fuel is the number of bits, which grows with the bytes that follow. -/
theorem stable_inflateSymbols (codes : Codes) (out : Array UInt8) :
    Stable fun s => inflateSymbols codes (s.size + 1) out s := by
  intro s x s' h tail
  exact extends_inflateSymbols codes (Nat.succ_le_succ (s.size_le_followedBy tail)) out h tail

theorem stable_stored? (out : Array UInt8) : Stable (stored? out) := by
  have halign : Stable fun s => s.align.number? 16 := fun _ _ _ h tail => stable_number? 16 h tail
  refine halign.bind fun length => (stable_number? 16).bind fun complement => ?_
  intro s x s' h tail
  dsimp only at h ⊢
  split at h
  · cases h
  · rename_i hfits
    cases h
    simp only [Bool.or_eq_true, decide_eq_true_eq, not_or, Nat.not_lt] at hfits
    obtain ⟨hcomplement, hlength⟩ := hfits
    have hfits' : length + complement = 0xffff ∧ length ≤ s.bytes.length + tail.length := by omega
    simpa [Bits.followedBy, List.take_append_of_le_length hlength, List.drop_append_of_le_length hlength]
      using hfits'

theorem block?_followedBy {out out' : Array UInt8} {s s' : Bits} {isLast : Bool}
    (h : block? out s = some (isLast, out', s')) (tail : List UInt8) :
    block? out (s.followedBy tail) = some (isLast, out', s'.followedBy tail) := by
  obtain ⟨⟨last, s₁⟩, hlast, h⟩ := Option.bind_eq_some_iff.1 h
  obtain ⟨⟨kind, s₂⟩, hkind, h⟩ := Option.bind_eq_some_iff.1 h
  refine Option.bind_eq_some_iff.2 ⟨_, stable_bit? hlast tail, ?_⟩
  refine Option.bind_eq_some_iff.2 ⟨_, stable_number? 2 hkind tail, ?_⟩
  dsimp only at h ⊢
  split at h
  · obtain ⟨⟨data, s₃⟩, hdata, h⟩ := Option.bind_eq_some_iff.1 h
    cases h
    exact Option.bind_eq_some_iff.2 ⟨_, stable_stored? out hdata tail, rfl⟩
  · obtain ⟨codes, hcodes, h⟩ := Option.bind_eq_some_iff.1 h
    obtain ⟨⟨data, s₃⟩, hdata, h⟩ := Option.bind_eq_some_iff.1 h
    cases h
    refine Option.bind_eq_some_iff.2 ⟨_, hcodes, ?_⟩
    exact Option.bind_eq_some_iff.2 ⟨_, stable_inflateSymbols codes out hdata tail, rfl⟩
  · obtain ⟨⟨codes, s₃⟩, hcodes, h⟩ := Option.bind_eq_some_iff.1 h
    obtain ⟨⟨data, s₄⟩, hdata, h⟩ := Option.bind_eq_some_iff.1 h
    cases h
    refine Option.bind_eq_some_iff.2 ⟨_, stable_readCodes? hcodes tail, ?_⟩
    exact Option.bind_eq_some_iff.2 ⟨_, stable_inflateSymbols codes out hdata tail, rfl⟩
  · cases h

theorem extends_blocks? {fuel fuel' : Nat} (hfuel : fuel ≤ fuel') (out : Array UInt8) :
    Extends (blocks? fuel out) (blocks? fuel' out) := by
  induction fuel generalizing fuel' out with
  | zero => exact .fail
  | succ fuel ih =>
    obtain ⟨fuel', rfl⟩ := Nat.exists_eq_add_one_of_ne_zero (Nat.ne_of_gt (Nat.zero_lt_of_lt hfuel))
    intro s x s' h tail
    obtain ⟨⟨isLast, out₁, s₁⟩, hblock, h⟩ := Option.bind_eq_some_iff.1 h
    refine Option.bind_eq_some_iff.2 ⟨_, block?_followedBy hblock tail, ?_⟩
    have hrest := ih (Nat.le_of_succ_le_succ hfuel) out₁
    exact Extends.ite (isLast = true) (.pure out₁) hrest h tail

/-! ## Members -/

variable {bytes rest content : List UInt8}

theorem inflate?_append (h : inflate? bytes = some (content, rest)) (tail : List UInt8) :
    inflate? (bytes ++ tail) = some (content, rest ++ tail) := by
  obtain ⟨⟨out, s⟩, hblocks, h⟩ := Option.bind_eq_some_iff.1 h
  cases h
  have hfuel := Nat.succ_le_succ ((Bits.ofBytes bytes).size_le_followedBy tail)
  exact Option.bind_eq_some_iff.2 ⟨_, extends_blocks? hfuel #[] hblocks tail, rfl⟩

theorem split?_append {count : Nat} {taken : List UInt8} (h : split? count bytes = some (taken, rest))
    (tail : List UInt8) : split? count (bytes ++ tail) = some (taken, rest ++ tail) := by
  obtain ⟨hcount, h⟩ := Option.ite_none_right_eq_some.1 h
  cases h
  have hlonger : count ≤ (bytes ++ tail).length := by
    rw [List.length_append]
    omega
  rw [split?, if_pos hlonger, List.take_append_of_le_length hcount, List.drop_append_of_le_length hcount]

theorem skipText?_append (h : skipText? bytes = some rest) (tail : List UInt8) :
    skipText? (bytes ++ tail) = some (rest ++ tail) := by
  obtain ⟨⟨hlength, hmax⟩, h⟩ := Option.ite_none_right_eq_some.1 h
  cases h
  -- the zero that ends the text comes before the tail
  have htext : (bytes ++ tail).takeWhile (· != 0) = bytes.takeWhile (· != 0) := by
    rw [List.takeWhile_append, if_neg (Nat.ne_of_lt hlength)]
  have hlonger : (bytes.takeWhile (· != 0)).length < (bytes ++ tail).length := by
    rw [List.length_append]
    omega
  rw [skipText?, htext, if_pos ⟨hlonger, hmax⟩, List.drop_append_of_le_length hlength]

theorem skipExtra?_append (h : skipExtra? bytes = some rest) (tail : List UInt8) :
    skipExtra? (bytes ++ tail) = some (rest ++ tail) := by
  obtain ⟨⟨size, rest₁⟩, hsize, h⟩ := Option.bind_eq_some_iff.1 h
  obtain ⟨⟨extra, rest₂⟩, hextra, h⟩ := Option.bind_eq_some_iff.1 h
  cases h
  refine Option.bind_eq_some_iff.2 ⟨_, split?_append hsize tail, ?_⟩
  exact Option.bind_eq_some_iff.2 ⟨_, split?_append hextra tail, rfl⟩

/-- A part of a header that may be there or not. -/
theorem ifPresent_append {part next next' : List UInt8 → Option (List UInt8)} {tail : List UInt8}
    (hpart : ∀ bytes rest, part bytes = some rest → part (bytes ++ tail) = some (rest ++ tail))
    (hnext : ∀ bytes rest, next bytes = some rest → next' (bytes ++ tail) = some (rest ++ tail)) (present : Bool)
    (bytes rest : List UInt8) (h : (if present then part bytes >>= next else some bytes >>= next) = some rest) :
    (if present then part (bytes ++ tail) >>= next' else some (bytes ++ tail) >>= next') =
      some (rest ++ tail) := by
  cases present with
  | false => exact hnext bytes rest h
  | true =>
    obtain ⟨after, hafter, h⟩ := Option.bind_eq_some_iff.1 h
    exact Option.bind_eq_some_iff.2 ⟨_, hpart bytes after hafter, hnext after rest h⟩

theorem skipHeader?_append (h : skipHeader? bytes = some rest) (tail : List UInt8) :
    skipHeader? (bytes ++ tail) = some (rest ++ tail) := by
  obtain ⟨⟨fixed, rest₁⟩, hfixed, h⟩ := Option.bind_eq_some_iff.1 h
  obtain ⟨flags, hflags, h⟩ := Option.bind_eq_some_iff.1 h
  refine Option.bind_eq_some_iff.2 ⟨_, split?_append hfixed tail, ?_⟩
  refine Option.bind_eq_some_iff.2 ⟨_, hflags, ?_⟩
  dsimp only at h ⊢
  split at h
  · cases h
  · rename_i hvalid
    rw [if_neg hvalid]
    have htext : ∀ bytes rest, skipText? bytes = some rest → skipText? (bytes ++ tail) = some (rest ++ tail) :=
      fun _ _ htext => skipText?_append htext tail
    have hextra : ∀ bytes rest, skipExtra? bytes = some rest → skipExtra? (bytes ++ tail) = some (rest ++ tail) :=
      fun _ _ hextra => skipExtra?_append hextra tail
    refine ifPresent_append hextra (ifPresent_append htext (ifPresent_append htext ?_ _) _) _ _ _ h
    intro before rest h
    have hlength : (bytes ++ tail).length - (before ++ tail).length = bytes.length - before.length := by
      rw [List.length_append, List.length_append, Nat.add_sub_add_right]
    split at h
    · rename_i hsummed
      obtain ⟨⟨sum, after⟩, hsum, h⟩ := Option.bind_eq_some_iff.1 h
      rw [if_pos hsummed]
      refine Option.bind_eq_some_iff.2 ⟨_, split?_append hsum tail, ?_⟩
      obtain ⟨hequal, h⟩ := Option.ite_none_right_eq_some.1 h
      cases h
      rw [hlength, List.take_append_of_le_length (Nat.sub_le ..)]
      exact if_pos hequal
    · rename_i hplain
      rw [if_neg hplain]
      cases h
      rfl

theorem member?_append (h : member? bytes = some (content, rest)) (tail : List UInt8) :
    member? (bytes ++ tail) = some (content, rest ++ tail) := by
  obtain ⟨data, hheader, h⟩ := Option.bind_eq_some_iff.1 h
  obtain ⟨⟨out, rest₁⟩, hinflate, h⟩ := Option.bind_eq_some_iff.1 h
  obtain ⟨⟨sum, rest₂⟩, hsum, h⟩ := Option.bind_eq_some_iff.1 h
  obtain ⟨⟨size, rest₃⟩, hsize, h⟩ := Option.bind_eq_some_iff.1 h
  refine Option.bind_eq_some_iff.2 ⟨_, skipHeader?_append hheader tail, ?_⟩
  refine Option.bind_eq_some_iff.2 ⟨_, inflate?_append hinflate tail, ?_⟩
  refine Option.bind_eq_some_iff.2 ⟨_, split?_append hsum tail, ?_⟩
  refine Option.bind_eq_some_iff.2 ⟨_, split?_append hsize tail, ?_⟩
  obtain ⟨hchecked, h⟩ := Option.ite_none_right_eq_some.1 h
  cases h
  exact if_pos hchecked

/-! ## Series of members -/

/-- The bytes are members, each directly after the one before, with these contents. -/
inductive Series : List UInt8 → List (List UInt8) → Prop
  | nil : Series [] []
  | cons {member content rest : List UInt8} {contents : List (List UInt8)} :
    member? member = some (content, []) → Series rest contents → Series (member ++ rest) (content :: contents)

/-- Of several members the first one is decompressed, and the others are left. -/
theorem Series.decompress?_eq {contents : List (List UInt8)} (h : Series bytes (content :: contents)) :
    decompress? bytes = some content := by
  cases h with
  | @cons member _ rest _ hmember hrest =>
    have hfirst := member?_append hmember rest
    rw [decompress?, hfirst]
    rfl

end Gzip

end ObjectGraph
