-- SUMMARY: Integers compare with floating-point numbers through the double that they are rounded to.
import ObjectGraph.Search.Criterion
import ObjectGraph.Proofs.Number.Rounding

/-! # Equality of numbers

An integer is compared with a floating-point number as the double nearest to it, and so
by its own value exactly if it is a double itself (`Number.beq_float_iff_value`). Up to
`2 ^ 53` all integers are. Beyond, two integers may round to one double, which then
equals both although they differ. That is the only way in which equality of values is
not transitive (`Value.beq_numbers`).
-/

namespace ObjectGraph

namespace Binary64

theorem equals_trans {x y z : Binary64} (hxy : x.equals y = true) (hyz : y.equals z = true) :
    x.equals z = true := by
  cases hx : x.isFinite with
  | true =>
    obtain ⟨hy, hvalue⟩ := (equals_iff hx).1 hxy
    obtain ⟨hz, hvalue'⟩ := (equals_iff hy).1 hyz
    exact (equals_iff hx).2 ⟨hz, hvalue'.trans hvalue⟩
  | false =>
    -- without a finite side, equal numbers are the same word
    rw [equals, hx, Bool.false_and, if_neg Bool.false_ne_true, Bool.and_eq_true, beq_iff_eq] at hxy
    rw [hxy.2]
    exact hyz

end Binary64

open Binary64

namespace Number

variable {a b c : Number}

theorem beq_comm (a b : Number) : (a == b) = (b == a) := by
  cases a with
  | integer m =>
    cases b with
    | integer n => exact BEq.comm (a := m.toInt) (b := n.toInt)
    | float y => exact equals_comm ..
  | float x => cases b <;> exact equals_comm ..

theorem natAbs_toInt_lt (n : Int64) : n.toInt.natAbs < 2 ^ 64 := by
  have hlow := n.le_toInt
  have hhigh := n.toInt_lt
  omega

theorem integer_beq_float_iff (n : Int64) (f : Binary64) :
    (Number.integer n == .float f) = true ↔ f.isFinite = true ∧ f.value = (ofInt n.toInt).value :=
  equals_iff (isFinite_ofInt (natAbs_toInt_lt n))

theorem integer_beq_ofInt (n : Int64) : (Number.integer n == .float (ofInt n.toInt)) = true :=
  (integer_beq_float_iff n _).2 ⟨isFinite_ofInt (natAbs_toInt_lt n), rfl⟩

/-- An integer compares by its value exactly if it is a double. -/
theorem beq_float_iff_value (n : Int64) :
    (∀ f, (Number.integer n == .float f) = true ↔ f.isFinite = true ∧ f.value = n.toInt) ↔
      2 ^ (n.toInt.natAbs.log2 - 52) ∣ n.toInt.natAbs := by
  rw [← value_ofInt_eq_iff (natAbs_toInt_lt n)]
  constructor
  · intro h
    exact ((h _).1 (integer_beq_ofInt n)).2
  · intro hexact f
    rw [integer_beq_float_iff, hexact]

/-- All integers up to `2 ^ 53` compare by their values. -/
theorem beq_float_of_natAbs_le {n : Int64} (h : n.toInt.natAbs ≤ 2 ^ 53) (f : Binary64) :
    (Number.integer n == .float f) = true ↔ f.isFinite = true ∧ f.value = n.toInt := by
  refine (beq_float_iff_value n).2 ?_ f
  generalize n.toInt.natAbs = m at h
  rcases Nat.lt_or_eq_of_le h with hlt | rfl
  · have hlog : m.log2 - 52 = 0 := by
      rcases Nat.eq_zero_or_pos m with rfl | hm
      · rfl
      · have := (Nat.log2_lt hm.ne').2 hlt
        omega
    rw [hlog]
    exact Nat.one_dvd m
  · rw [Nat.log2_two_pow]
    exact Nat.pow_dvd_pow 2 (by decide)

theorem integer_beq_integer_iff (i j : Int64) : (Number.integer i == .integer j) = true ↔ i = j := by
  change (i.toInt == j.toInt) = true ↔ i = j
  rw [beq_iff_eq, Int64.toInt_inj]

/-- Two numbers equal to a third one are equal, or else integers that round to one double. -/
theorem beq_of_beq_of_beq (hab : (a == b) = true) (hbc : (b == c) = true) :
    (a == c) = true ∨ ∃ i f j, a = .integer i ∧ b = .float f ∧ c = .integer j ∧ i ≠ j := by
  cases a with
  | integer i =>
    cases b with
    | integer k =>
      obtain rfl := (integer_beq_integer_iff ..).1 hab
      exact .inl hbc
    | float f =>
      cases c with
      | integer j =>
        by_cases hij : i = j
        · exact .inl ((integer_beq_integer_iff ..).2 hij)
        · exact .inr ⟨i, f, j, rfl, rfl, rfl, hij⟩
      | float g => exact .inl (equals_trans hab hbc)
  | float x =>
    left
    cases b with
    | integer k =>
      cases c with
      | integer j =>
        obtain rfl := (integer_beq_integer_iff ..).1 hbc
        exact hab
      | float g => exact equals_trans hab hbc
    | float f => cases c <;> exact equals_trans hab hbc

end Number

namespace Value

variable {a b c : Value}

theorem beq_comm (a b : Value) : (a == b) = (b == a) := by
  cases a <;> cases b <;> try rfl
  case boolean.boolean => exact BEq.comm (α := Bool)
  case number.number => exact Number.beq_comm ..
  case string.string => exact BEq.comm (α := String)
  case symbol.symbol => exact BEq.comm (α := Nat)
  case callable.callable => exact BEq.comm (α := Nat)
  case node.node => exact BEq.comm (α := NodeId)

theorem beq_of_beq_of_beq (hab : (a == b) = true) (hbc : (b == c) = true) : (a == c) = true ∨
    ∃ i f j, a = .number (.integer i) ∧ b = .number (.float f) ∧ c = .number (.integer j) ∧ i ≠ j := by
  cases a <;> cases b <;> (try cases hab) <;> cases c <;> (try cases hbc)
  case number.number.number =>
    rcases Number.beq_of_beq_of_beq hab hbc with hac | ⟨i, f, j, rfl, rfl, rfl, hij⟩
    · exact .inl hac
    · exact .inr ⟨i, f, j, rfl, rfl, rfl, hij⟩
  all_goals left
  case boolean.boolean.boolean => exact BEq.trans (α := Bool) hab hbc
  case string.string.string => exact BEq.trans (α := String) hab hbc
  case symbol.symbol.symbol => exact BEq.trans (α := Nat) hab hbc
  case callable.callable.callable => exact BEq.trans (α := Nat) hab hbc
  case node.node.node => exact BEq.trans (α := NodeId) hab hbc
  all_goals rfl

/-- Two integers are met by one value exactly if they are rounded to one double. -/
theorem exists_matchesValue_iff (i j : Int64) :
    (∃ v, (Criterion.exact v).matchesValue (.number (.integer i)) = true ∧
      (Criterion.exact v).matchesValue (.number (.integer j)) = true) ↔
      (ofInt i.toInt).value = (ofInt j.toInt).value := by
  constructor
  · rintro ⟨v, hi, hj⟩
    cases v <;> (try cases hi)
    rename_i n
    cases n with
    | integer k =>
      obtain rfl := (Number.integer_beq_integer_iff ..).1 hi
      obtain rfl := (Number.integer_beq_integer_iff ..).1 hj
      rfl
    | float f =>
      have hleft := ((Number.integer_beq_float_iff ..).1 hi).2
      have hright := ((Number.integer_beq_float_iff ..).1 hj).2
      exact hleft.symm.trans hright
  · intro h
    refine ⟨.number (.float (ofInt i.toInt)), Number.integer_beq_ofInt i, ?_⟩
    exact (Number.integer_beq_float_iff ..).2 ⟨isFinite_ofInt (Number.natAbs_toInt_lt i), h⟩

/-- An integer equals the finite floating-point numbers that have the value of the double
nearest to it. This is the value of the integer itself exactly for integers that are
doubles. Equality of values is transitive but for a floating-point number between two
integers that are rounded to it, and these are also the integers that an exact search or
a map key confuses. -/
theorem beq_numbers (i j : Int64) (a b c : Value) :
    ((ofInt i.toInt).IsNearest i.toInt ∧
      (∀ f, (number (.integer i) == number (.float f)) = true ↔
        f.isFinite = true ∧ f.value = (ofInt i.toInt).value) ∧
      ((∀ f, (number (.integer i) == number (.float f)) = true ↔ f.isFinite = true ∧ f.value = i.toInt) ↔
        2 ^ (i.toInt.natAbs.log2 - 52) ∣ i.toInt.natAbs)) ∧
    ((a == b) = true ∧ (b == c) = true ∧ (a == c) = false ↔
      ∃ i f j, (a = number (.integer i) ∧ b = number (.float f) ∧ c = number (.integer j)) ∧ i ≠ j ∧
        f.isFinite = true ∧ f.value = (ofInt i.toInt).value ∧ f.value = (ofInt j.toInt).value) ∧
    ((∃ v, (Criterion.exact v).matchesValue (number (.integer i)) = true ∧
      (Criterion.exact v).matchesValue (number (.integer j)) = true) ↔
      (ofInt i.toInt).value = (ofInt j.toInt).value) := by
  refine ⟨⟨isNearest_ofInt (Number.natAbs_toInt_lt i), Number.integer_beq_float_iff i,
    Number.beq_float_iff_value i⟩, ⟨?_, ?_⟩, exists_matchesValue_iff i j⟩
  · rintro ⟨hab, hbc, hac⟩
    rcases beq_of_beq_of_beq hab hbc with hequal | ⟨i, f, j, rfl, rfl, rfl, hij⟩
    · rw [hac] at hequal
      cases hequal
    · obtain ⟨hfinite, hi⟩ := (Number.integer_beq_float_iff ..).1 hab
      have hj := ((Number.integer_beq_float_iff ..).1 ((Number.beq_comm ..).trans hbc)).2
      exact ⟨i, f, j, ⟨rfl, rfl, rfl⟩, hij, hfinite, hi, hj⟩
  · rintro ⟨i, f, j, ⟨rfl, rfl, rfl⟩, hij, hfinite, hi, hj⟩
    refine ⟨(Number.integer_beq_float_iff ..).2 ⟨hfinite, hi⟩, ?_, ?_⟩
    · exact (Number.beq_comm ..).trans ((Number.integer_beq_float_iff ..).2 ⟨hfinite, hj⟩)
    · exact Bool.eq_false_iff.2 fun h => hij ((Number.integer_beq_integer_iff ..).1 h)

/-- The double `2 ^ 53` equals the integer `2 ^ 53`, which is its value, and the next
integer, which is not. -/
theorem beq_past_doubles :
    let i : Int64 := 9007199254740993
    let j : Int64 := 9007199254740992
    let f : Binary64 := ⟨0x4340000000000000⟩
    ¬ ((number (.integer i) == number (.float f)) = true ↔ f.isFinite = true ∧ f.value = i.toInt) ∧
      (number (.integer i) == number (.float f)) = true ∧ (number (.float f) == number (.integer j)) = true ∧
      (number (.integer i) == number (.integer j)) = false := by
  intro i j f
  have hi : (number (.integer i) == number (.float f)) = true := by decide +kernel
  have hf : f = ofInt j.toInt := by decide +kernel
  have hvalue : f.value = j.toInt := by
    rw [hf]
    exact (value_ofInt_eq_iff (Number.natAbs_toInt_lt j)).2 (by decide +kernel)
  refine ⟨fun h => ?_, hi, by decide +kernel, by decide +kernel⟩
  have hij : (i.toInt : ℚ) = j.toInt := (h.1 hi).2.symm.trans hvalue
  exact absurd (Int.cast_injective hij) (by decide +kernel)

end Value

end ObjectGraph
