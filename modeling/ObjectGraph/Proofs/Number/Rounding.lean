-- SUMMARY: Rounding to a double gives the nearest one, and of two that are as near the even one.
import ObjectGraph.Number.Binary64
import Mathlib.Algebra.Order.Field.Basic
import Mathlib.Algebra.Order.Field.Rat
import Mathlib.Data.Nat.Dist
import Mathlib.Tactic.Ring

/-! # Rounding

In units of `2 ^ -1074`, the magnitudes of finite doubles are the numbers `m * 2 ^ s`
with `m ≤ 2 ^ 53`. Rounding picks `s` so that such a number has its leading bit where
the quotient has it, and for `m` the nearest natural number. Doubles of a greater scale
lie on the same grid, and those of a smaller scale lie below the whole binade, so none
is nearer (`Binary64.dist_magnitude_le`). With signs and as rational numbers this is
`Binary64.isNearest_ofRatio`. An integer is kept as it is exactly if the grid of its
binade goes through it (`Binary64.value_ofInt_eq_iff`).
-/

namespace ObjectGraph

namespace Binary64

/-! ## Words -/

theorem signWeight_eq : signWeight = 2 ^ 63 := rfl

theorem leadingWeight_eq : leadingWeight = 2 ^ 52 := rfl

/-- The number with this sign and this word for its magnitude. -/
def signed (negative : Bool) (word : Nat) : Binary64 :=
  ⟨UInt64.ofNat (if negative then signWeight + word else word)⟩

theorem toNat_signed (negative : Bool) {word : Nat} (h : word < signWeight) :
    (signed negative word).word.toNat = if negative then signWeight + word else word := by
  refine UInt64.toNat_ofNat_of_lt' (?_ : _ < 2 ^ 64)
  have hsign := signWeight_eq
  split <;> omega

theorem sign_signed (negative : Bool) {word : Nat} (h : word < signWeight) :
    (signed negative word).sign = negative := by
  rw [sign, toNat_signed negative h]
  cases negative
  · simpa using h
  · simp

theorem biasedExponent_signed (negative : Bool) {word : Nat} (h : word < signWeight) :
    (signed negative word).biasedExponent = word / leadingWeight := by
  have hsign := signWeight_eq
  rw [biasedExponent, toNat_signed negative h, leadingWeight_eq]
  split <;> omega

theorem fraction_signed (negative : Bool) {word : Nat} (h : word < signWeight) :
    (signed negative word).fraction = word % leadingWeight := by
  have hsign := signWeight_eq
  rw [fraction, toNat_signed negative h, leadingWeight_eq]
  split <;> omega

theorem significand_lt (x : Binary64) : x.significand < 2 ^ 53 := by
  have hfraction : x.fraction < 2 ^ 52 := Nat.mod_lt _ (Nat.two_pow_pos 52)
  rw [significand, leadingWeight_eq]
  split <;> omega

theorem magnitude_eq (x : Binary64) : x.magnitude = x.significand * 2 ^ x.scale := Nat.shiftLeft_eq ..

/-- Numbers of a smaller scale lie below the binade. -/
theorem magnitude_lt {y : Binary64} {s : Nat} (h : y.scale < s) : y.magnitude < 2 ^ 52 * 2 ^ s := by
  rw [magnitude_eq]
  refine Nat.lt_of_lt_of_le (Nat.mul_lt_mul_of_pos_right y.significand_lt (Nat.two_pow_pos _)) ?_
  rw [← Nat.pow_add, ← Nat.pow_add]
  exact Nat.pow_le_pow_right Nat.two_pos (by omega)

/-- Numbers of the scale itself and of greater ones lie on its grid. -/
theorem exists_magnitude_eq {y : Binary64} {s : Nat} (h : s ≤ y.scale) : ∃ k, y.magnitude = k * 2 ^ s := by
  refine ⟨y.significand * 2 ^ (y.scale - s), ?_⟩
  rw [magnitude_eq, Nat.mul_assoc, ← Nat.pow_add, Nat.sub_add_cancel h]

/-- The word of a significand and a scale, where a significand of 53 bits may have
become one of 54 bits by rounding. -/
theorem magnitude_signed (negative : Bool) {s m : Nat} (hle : m ≤ 2 ^ 53) (hge : s = 0 ∨ 2 ^ 52 ≤ m)
    (h : s * leadingWeight + m < signWeight) :
    (signed negative (s * leadingWeight + m)).magnitude = m * 2 ^ s ∧
      (m % 2 = 0 → (signed negative (s * leadingWeight + m)).significand % 2 = 0) := by
  rw [magnitude_eq, scale, significand, biasedExponent_signed negative h, fraction_signed negative h,
    leadingWeight_eq]
  rcases Nat.lt_or_ge m (2 ^ 52) with hsmall | hlarge
  · -- a subnormal number
    obtain rfl : s = 0 := by omega
    have hexponent : (0 * 2 ^ 52 + m) / 2 ^ 52 = 0 := by omega
    have hfraction : (0 * 2 ^ 52 + m) % 2 ^ 52 = m := by omega
    rw [hexponent, hfraction, if_pos rfl]
    exact ⟨rfl, id⟩
  · rcases Nat.lt_or_eq_of_le hle with hnormal | rfl
    · have hexponent : (s * 2 ^ 52 + m) / 2 ^ 52 = s + 1 := by omega
      have hsignificand : 2 ^ 52 + (s * 2 ^ 52 + m) % 2 ^ 52 = m := by omega
      rw [hexponent, hsignificand, if_neg (Nat.succ_ne_zero s)]
      exact ⟨rfl, id⟩
    · have hexponent : (s * 2 ^ 52 + 2 ^ 53) / 2 ^ 52 = s + 2 := by omega
      have hfraction : (s * 2 ^ 52 + 2 ^ 53) % 2 ^ 52 = 0 := by omega
      rw [hexponent, hfraction, if_neg (Nat.succ_ne_zero _)]
      refine ⟨?_, fun _ => by decide⟩
      rw [Nat.add_sub_assoc (by decide), Nat.add_comm s, Nat.pow_add, ← Nat.mul_assoc]
      rfl

/-! ## The nearest quotient -/

theorem roundDiv_cases (num : Nat) {den : Nat} (hden : 0 < den) :
    ∃ q r, num = q * den + r ∧ r < den ∧
      (roundDiv num den = q ∧ (2 * r < den ∨ 2 * r = den ∧ q % 2 = 0) ∨
        roundDiv num den = q + 1 ∧ (den < 2 * r ∨ 2 * r = den ∧ (q + 1) % 2 = 0)) := by
  refine ⟨num / den, num % den, ?_, Nat.mod_lt _ hden, ?_⟩
  · rw [Nat.mul_comm, Nat.div_add_mod]
  · simp only [roundDiv]
    split
    · omega
    · split
      · omega
      · split <;> omega

/-- No multiple of the divisor is nearer, and if another one is as near, the quotient is even. -/
theorem dist_roundDiv_le (num : Nat) {den : Nat} (hden : 0 < den) (k : Nat) :
    Nat.dist (roundDiv num den * den) num ≤ Nat.dist (k * den) num ∧
      (k ≠ roundDiv num den → Nat.dist (k * den) num = Nat.dist (roundDiv num den * den) num →
        roundDiv num den % 2 = 0) := by
  obtain ⟨q, r, rfl, hr, hround⟩ := roundDiv_cases num hden
  have hsucc : (q + 1) * den = q * den + den := Nat.succ_mul ..
  -- the quotient lies between two neighbours, and all other multiples are further off
  have hother : k * den + den ≤ q * den ∨ k = q ∨ k = q + 1 ∨ q * den + den + den ≤ k * den := by
    have hsplit : k + 1 ≤ q ∨ k = q ∨ k = q + 1 ∨ q + 1 + 1 ≤ k := by omega
    refine hsplit.imp (fun h => ?_) (Or.imp_right (Or.imp_right fun h => ?_))
    · exact Nat.le_trans (Nat.le_of_eq (Nat.succ_mul ..).symm) (Nat.mul_le_mul_right den h)
    · rw [← hsucc, ← Nat.succ_mul]
      exact Nat.mul_le_mul_right den h
  unfold Nat.dist
  rcases hround with ⟨hq, _⟩ | ⟨hq, _⟩ <;> rw [hq] <;> rcases hother with h | rfl | rfl | h <;> omega

theorem roundDiv_mul_eq_iff (num : Nat) {den : Nat} (hden : 0 < den) :
    roundDiv num den * den = num ↔ den ∣ num := by
  constructor
  · exact fun h => ⟨roundDiv num den, by rw [Nat.mul_comm, h]⟩
  · rintro ⟨k, rfl⟩
    have hnearest := (dist_roundDiv_le (den * k) hden k).1
    rw [Nat.mul_comm k, Nat.dist_self] at hnearest
    exact Nat.eq_of_dist_eq_zero (Nat.le_zero.1 hnearest)

theorem roundDiv_le {num den k : Nat} (hden : 0 < den) (h : num ≤ k * den) : roundDiv num den ≤ k := by
  obtain ⟨q, r, rfl, hr, hround⟩ := roundDiv_cases num hden
  rcases hround with ⟨hq, -⟩ | ⟨hq, hhalf⟩
  · rw [hq]
    exact Nat.le_of_mul_le_mul_right (Nat.le_of_add_right_le h) hden
  · rw [hq]
    exact Nat.lt_of_mul_lt_mul_right (a := den) (by omega)

theorem le_roundDiv {num den k : Nat} (hden : 0 < den) (h : k * den ≤ num) : k ≤ roundDiv num den := by
  obtain ⟨q, r, rfl, hr, hround⟩ := roundDiv_cases num hden
  have hk : k < q + 1 := by
    refine Nat.lt_of_mul_lt_mul_right (a := den) ?_
    rw [Nat.succ_mul]
    omega
  omega

/-! ## Units -/

/-- The scale of the binade that a quotient lies in. -/
def scaleOf (num den : Nat) : Nat := Nat.log2 (num / den) - 52

/-- The significand that the quotient is rounded to, perhaps one of 54 bits. -/
def rounded (num den : Nat) : Nat := roundDiv num (den <<< scaleOf num den)

section
variable {num den : Nat}

theorem roundUnits_eq (num den : Nat) : roundUnits num den =
    min (scaleOf num den * leadingWeight + rounded num den) (2047 * leadingWeight) := rfl

/-- The quotient is not above its binade. -/
theorem lt_of_scaleOf (hden : 0 < den) : num < 2 ^ 53 * (den * 2 ^ scaleOf num den) := by
  have hlog : num / den < 2 ^ (scaleOf num den + 53) := by
    refine Nat.lt_of_lt_of_le Nat.lt_log2_self (Nat.pow_le_pow_right Nat.two_pos ?_)
    unfold scaleOf
    omega
  rw [Nat.div_lt_iff_lt_mul hden] at hlog
  refine Nat.lt_of_lt_of_eq hlog ?_
  rw [Nat.pow_add]
  ring

/-- The quotient is not below its binade, unless that is the lowest one. -/
theorem le_of_scaleOf (hscale : scaleOf num den ≠ 0) : 2 ^ 52 * (den * 2 ^ scaleOf num den) ≤ num := by
  have hne : num / den ≠ 0 := fun h => hscale (by rw [scaleOf, h]; rfl)
  have hlog : 2 ^ (scaleOf num den + 52) ≤ num / den := by
    refine (Nat.le_log2 hne).1 ?_
    unfold scaleOf at *
    omega
  refine Nat.le_trans (Nat.le_of_eq ?_) (Nat.mul_le_of_le_div _ _ _ hlog)
  rw [Nat.pow_add]
  ring

theorem scaled_den_pos (hden : 0 < den) (s : Nat) : 0 < den <<< s := by
  rw [Nat.shiftLeft_eq]
  exact Nat.mul_pos hden (Nat.two_pow_pos s)

theorem rounded_le (hden : 0 < den) : rounded num den ≤ 2 ^ 53 := by
  refine roundDiv_le (scaled_den_pos hden _) (Nat.le_of_lt ?_)
  rw [Nat.shiftLeft_eq]
  exact lt_of_scaleOf hden

theorem le_rounded (hden : 0 < den) : scaleOf num den = 0 ∨ 2 ^ 52 ≤ rounded num den := by
  by_cases hscale : scaleOf num den = 0
  · exact .inl hscale
  · refine .inr (le_roundDiv (scaled_den_pos hden _) ?_)
    rw [Nat.shiftLeft_eq]
    exact le_of_scaleOf hscale

/-- The magnitude that the quotient is rounded to, unless that is infinite. -/
theorem magnitude_roundUnits (hden : 0 < den) {negative : Bool}
    (hfinite : (signed negative (roundUnits num den)).isFinite = true) :
    let x := signed negative (roundUnits num den)
    x.sign = negative ∧ x.magnitude = rounded num den * 2 ^ scaleOf num den ∧
      (rounded num den % 2 = 0 → x.significand % 2 = 0) := by
  have hlt : roundUnits num den < signWeight := by
    refine Nat.lt_of_le_of_lt (Nat.min_le_right _ _) ?_
    decide
  have hbelow : roundUnits num den < 2047 * leadingWeight := by
    refine Nat.lt_of_le_of_ne (Nat.min_le_right _ _) fun heq => ?_
    rw [isFinite, biasedExponent_signed negative hlt, heq] at hfinite
    exact absurd hfinite (by decide)
  have hword : roundUnits num den = scaleOf num den * leadingWeight + rounded num den := by
    rw [roundUnits_eq] at hbelow ⊢
    omega
  intro x
  refine ⟨sign_signed negative hlt, ?_⟩
  rw [hword] at hlt
  have hmagnitude := magnitude_signed negative (rounded_le hden) (le_rounded hden) hlt
  rw [← hword] at hmagnitude
  exact hmagnitude

/-- No double is nearer to the quotient, and if one with another magnitude is as near,
the significand is even. -/
theorem dist_magnitude_le (hden : 0 < den) (y : Binary64) :
    Nat.dist (rounded num den * 2 ^ scaleOf num den * den) num ≤ Nat.dist (y.magnitude * den) num ∧
      (y.magnitude ≠ rounded num den * 2 ^ scaleOf num den →
        Nat.dist (y.magnitude * den) num = Nat.dist (rounded num den * 2 ^ scaleOf num den * den) num →
        rounded num den % 2 = 0) := by
  have hnearest := dist_roundDiv_le num (scaled_den_pos hden (scaleOf num den))
  change ∀ k, Nat.dist (rounded num den * _) num ≤ _ ∧ (k ≠ rounded num den → _ → rounded num den % 2 = 0)
    at hnearest
  have hgrid (k : Nat) : k * (den <<< scaleOf num den) = k * 2 ^ scaleOf num den * den := by
    rw [Nat.shiftLeft_eq]
    ring
  simp only [hgrid] at hnearest
  rcases Nat.lt_or_ge y.scale (scaleOf num den) with hfine | hcoarse
  · have hbinade : 2 ^ 52 * (den * 2 ^ scaleOf num den) ≤ num := le_of_scaleOf (Nat.ne_zero_of_lt hfine)
    have hbelow := Nat.mul_lt_mul_of_pos_right (magnitude_lt hfine) hden
    have hcloser : Nat.dist (2 ^ 52 * 2 ^ scaleOf num den * den) num < Nat.dist (y.magnitude * den) num := by
      have hsame : 2 ^ 52 * (den * 2 ^ scaleOf num den) = 2 ^ 52 * 2 ^ scaleOf num den * den := by ring
      rw [hsame] at hbinade
      unfold Nat.dist
      omega
    have hfirst := (hnearest (2 ^ 52)).1
    exact ⟨by omega, fun _ heq => by omega⟩
  · obtain ⟨k, hk⟩ := exists_magnitude_eq hcoarse
    obtain ⟨hle, htie⟩ := hnearest k
    rw [← hk] at hle htie
    refine ⟨hle, fun hne => htie fun hsame => hne ?_⟩
    rw [hk, hsame]

end

/-! ## The nearest double -/

/-- A unit is one divided by this power of two. -/
def unitExponent : Nat := 1074

def unitsPerOne : Nat := 2 ^ unitExponent

theorem unitsPerOne_pos : 0 < unitsPerOne := Nat.two_pow_pos unitExponent

theorem shiftLeft_units (num : Nat) : num <<< 1074 = num * unitsPerOne := Nat.shiftLeft_eq num unitExponent

/-- The exact value of a finite number. -/
def value (x : Binary64) : ℚ := x.scaled / unitsPerOne

/-- The finite number nearest to a rational one. If another number is as near, its
own last significand bit is zero. -/
structure IsNearest (x : Binary64) (q : ℚ) : Prop where
  finite : x.isFinite = true
  nearest : ∀ y : Binary64, y.isFinite = true → |x.value - q| ≤ |y.value - q|
  even : ∀ y : Binary64, y.isFinite = true → y.value ≠ x.value → |y.value - q| = |x.value - q| →
    x.significand % 2 = 0

theorem value_eq_iff {x y : Binary64} : x.value = y.value ↔ x.scaled = y.scaled := by
  have hunits : (unitsPerOne : ℚ) ≠ 0 := Nat.cast_ne_zero.2 unitsPerOne_pos.ne'
  rw [value, value, div_left_inj' hunits, Int.cast_inj]

theorem equals_iff {x y : Binary64} (hx : x.isFinite = true) :
    x.equals y = true ↔ y.isFinite = true ∧ y.value = x.value := by
  rw [value_eq_iff, equals, hx, Bool.true_and]
  cases hy : y.isFinite with
  | true =>
    rw [if_pos rfl, beq_iff_eq]
    exact ⟨fun h => ⟨rfl, h.symm⟩, fun h => h.2.symm⟩
  | false =>
    have hne : x ≠ y := fun h => by
      rw [h, hy] at hx
      cases hx
    simp [hne]

theorem value_eq_of_magnitude_eq_zero {x y : Binary64} (hx : x.magnitude = 0) (hy : y.magnitude = 0) :
    x.value = y.value := by
  have hzero (z : Binary64) (hz : z.magnitude = 0) : z.scaled = 0 := by
    rw [scaled, hz]
    split <;> rfl
  exact value_eq_iff.2 ((hzero x hx).trans (hzero y hy).symm)

/-- The quotient with a sign. -/
def quotient (negative : Bool) (num den : Nat) : ℚ := (if negative then -(num : ℚ) else num) / den

/-- How far a number is from the quotient, in units of the divisor. -/
def offset (negative : Bool) (num den : Nat) (y : Binary64) : Nat :=
  if y.sign = negative then Nat.dist (y.magnitude * den) num else y.magnitude * den + num

theorem natAbs_scaled_sub (negative : Bool) (num den : Nat) (y : Binary64) :
    (y.scaled * den - if negative then -(num : Int) else num).natAbs = offset negative num den y := by
  have hproduct : ((y.magnitude * den : Nat) : Int) = (y.magnitude : Int) * den := Int.natCast_mul ..
  unfold offset scaled Nat.dist
  cases y.sign <;> cases negative <;>
    simp only [Bool.false_eq_true, reduceCtorEq, if_true, if_false, Int.neg_mul, ← hproduct] <;> omega

theorem abs_value_sub {num den : Nat} (hden : 0 < den) (negative : Bool) (y : Binary64) :
    |y.value - quotient negative num den| =
      (offset negative (num <<< 1074) den y : ℚ) / (unitsPerOne * den) := by
  have hunits : (0 : ℚ) < unitsPerOne := Nat.cast_pos.2 unitsPerOne_pos
  have hden : (0 : ℚ) < den := Nat.cast_pos.2 hden
  have hcommon : y.value - quotient negative num den =
      (y.scaled * den - (if negative then -(num : ℚ) else num) * unitsPerOne) / (unitsPerOne * den) := by
    rw [value, quotient, div_sub_div _ _ hunits.ne' hden.ne', mul_comm (unitsPerOne : ℚ) (ite ..)]
  have hcast : (y.scaled : ℚ) * den - (if negative then -(num : ℚ) else num) * unitsPerOne =
      ((y.scaled * den - if negative then -((num <<< 1074 : Nat) : Int) else (num <<< 1074 : Nat) : Int) : ℚ) := by
    rw [shiftLeft_units]
    cases negative <;> simp only [Bool.false_eq_true, if_false, if_true] <;> push_cast <;> ring
  rw [hcommon, abs_div, abs_of_pos (mul_pos hunits hden), hcast, ← natAbs_scaled_sub, Nat.cast_natAbs,
    Int.cast_abs]

theorem abs_value_sub_le_iff {num den : Nat} (hden : 0 < den) (negative : Bool) (x y : Binary64) :
    |x.value - quotient negative num den| ≤ |y.value - quotient negative num den| ↔
      offset negative (num <<< 1074) den x ≤ offset negative (num <<< 1074) den y := by
  have hpos : (0 : ℚ) < unitsPerOne * den :=
    mul_pos (Nat.cast_pos.2 unitsPerOne_pos) (Nat.cast_pos.2 hden)
  rw [abs_value_sub hden, abs_value_sub hden, div_le_div_iff_of_pos_right hpos, Nat.cast_le]

/-- What is not rounded to infinity is rounded to the nearest double. -/
theorem isNearest_ofRatio {num den : Nat} (hden : 0 < den) {negative : Bool}
    (hfinite : (ofRatio negative num den).isFinite = true) :
    (ofRatio negative num den).IsNearest (quotient negative num den) := by
  obtain ⟨hsign, hmagnitude, heven⟩ := magnitude_roundUnits hden hfinite
  change (ofRatio negative num den).sign = negative at hsign
  change (ofRatio negative num den).magnitude = _ at hmagnitude
  change _ → (ofRatio negative num den).significand % 2 = 0 at heven
  generalize ofRatio negative num den = x at *
  have hoffset : offset negative (num <<< 1074) den x = Nat.dist (x.magnitude * den) (num <<< 1074) := by
    rw [offset, if_pos hsign]
  have hmagnitudes := @dist_magnitude_le (num <<< 1074) den hden
  rw [← hmagnitude] at hmagnitudes
  have hdist (y : Binary64) : Nat.dist (y.magnitude * den) (num <<< 1074) ≤
      offset negative (num <<< 1074) den y := by
    unfold offset Nat.dist
    split <;> omega
  refine ⟨hfinite, fun y _ => ?_, fun y _ hne heq => ?_⟩
  · rw [abs_value_sub_le_iff hden, hoffset]
    exact Nat.le_trans (hmagnitudes y).1 (hdist y)
  · have hge := (abs_value_sub_le_iff hden negative y x).1 heq.le
    rw [hoffset] at hge
    have hdistY := hdist y
    obtain ⟨hnearest, htie⟩ := hmagnitudes y
    by_cases hsame : y.magnitude = x.magnitude
    · -- the signs differ, so both numbers are as near as zero is, and are zeros themselves
      have hother : y.sign ≠ negative := fun hy =>
        hne (value_eq_iff.2 (by rw [scaled, scaled, hy, hsign, hsame]))
      rw [offset, if_neg hother, hsame] at hge
      have hzero := (hmagnitudes ⟨0⟩).1
      rw [show (⟨0⟩ : Binary64).magnitude = 0 from by decide, Nat.zero_mul] at hzero
      have hproduct : x.magnitude * den = 0 := by
        unfold Nat.dist at hge hzero
        omega
      have hx : x.magnitude = 0 := (Nat.mul_eq_zero.1 hproduct).resolve_right hden.ne'
      exact absurd (value_eq_of_magnitude_eq_zero (hsame.trans hx) hx) hne
    · exact heven (htie hsame (by omega))

/-- Small quotients are not rounded to infinity. -/
theorem isFinite_ofRatio {num den : Nat} (hden : 0 < den) (negative : Bool) (h : num < 2 ^ 64 * den) :
    (ofRatio negative num den).isFinite = true := by
  have hscale : scaleOf (num <<< 1074) den ≤ 1086 := by
    have hquotient : (num <<< 1074) / den < 2 ^ (64 + unitExponent) := by
      rw [Nat.div_lt_iff_lt_mul hden, shiftLeft_units, Nat.pow_add, Nat.mul_right_comm]
      exact Nat.mul_lt_mul_of_pos_right h unitsPerOne_pos
    have hexponent : unitExponent = 1074 := rfl
    by_cases hzero : (num <<< 1074) / den = 0
    · rw [scaleOf, hzero]
      decide
    · have hlog := (Nat.log2_lt hzero).2 hquotient
      unfold scaleOf
      omega
  have hrounded : rounded (num <<< 1074) den ≤ 2 ^ 53 := rounded_le hden
  have hleading := leadingWeight_eq
  have hsign := signWeight_eq
  have hword : roundUnits (num <<< 1074) den ≤ 1088 * leadingWeight := by
    rw [roundUnits_eq]
    refine Nat.le_trans (Nat.min_le_left ..) ?_
    have := Nat.mul_le_mul_right leadingWeight hscale
    omega
  have hexponent : (ofRatio negative num den).biasedExponent = roundUnits (num <<< 1074) den / leadingWeight :=
    biasedExponent_signed negative (by omega)
  have hsmall := Nat.div_le_of_le_mul (Nat.mul_comm .. ▸ hword)
  rw [isFinite, hexponent, bne_iff_ne]
  omega

/-! ## Integers -/

theorem log2_mul_two_pow {n : Nat} (hn : n ≠ 0) (k : Nat) : Nat.log2 (n * 2 ^ k) = Nat.log2 n + k := by
  have hproduct : n * 2 ^ k ≠ 0 := Nat.mul_ne_zero hn (Nat.two_pow_pos k).ne'
  apply Nat.le_antisymm
  · refine Nat.lt_succ_iff.1 ((Nat.log2_lt hproduct).2 ?_)
    rw [Nat.succ_eq_add_one, Nat.add_right_comm, Nat.pow_add]
    exact Nat.mul_lt_mul_of_pos_right Nat.lt_log2_self (Nat.two_pow_pos k)
  · rw [Nat.le_log2 hproduct, Nat.pow_add]
    exact Nat.mul_le_mul_right _ (Nat.log2_self_le hn)

section
variable {i : Int}

theorem isFinite_ofInt (h : i.natAbs < 2 ^ 64) : (ofInt i).isFinite = true :=
  isFinite_ofRatio Nat.one_pos _ (by rwa [Nat.mul_one])

/-- An integer is rounded to the nearest double. -/
theorem isNearest_ofInt (h : i.natAbs < 2 ^ 64) : (ofInt i).IsNearest i := by
  have hnearest := isNearest_ofRatio Nat.one_pos (isFinite_ofInt h)
  have hi : quotient (decide (i < 0)) i.natAbs 1 = i := by
    rw [quotient, Nat.cast_one, div_one, Nat.cast_natAbs]
    rcases lt_or_ge i 0 with hneg | hpos
    · rw [decide_eq_true hneg, if_pos rfl, abs_of_neg hneg, Int.cast_neg, neg_neg]
    · rw [decide_eq_false (not_lt.2 hpos), if_neg Bool.false_ne_true, abs_of_nonneg hpos]
  rwa [hi] at hnearest

theorem two_pow_scaleOf_dvd_iff (n : Nat) :
    2 ^ scaleOf (n <<< 1074) 1 ∣ n <<< 1074 ↔ 2 ^ (n.log2 - 52) ∣ n := by
  rcases Nat.eq_zero_or_pos n with rfl | hn
  · simp
  have hscale : scaleOf (n <<< 1074) 1 = n.log2 + unitExponent - 52 := by
    rw [scaleOf, Nat.div_one, shiftLeft_units, unitsPerOne, log2_mul_two_pow hn.ne']
  have hexponent : unitExponent = 1074 := rfl
  rw [hscale, shiftLeft_units]
  rcases Nat.lt_or_ge n.log2 52 with hsmall | hlarge
  · have hall : 2 ^ (n.log2 + unitExponent - 52) ∣ n * unitsPerOne :=
      Dvd.dvd.mul_left (Nat.pow_dvd_pow 2 (by omega)) n
    rw [Nat.sub_eq_zero_of_le hsmall.le, Nat.pow_zero]
    exact ⟨fun _ => Nat.one_dvd n, fun _ => hall⟩
  · rw [show n.log2 + unitExponent - 52 = n.log2 - 52 + unitExponent by omega, Nat.pow_add]
    exact Nat.mul_dvd_mul_iff_right unitsPerOne_pos

/-- The integers that are kept as they are lie on the grid of their binade. -/
theorem value_ofInt_eq_iff (h : i.natAbs < 2 ^ 64) :
    (ofInt i).value = i ↔ 2 ^ (i.natAbs.log2 - 52) ∣ i.natAbs := by
  obtain ⟨hsign, hmagnitude, -⟩ := magnitude_roundUnits Nat.one_pos (isFinite_ofInt h)
  change (ofInt i).sign = decide (i < 0) at hsign
  change (ofInt i).magnitude = rounded (i.natAbs <<< 1074) 1 * 2 ^ scaleOf (i.natAbs <<< 1074) 1 at hmagnitude
  have hunits : (unitsPerOne : ℚ) ≠ 0 := Nat.cast_ne_zero.2 unitsPerOne_pos.ne'
  have hscaled : (ofInt i).value = i ↔ (ofInt i).scaled = i * unitsPerOne := by
    rw [value, div_eq_iff hunits, ← Int.cast_natCast unitsPerOne, ← Int.cast_mul, Int.cast_inj]
  have hmagnitudes : (ofInt i).scaled = i * unitsPerOne ↔ (ofInt i).magnitude = i.natAbs <<< 1074 := by
    have hproduct : ((i.natAbs * unitsPerOne : Nat) : Int) = i.natAbs * unitsPerOne := Int.natCast_mul ..
    rw [scaled, hsign, shiftLeft_units]
    rcases lt_or_ge i 0 with hneg | hpos
    · have hi : i * unitsPerOne = -(i.natAbs * unitsPerOne) := by
        rw [Int.ofNat_natAbs_of_nonpos hneg.le, Int.neg_mul, Int.neg_neg]
      rw [decide_eq_true hneg, if_pos rfl, hi]
      omega
    · have hi : i * unitsPerOne = i.natAbs * unitsPerOne := by
        rw [Int.natAbs_of_nonneg hpos]
      rw [decide_eq_false (not_lt.2 hpos), if_neg Bool.false_ne_true, hi]
      omega
  rw [hscaled, hmagnitudes, hmagnitude, ← two_pow_scaleOf_dvd_iff, ← Nat.one_shiftLeft]
  exact roundDiv_mul_eq_iff _ (scaled_den_pos Nat.one_pos _)

end

end Binary64

end ObjectGraph
