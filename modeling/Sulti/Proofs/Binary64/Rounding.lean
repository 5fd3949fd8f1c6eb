import Sulti.Proofs.Binary64.Cast

/-!
What becomes of a whole number that is too long for a significand of 53 bits.
Of a number with `53 + s` bits the last `s` are rounded to the nearest integer,
and a half to the even one; what rounding toward zero then reads as a `NUMERO`
is that nearest number, if it fits.
-/

namespace Sulti.Binary64

open Float.Model Float.Model.UnpackedFloat

/-- `m / 2^s` rounded to the nearest integer, and a half to the even one. -/
def nearestQuotient (m s : Nat) : Nat :=
  if 2 * (m % 2 ^ s) < 2 ^ s then m / 2 ^ s
  else if 2 ^ s < 2 * (m % 2 ^ s) then m / 2 ^ s + 1
  else m / 2 ^ s + m / 2 ^ s % 2

/-- The mantissa has lost the last `s` bits of `m`, and its two extra bits say
how the lost part compares with one half. -/
structure Cuts (m s : Nat) (em : ExtendedMantissa) : Prop where
  mantissa : em.mantissa = m / 2 ^ s
  round : em.roundBit = decide (2 ^ s ≤ 2 * (m % 2 ^ s))
  sticky : em.stickyBit = decide (m % 2 ^ s ≠ 0 ∧ 2 * (m % 2 ^ s) ≠ 2 ^ s)

theorem Cuts.exact (m : Nat) : Cuts m 0 (ExtendedMantissa.ofMantissaAndAccuracy m .exact) := by
  constructor <;> simp [ExtendedMantissa.ofMantissaAndAccuracy, Nat.mod_one]

theorem Cuts.shiftRightOne {m s : Nat} {em : ExtendedMantissa} (h : Cuts m s em) :
    Cuts m (s + 1) em.shiftRightOne := by
  have power : 2 ^ (s + 1) = 2 * 2 ^ s := by rw [Nat.pow_succ, Nat.mul_comm]
  have small : m % 2 ^ s < 2 ^ s := Nat.mod_lt _ (Nat.two_pow_pos s)
  have bit : m / 2 ^ s % 2 = 0 ∨ m / 2 ^ s % 2 = 1 := by omega
  have rest : m % 2 ^ (s + 1) = m % 2 ^ s + 2 ^ s * (m / 2 ^ s % 2) := Nat.mod_pow_succ
  constructor
  · rw [ExtendedMantissa.shiftRightOne, h.mantissa, Nat.div_div_eq_div_mul, Nat.pow_succ]
  · rw [ExtendedMantissa.shiftRightOne, h.mantissa, rest, power, Bool.eq_iff_iff]
    rcases bit with bit | bit <;> simp [bit]
    omega
  · rw [ExtendedMantissa.shiftRightOne, h.round, h.sticky, rest, power, Bool.eq_iff_iff]
    rcases bit with bit | bit <;> simp [bit] <;> omega

theorem Cuts.shiftRight {m : Nat} (s : Nat) :
    Cuts m s (ExtendedMantissa.ofMantissaAndAccuracy m .exact >>> s) := by
  change Cuts m s (s.repeat ExtendedMantissa.shiftRightOne _)
  induction s with
  | zero => exact Cuts.exact m
  | succ s ih => exact ih.shiftRightOne

theorem Cuts.roundedMantissa {m s : Nat} {em : ExtendedMantissa} (h : Cuts m s em) :
    em.roundedMantissa = nearestQuotient m s := by
  obtain ⟨mantissa, round, sticky⟩ := em
  obtain ⟨rfl, rfl, rfl⟩ := h
  unfold nearestQuotient
  rcases Nat.lt_trichotomy (2 * (m % 2 ^ s)) (2 ^ s) with below | half | above
  · -- Exact or not, less than one half is cut off.
    have round : decide (2 ^ s ≤ 2 * (m % 2 ^ s)) = false := by simpa using below
    rw [if_pos below, round]
    cases decide (m % 2 ^ s ≠ 0 ∧ 2 * (m % 2 ^ s) ≠ 2 ^ s) <;> rfl
  · have round : decide (2 ^ s ≤ 2 * (m % 2 ^ s)) = true := by simpa using half.ge
    have sticky : decide (m % 2 ^ s ≠ 0 ∧ 2 * (m % 2 ^ s) ≠ 2 ^ s) = false := by simp [half]
    rw [if_neg (by omega), if_neg (by omega), round, sticky]
    rfl
  · have round : decide (2 ^ s ≤ 2 * (m % 2 ^ s)) = true := by simpa using above.le
    have sticky : decide (m % 2 ^ s ≠ 0 ∧ 2 * (m % 2 ^ s) ≠ 2 ^ s) = true := by
      simp only [decide_eq_true_iff]
      omega
    rw [if_neg (by omega), if_pos above, round, sticky]
    rfl

theorem nearestQuotient_mul_two_pow (m s j : Nat) :
    nearestQuotient (m * 2 ^ j) (s + j) = nearestQuotient m s := by
  have pos : 0 < 2 ^ j := Nat.two_pow_pos j
  unfold nearestQuotient
  rw [Nat.pow_add, Nat.mul_mod_mul_right, Nat.mul_div_mul_right _ _ pos, ← Nat.mul_assoc]
  simp only [Nat.mul_lt_mul_right pos]

theorem nearestQuotient_bounds {m s : Nat} (long : m.log2 = 52 + s) :
    2 ^ 52 ≤ nearestQuotient m s ∧ nearestQuotient m s ≤ 2 ^ 53 := by
  have nonzero : m ≠ 0 := by
    rintro rfl
    rw [Nat.log2_zero] at long
    omega
  obtain ⟨low, high⟩ := (Nat.log2_eq_iff nonzero).1 long
  have lower : 2 ^ 52 ≤ m / 2 ^ s := by
    rw [Nat.le_div_iff_mul_le (Nat.two_pow_pos s), ← Nat.pow_add]
    exact low
  have upper : m / 2 ^ s < 2 ^ 53 := by
    rw [Nat.div_lt_iff_lt_mul (Nat.two_pow_pos s), ← Nat.pow_add, Nat.add_right_comm 52 1 s]
    exact high
  unfold nearestQuotient
  split_ifs <;> omega

theorem log2_mul_two_pow {k : Nat} (nonzero : k ≠ 0) (j : Nat) :
    (k * 2 ^ j).log2 = k.log2 + j := by
  obtain ⟨low, high⟩ := (Nat.log2_eq_iff nonzero).1 rfl
  rw [Nat.log2_eq_iff (by positivity), Nat.pow_add, Nat.add_right_comm, Nat.pow_add]
  exact ⟨Nat.mul_le_mul_right _ low, Nat.mul_lt_mul_of_pos_right high (Nat.two_pow_pos j)⟩

theorem shiftToTargetExponent_of_long {m s : Nat} (long : m.log2 = 52 + s) {q : Int}
    (least : -1074 ≤ q + s) :
    shiftToTargetExponent Format.binary64 m q .exact =
      (ExtendedMantissa.ofMantissaAndAccuracy m .exact >>> s, q + s) := by
  have shift : (Format.binary64.targetExponent (totalExponent m q) - q).toNat = s := by
    change (max ((m.log2 + 1 : Int) + q - 53) (-1074) - q).toNat = s
    omega
  simp only [shiftToTargetExponent, shiftToExponent, shift]

/-- Rounding up to a power of two makes the significand one bit longer, and
that bit is a zero, which is dropped without loss. -/
theorem roundWithAccuracy_of_long (sign : Sign) {m s : Nat} (long : m.log2 = 52 + s) {q : Int}
    (least : -1074 ≤ q + s) :
    ∃ (k j : Nat) (pos : 0 < k),
      roundWithAccuracy Format.binary64 sign m q .exact = .finite sign k (q + s + j) pos ∧
      2 ^ 52 ≤ k ∧ k < 2 ^ 53 ∧ k * 2 ^ j = nearestQuotient m s := by
  obtain ⟨lower, upper⟩ := nearestQuotient_bounds long
  obtain ⟨k, j, low, high, value⟩ :
      ∃ k j, 2 ^ 52 ≤ k ∧ k < 2 ^ 53 ∧ k * 2 ^ j = nearestQuotient m s := by
    by_cases below : nearestQuotient m s < 2 ^ 53
    · exact ⟨_, 0, lower, below, Nat.mul_one _⟩
    · exact ⟨2 ^ 52, 1, by omega, by omega, by omega⟩
  have again : (nearestQuotient m s).log2 = 52 + j := by
    rw [← value, log2_mul_two_pow (by omega), (Nat.log2_eq_iff (by omega)).2 ⟨low, high⟩]
  have mantissa :
      (ExtendedMantissa.ofMantissaAndAccuracy (nearestQuotient m s) .exact >>> j).mantissa = k := by
    rw [(Cuts.shiftRight j).mantissa, ← value, Nat.mul_div_cancel _ (Nat.two_pow_pos j)]
  refine ⟨k, j, by omega, ?_, low, high, value⟩
  simp only [roundWithAccuracy, shiftToTargetExponent_of_long long least,
    (Cuts.shiftRight s).roundedMantissa,
    shiftToTargetExponent_of_long again (show -1074 ≤ (q + s) + (j : Int) by omega), mantissa,
    dif_neg (show k ≠ 0 by omega)]

/-- The nearest number of at most 53 bits and zeros after them. -/
def nearestLong (m : Nat) : Nat := nearestQuotient m (m.log2 - 52) * 2 ^ (m.log2 - 52)

/-- A whole number is multiplied by the power `10^0`, so it is rounded once. -/
theorem ofScientific_eq_round {m : Nat} (long : 2 ^ 53 ≤ m) :
    Float.ofScientific m false 0 =
      ⟨Float.Model.pack
        (roundWithAccuracy Format.binary64 .positive (m * 2 ^ 53) (-53) .exact)⟩ := by
  have least : ¬ (0 : Int) < -(2 ^ 11 + (m.log2 : Int)) := by omega
  have product : UnpackedFloat.ofScientific Format.binary64 m 0 =
      roundWithAccuracy Format.binary64 .positive (m * 2 ^ 53) (-53) .exact := by
    rw [UnpackedFloat.ofScientific, dif_neg (by omega), if_neg (by decide), if_neg least,
      if_pos (by decide)]
    change roundWithAccuracy Format.binary64 .positive (m <<< 53 * 1) (-53 + 0) .exact = _
    rw [Nat.mul_one, Nat.shiftLeft_eq]
    rfl
  rw [Float.ofScientific, dif_neg (by omega), ← product]
  rfl

theorem ofScientific_of_long {m : Nat} (long : 2 ^ 53 ≤ m) :
    ∃ (k t : Nat) (pos : 0 < k),
      Float.ofScientific m false 0 = ⟨Float.Model.pack (.finite .positive k t pos)⟩ ∧
      2 ^ 52 ≤ k ∧ k < 2 ^ 53 ∧ k * 2 ^ t = nearestLong m := by
  have nonzero : m ≠ 0 := by omega
  have size : 53 ≤ m.log2 := (Nat.le_log2 nonzero).2 long
  have shifted : (m * 2 ^ 53).log2 = 52 + (m.log2 - 52 + 53) := by
    rw [log2_mul_two_pow nonzero]
    omega
  obtain ⟨k, j, pos, rounded, low, high, value⟩ :=
    roundWithAccuracy_of_long .positive shifted (show -1074 ≤ (-53 : Int) + _ by omega)
  have exponent : (-53 : Int) + (m.log2 - 52 + 53 : Nat) + j = (m.log2 - 52 + j : Nat) := by omega
  rw [nearestQuotient_mul_two_pow] at value
  refine ⟨k, m.log2 - 52 + j, pos, ?_, low, high, ?_⟩
  · rw [ofScientific_eq_round long, rounded]
    simp only [exponent]
  · rw [nearestLong, ← value, Nat.pow_add, Nat.mul_assoc, Nat.mul_comm (2 ^ j)]

theorem floor_natCast (k t : Nat) : floor k t = k * 2 ^ t := by
  rw [floor, if_pos (Int.natCast_nonneg t), Int.toNat_natCast, Nat.shiftLeft_eq]

/-- A number too large for a float is an infinity, which is no `NUMERO`, and
it would not be one if it were exact. -/
theorem ofReal?_pack (s : Sign) {k t : Nat} (pos : 0 < k) (low : 2 ^ 52 ≤ k)
    (high : k < 2 ^ 53) :
    Numero.ofReal? ⟨Float.Model.pack (.finite s k t pos)⟩ =
      Numero.ofInt? (if s == .negative then -((k * 2 ^ t : Nat) : Int) else (k * 2 ^ t : Nat)) := by
  rw [Numero.ofReal?_eq, ofFloat_pack]
  by_cases most : t ≤ 971
  · rw [unpack_pack_normal s pos low high (by omega) (by omega), ofUnpacked, truncate?,
      floor_natCast, Option.bind_some]
  · have large : 2 ^ 64 ≤ k * 2 ^ t := calc
      2 ^ 64 ≤ 2 ^ (52 + t) := Nat.pow_le_pow_right (by decide) (by omega)
      _ = 2 ^ 52 * 2 ^ t := Nat.pow_add ..
      _ ≤ k * 2 ^ t := Nat.mul_le_mul_right _ low
    have outside : Numero.ofInt?
        (if s == .negative then -((k * 2 ^ t : Nat) : Int) else (k * 2 ^ t : Nat)) = none := by
      rw [Numero.ofInt?_eq_none_iff]
      split <;> omega
    rw [pack_of_large s pos (by omega), unpack_pack_infinity, outside]
    rfl

theorem ofReal?_of_long (negative : Bool) {m : Nat} (long : 2 ^ 53 ≤ m) :
    Numero.ofReal? (if negative then -Float.ofScientific m false 0
        else Float.ofScientific m false 0) =
      Numero.ofInt? (if negative then -(nearestLong m : Int) else nearestLong m) := by
  obtain ⟨k, t, pos, value, low, high, rounded⟩ := ofScientific_of_long long
  rw [value, ← rounded]
  cases negative with
  | false => exact ofReal?_pack .positive pos low high
  | true =>
    rw [if_pos rfl, neg_pack .positive pos low high (by omega)]
    exact ofReal?_pack .negative pos low high

/-- From `2^63` on the numbers with 53 bits are `2048` apart at least, so those
nearest to `2^63` itself lie within `1024`; the last is a tie, and `2^63` is
the even one. -/
theorem nearestLong_cases {m : Nat} (large : 2 ^ 63 ≤ m) :
    (m ≤ 2 ^ 63 + 1024 ∧ nearestLong m = 2 ^ 63) ∨
      (2 ^ 63 + 1024 < m ∧ 2 ^ 63 < nearestLong m) := by
  have size : 63 ≤ m.log2 := (Nat.le_log2 (by omega)).2 large
  obtain ⟨lower, _⟩ := nearestQuotient_bounds (show m.log2 = 52 + (m.log2 - 52) by omega)
  by_cases short : m.log2 = 63
  · have bound := ((Nat.log2_eq_iff (by omega)).1 short).2
    rw [nearestLong, short] at *
    unfold nearestQuotient at *
    split_ifs at * <;> omega
  · have longer : 2 ^ 64 ≤ m := (Nat.le_log2 (by omega)).1 (by omega)
    have rounded : 2 ^ 64 ≤ nearestLong m := calc
      2 ^ 64 = 2 ^ 52 * 2 ^ 12 := by norm_num
      _ ≤ nearestQuotient m (m.log2 - 52) * 2 ^ (m.log2 - 52) :=
        Nat.mul_le_mul lower (Nat.pow_le_pow_right (by decide) (by omega))
    omega

end Sulti.Binary64
