import Sulti.Proofs.Binary64.Unpacked
import Sulti.Proofs.Numero.Exact

/-!
The cast of a real to an integer and the test in front of it. The real is cut off
as a real, compared with the limits as reals, and cast with clamping. The least
integer is a real, so the one comparison includes it. The greatest is not: it is
rounded up to `2^63`, which the other comparison has to leave out, and between it
and the greatest integer there is no real. So the test passes exactly when the
integer fits, and clamping then changes nothing.
-/

namespace Sulti

/-- Both signs lose their fraction alike. -/
theorem towardZero_neg (x : ℚ) : towardZero (-x) = -towardZero x := by
  unfold towardZero
  rcases lt_trichotomy x 0 with negative | rfl | positive
  · rw [if_pos (by linarith), if_neg (by linarith), Int.floor_neg]
  · simp
  · rw [if_neg (by linarith), if_pos (by linarith), Int.ceil_neg]

namespace Binary64

theorem floor_eq (m : ℕ) (q : ℤ) : (floor m q : ℤ) = ⌊(m : ℚ) * 2 ^ q⌋ := by
  unfold floor
  split_ifs with whole
  · obtain ⟨k, rfl⟩ := Int.eq_ofNat_of_zero_le whole
    rw [Int.toNat_natCast, Nat.shiftLeft_eq, zpow_natCast]
    exact_mod_cast (Int.floor_natCast (R := ℚ) (m * 2 ^ k)).symm
  · obtain ⟨k, hk⟩ := Int.eq_ofNat_of_zero_le (show 0 ≤ -q by omega)
    obtain rfl : q = -(k : ℤ) := by omega
    rw [neg_neg, Int.toNat_natCast, Nat.shiftRight_eq_div_pow, zpow_neg, zpow_natCast,
      ← div_eq_mul_inv]
    exact_mod_cast (Rat.floor_natCast_div_natCast m (2 ^ k)).symm

/-- The number rounded toward zero, if there is one. -/
def truncate? : Binary64 → Option ℤ
  | .finite negative m q => some (if negative then -(floor m q : ℤ) else floor m q)
  | _ => none

theorem truncate?_eq (x : Binary64) : x.truncate? = x.value?.map towardZero := by
  cases x with
  | finite negative m q =>
      have size : 0 ≤ (m : ℚ) * 2 ^ q := by positivity
      have magnitude : towardZero (m * 2 ^ q) = floor m q := by
        rw [floor_eq, towardZero, if_pos size]
      cases negative with
      | false => simp [truncate?, value?, magnitude]
      | true => simp [truncate?, value?, magnitude, towardZero_neg]
  | infinite negative => rfl
  | nan => rfl

/-! Cutting off as a real. -/

/-- The exponent and the fraction of a normal float, read back from its bits. -/
theorem ofBits_normal (negative : Bool) {e f : ℕ} (pos : 0 < e) (finite : e < 2047)
    (short : f < 2 ^ 52) :
    ofBits ((if negative then 1 <<< 63 else 0) + (e <<< 52 + f)).toUInt64 =
      .finite negative (1 <<< 52 + f) (e - 1075) := by
  have bits : ((if negative then 1 <<< 63 else 0) + (e <<< 52 + f)).toUInt64.toNat =
      (if negative then 2 ^ 63 else 0) + (e * 2 ^ 52 + f) := by
    simp only [Nat.toUInt64_eq, UInt64.toNat_ofNat', Nat.shiftLeft_eq, Nat.one_mul]
    split <;> omega
  have exponent : ((if negative then 2 ^ 63 else 0) + (e * 2 ^ 52 + f)) >>> 52 % 2048 = e := by
    rw [Nat.shiftRight_eq_div_pow]
    split <;> omega
  have fraction : ((if negative then 2 ^ 63 else 0) + (e * 2 ^ 52 + f)) % 1 <<< 52 = f := by
    rw [Nat.one_shiftLeft]
    split <;> omega
  have sign : decide (1 <<< 63 ≤ (if negative then 2 ^ 63 else 0) + (e * 2 ^ 52 + f)) =
      negative := by
    rw [Nat.one_shiftLeft]
    cases negative with
    | false =>
        rw [decide_eq_false_iff_not]
        simp only [Bool.false_eq_true, if_false]
        omega
    | true => exact decide_eq_true (Nat.le_add_right _ _)
  rw [ofBits]
  simp only [bits, exponent, fraction, sign]
  rw [if_neg (by omega), if_neg (by omega)]

/-- A whole number of at most 53 bits is a float. -/
theorem value?_encode (negative : Bool) {m : ℕ} (short : m < 2 ^ 53) :
    (ofFloat (encode negative m 0)).value? = some ((if negative then -1 else 1) * (m : ℚ)) := by
  rcases Nat.eq_zero_or_pos m with rfl | pos
  · rw [encode, ofFloat_ofBits]
    cases negative <;> simp [ofBits, value?]
  · obtain ⟨low, high⟩ := (Nat.log2_eq_iff (by omega)).1 (rfl : m.log2 = m.log2)
    have size : m.log2 < 53 := (Nat.log2_lt (by omega)).2 short
    -- Shifted so far, the leading bit is the 53rd.
    obtain ⟨k, shift⟩ : ∃ k, k = 52 - m.log2 := ⟨_, rfl⟩
    have lower : 2 ^ 52 ≤ m <<< k := by
      rw [Nat.shiftLeft_eq]
      calc 2 ^ 52 = 2 ^ m.log2 * 2 ^ k := by rw [← Nat.pow_add]; congr 1; omega
        _ ≤ m * 2 ^ k := Nat.mul_le_mul_right _ low
    have upper : m <<< k < 2 ^ 53 := by
      rw [Nat.shiftLeft_eq]
      calc m * 2 ^ k < 2 ^ (m.log2 + 1) * 2 ^ k :=
            Nat.mul_lt_mul_of_pos_right high (Nat.two_pow_pos k)
        _ = 2 ^ 53 := by rw [← Nat.pow_add]; congr 1; omega
    have least : min (52 - m.log2) ((0 : ℤ) + 1074).toNat = k := by omega
    have biased : ((0 : ℤ) - k + 1075).toNat = 1075 - k := by omega
    have leading : (1 <<< 52 : ℕ) = 2 ^ 52 := Nat.one_shiftLeft 52
    have normal : ¬m <<< k < 1 <<< 52 := by omega
    have whole : (1 <<< 52 : ℕ) + (m <<< k - 1 <<< 52) = m * 2 ^ k := by
      rw [← Nat.shiftLeft_eq]
      omega
    have exponent : ((1075 - k : ℕ) : ℤ) - 1075 = -(k : ℤ) := by omega
    rw [encode, ofFloat_ofBits]
    simp only [least, biased, if_neg normal]
    rw [ofBits_normal negative (by omega) (by omega) (by omega), value?, whole, exponent,
      zpow_neg, zpow_natCast, Nat.cast_mul, Nat.cast_pow, Nat.cast_ofNat, mul_assoc,
      mul_inv_cancel₀ (by positivity), mul_one]

/-- Cutting off as a real gives the integer that is left, as a real. -/
theorem value?_trunc (x : Float) :
    (ofFloat (trunc x)).value? = (ofFloat x).truncate?.map (Int.cast : ℤ → ℚ) := by
  unfold trunc
  cases h : ofFloat x with
  | finite negative m q =>
      have canonical : Canonical m q := canonical_of_ofBits h
      by_cases whole : 0 ≤ q
      · obtain ⟨k, rfl⟩ := Int.eq_ofNat_of_zero_le whole
        simp only [if_pos whole, h, value?, truncate?, floor, Int.toNat_natCast, Nat.shiftLeft_eq,
          Option.map_some, zpow_natCast]
        cases negative <;> simp
      · have short : m >>> (-q).toNat < 2 ^ 53 :=
          (Nat.shiftRight_le m _).trans_lt canonical.high
        simp only [if_neg whole, value?_encode negative short, truncate?, floor, Option.map_some]
        generalize m >>> (-q).toNat = n
        cases negative <;> simp
  | infinite negative =>
      simp only [h]
      rfl
  | nan =>
      simp only [h]
      rfl

theorem truncate?_trunc (x : Float) : (ofFloat (trunc x)).truncate? = (ofFloat x).truncate? := by
  rw [truncate?_eq, value?_trunc, Option.map_map]
  cases (ofFloat x).truncate? with
  | none => rfl
  | some n => simp [towardZero]

end Binary64

namespace Numero

/-! The limits and the cast. -/

theorem value?_least : (Binary64.ofFloat (.ofInt least.val)).value? = some (-2 ^ 63) := by
  have decoded : Binary64.ofFloat (.ofInt least.val) = .finite true 4503599627370496 11 := by
    decide +kernel
  rw [decoded, Binary64.value?]
  norm_num

/-- The greatest integer has too many bits, and the float nearest to it is the next one up. -/
theorem value?_greatest : (Binary64.ofFloat (.ofInt greatest.val)).value? = some (2 ^ 63) := by
  have decoded : Binary64.ofFloat (.ofInt greatest.val) = .finite false 4503599627370496 11 := by
    decide +kernel
  rw [decoded, Binary64.value?]
  norm_num

theorem ofReal_of_truncate? {x : Float} {n : ℤ} (h : (Binary64.ofFloat x).truncate? = some n) :
    ofReal x = clamp n := by
  unfold ofReal
  cases hx : Binary64.ofFloat x with
  | finite negative m q =>
      rw [hx] at h
      rw [← Option.some.inj h]
  | infinite negative =>
      rw [hx] at h
      cases h
  | nan =>
      rw [hx] at h
      cases h

/-- Clamping leaves an integer that fits as it is. -/
theorem clamp_eq {n : ℤ} (lower : -2 ^ 63 ≤ n) (upper : n < 2 ^ 63) :
    some (clamp n) = ofInt? n := by
  have fits : -9223372036854775808 ≤ n ∧ n ≤ 9223372036854775807 := by omega
  rw [ofInt?, dif_pos fits, clamp]
  congr
  omega

/-- The test passes exactly when the integer that is left fits. -/
theorem between_limits_iff {x : Float} {n : ℤ} (h : (Binary64.ofFloat x).value? = some (n : ℚ)) :
    (Float.ofInt least.val ≤ x ∧ x < Float.ofInt greatest.val) ↔ -2 ^ 63 ≤ n ∧ n < 2 ^ 63 := by
  rw [Binary64.le_iff_value_le value?_least h, Binary64.lt_iff_value_lt h value?_greatest]
  constructor
  · rintro ⟨lower, upper⟩
    exact ⟨by exact_mod_cast lower, by exact_mod_cast upper⟩
  · rintro ⟨lower, upper⟩
    exact ⟨by exact_mod_cast lower, by exact_mod_cast upper⟩

/-- Comparing and casting reals is exact: it comes to the same as cutting the number off to an
integer and asking whether that fits. -/
theorem ofReal?_eq (x : Float) : ofReal? x = (Binary64.ofFloat x).truncate?.bind ofInt? := by
  unfold ofReal?
  dsimp only
  cases h : (Binary64.ofFloat x).truncate? with
  | none =>
      have number : (Binary64.ofFloat (Binary64.trunc x)).value? = none := by
        rw [Binary64.value?_trunc, h, Option.map_none]
      rw [if_neg (Binary64.not_between_of_value?_none number value?_least value?_greatest)]
      rfl
  | some n =>
      have number : (Binary64.ofFloat (Binary64.trunc x)).value? = some (n : ℚ) := by
        rw [Binary64.value?_trunc, h, Option.map_some]
      rw [Option.bind_some]
      by_cases fits : -2 ^ 63 ≤ n ∧ n < 2 ^ 63
      · rw [if_pos ((between_limits_iff number).2 fits),
          ofReal_of_truncate? ((Binary64.truncate?_trunc x).trans h), clamp_eq fits.1 fits.2]
      · rw [if_neg (mt (between_limits_iff number).1 fits), eq_comm, ofInt?_eq_none_iff]
        omega

end Numero

end Sulti
