import Sulti.Proofs.Binary64.Cast

/-!
The integer that a real is cut down to. A bit pattern stands for a rational number
as the format lays down: a sign, a fraction of 52 bits with or without a leading one,
and a power of two. The integer part of that number is what comes out, exactly where
it has 64 bits: though the test compares floats, and the greatest integer `2^63 - 1`
is rounded to a float for it, no number on the wrong side gets through.
-/

namespace Sulti

namespace Binary64

/-- The number that a bit pattern encodes. There is none where all exponent bits are ones:
such a pattern is an infinity or no number. -/
def encoded? (bits : UInt64) : Option ℚ :=
  let sign : ℚ := if bits.toBitVec.msb then -1 else 1
  let exponent : ℕ := (bits.toBitVec.extractLsb' 52 11).toNat
  let fraction : ℚ := (bits.toBitVec.extractLsb' 0 52).toNat / 2 ^ 52
  if exponent = 2047 then none
  else if exponent = 0 then some (sign * (fraction * 2 ^ (-1022 : ℤ)))
  else some (sign * ((1 + fraction) * 2 ^ ((exponent : ℤ) - 1023)))

/-- A fraction without a leading one is a significand on the finest grid. -/
theorem subnormal_value (f : ℕ) : (f : ℚ) * 2 ^ (-1074 : ℤ) = f / 2 ^ 52 * 2 ^ (-1022 : ℤ) := by
  have grid : (2 : ℚ) ^ (-1022 : ℤ) = 2 ^ 52 * 2 ^ (-1074 : ℤ) := by
    rw [← zpow_natCast, ← zpow_add₀ two_ne_zero]
    norm_num
  rw [grid]
  field_simp

/-- A fraction with a leading one is a significand of 53 bits. -/
theorem normal_value (f : ℕ) (q : ℤ) :
    ((1 <<< 52 + f : ℕ) : ℚ) * 2 ^ (q - 1075) = (1 + f / 2 ^ 52) * 2 ^ (q - 1023) := by
  have grid : (2 : ℚ) ^ (q - 1023) = 2 ^ 52 * 2 ^ (q - 1075) := by
    rw [← zpow_natCast, ← zpow_add₀ two_ne_zero]
    congr 1
    push_cast
    ring
  rw [grid, Nat.one_shiftLeft]
  push_cast
  ring

/-- The decoding agrees with the format. -/
theorem value?_ofBits (bits : UInt64) : (ofBits bits).value? = encoded? bits := by
  have exponent : (bits.toBitVec.extractLsb' 52 11).toNat = (bits.toNat >>> 52) % 2048 :=
    BitVec.extractLsb'_toNat ..
  have fraction : (bits.toBitVec.extractLsb' 0 52).toNat = bits.toNat % (1 <<< 52) :=
    BitVec.extractLsb'_toNat ..
  have sign : bits.toBitVec.msb = decide (1 <<< 63 ≤ bits.toNat) :=
    BitVec.msb_eq_decide bits.toBitVec
  simp only [encoded?, ofBits, exponent, fraction, sign, ← subnormal_value, ← normal_value]
  by_cases top : (bits.toNat >>> 52) % 2048 = 2047
  · rw [if_pos top, if_pos top]
    split <;> rfl
  · rw [if_neg top, if_neg top]
    split <;> rfl

theorem encoded?_of_finite {bits : UInt64} {negative : Bool} {m : ℕ} {q : ℤ}
    (h : ofBits bits = .finite negative m q) :
    encoded? bits = some ((if negative then -1 else 1 : ℚ) * (m * 2 ^ q)) := by
  rw [← value?_ofBits, h, value?]

end Binary64

namespace Numero

/-- A bit pattern is cut down to the integer of the number it encodes. -/
theorem ofReal?_ofBits (bits : UInt64) :
    ofReal? (Float.ofBits bits) = (Binary64.encoded? bits).bind fun x => ofInt? (towardZero x) := by
  rw [ofReal?_eq, Binary64.ofFloat_ofBits, Binary64.truncate?_eq, Binary64.value?_ofBits,
    Option.bind_map]
  rfl

/-- A real of 64 bits is cut down to an integer exactly. Where the pattern encodes a number whose
integer part has 64 bits, the result is that integer; for any other number, the infinities and
what is no number there is none. -/
theorem truncation_exact (bits : UInt64) :
    (∀ x, Binary64.encoded? bits = some x → -2 ^ 63 ≤ towardZero x ∧ towardZero x ≤ 2 ^ 63 - 1 →
      ∃ n, ofReal? (Float.ofBits bits) = some n ∧ n.val = towardZero x) ∧
    (∀ x, Binary64.encoded? bits = some x → ¬(-2 ^ 63 ≤ towardZero x ∧ towardZero x ≤ 2 ^ 63 - 1) →
      ofReal? (Float.ofBits bits) = none) ∧
    (Binary64.encoded? bits = none → ofReal? (Float.ofBits bits) = none) := by
  rw [ofReal?_ofBits]
  refine ⟨?_, ?_, ?_⟩
  · rintro x number ⟨lower, upper⟩
    rw [number]
    exact exists_ofInt? lower upper
  · intro x number outside
    rw [number, Option.bind_some, ofInt?_eq_none_iff]
    omega
  · intro number
    rw [number, Option.bind_none]

/-- The least integer is a float, the float next to `2^63` from below is cut down to
`2^63 - 1024`, and `2^63` itself is too large; a negative fraction is cut down to zero, and an
infinity is no integer. -/
theorem truncation_exact_limits :
    (∃ n, ofReal? (Float.ofBits 0xc3e0000000000000) = some n ∧ n.val = -2 ^ 63) ∧
    (∃ n, ofReal? (Float.ofBits 0x43dfffffffffffff) = some n ∧ n.val = 2 ^ 63 - 1024) ∧
    ofReal? (Float.ofBits 0x43e0000000000000) = none ∧
    (∃ n, ofReal? (Float.ofBits 0xbfe0000000000000) = some n ∧ n.val = 0) ∧
    ofReal? (Float.ofBits 0xfff0000000000000) = none := by
  have least : Binary64.encoded? 0xc3e0000000000000 = some (-9223372036854775808) := by
    rw [Binary64.encoded?_of_finite
      (by decide : Binary64.ofBits 0xc3e0000000000000 = .finite true 4503599627370496 11)]
    norm_num
  have below : Binary64.encoded? 0x43dfffffffffffff = some 9223372036854774784 := by
    rw [Binary64.encoded?_of_finite
      (by decide : Binary64.ofBits 0x43dfffffffffffff = .finite false 9007199254740991 10)]
    norm_num
  have above : Binary64.encoded? 0x43e0000000000000 = some 9223372036854775808 := by
    rw [Binary64.encoded?_of_finite
      (by decide : Binary64.ofBits 0x43e0000000000000 = .finite false 4503599627370496 11)]
    norm_num
  have half : Binary64.encoded? 0xbfe0000000000000 = some (-1 / 2) := by
    rw [Binary64.encoded?_of_finite
      (by decide : Binary64.ofBits 0xbfe0000000000000 = .finite true 4503599627370496 (-53))]
    norm_num
  have infinite : Binary64.encoded? 0xfff0000000000000 = none := by
    rw [← Binary64.value?_ofBits]
    decide
  refine ⟨?_, ?_, ?_, ?_, (truncation_exact _).2.2 infinite⟩
  · have value : towardZero (-9223372036854775808) = -2 ^ 63 := by norm_num [towardZero]
    simpa only [value] using (truncation_exact _).1 _ least (by rw [value]; norm_num)
  · have value : towardZero 9223372036854774784 = 2 ^ 63 - 1024 := by norm_num [towardZero]
    simpa only [value] using (truncation_exact _).1 _ below (by rw [value]; norm_num)
  · exact (truncation_exact _).2.1 _ above (by norm_num [towardZero])
  · have value : towardZero (-1 / 2) = 0 := by norm_num [towardZero]
    simpa only [value] using (truncation_exact _).1 _ half (by rw [value]; norm_num)

end Numero

end Sulti
