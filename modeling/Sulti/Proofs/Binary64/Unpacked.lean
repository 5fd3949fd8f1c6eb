import Mathlib
import Sulti.Binary64

/-!
Floats as the numbers they stand for. The decoding of bit patterns agrees with
the unpacking that floating-point arithmetic is defined by, so a float is
followed through packing, a change of sign and a comparison as a significand
and an exponent. A comparison looks at the exponents first, and that is the
order of the numbers, because only the least exponent has significands of less
than 53 bits.

The lemmas on packing are those of `Batteries.Data.Float.Lemmas`, and only the
whole library imports them.
-/

namespace Sulti.Binary64

open Float.Model Float.Model.UnpackedFloat

/-- What the operands and results of floating-point arithmetic stand for. -/
def ofUnpacked : UnpackedFloat → Binary64
  | .notANumber => .nan
  | .infinity s => .infinite (s == .negative)
  | .zero s => .finite (s == .negative) 0 (-1074)
  | .finite s m q _ => .finite (s == .negative) m q

theorem toNat_unpackExponent (bits : UInt64) :
    (@unpackExponent Format.binary64 bits.toBitVec).toNat = (bits.toNat >>> 52) % 2048 := by
  rw [unpackExponent_def]
  exact BitVec.extractLsb'_toNat ..

theorem toNat_unpackMantissa (bits : UInt64) :
    (@unpackMantissa Format.binary64 bits.toBitVec).toNat = bits.toNat % (1 <<< 52) := by
  rw [unpackMantissa_def]
  exact BitVec.extractLsb'_toNat ..

theorem negative_unpackSign (bits : UInt64) :
    (Sign.ofBitVec (@unpackSign Format.binary64 bits.toBitVec) == .negative)
      = decide (1 <<< 63 ≤ bits.toNat) := by
  have bound := bits.toNat_lt
  have bit : (@unpackSign Format.binary64 bits.toBitVec).toNat = (bits.toNat >>> 63) % 2 := by
    rw [unpackSign_def]
    exact BitVec.extractLsb'_toNat ..
  rw [Nat.shiftRight_eq_div_pow] at bit
  rw [Bool.eq_iff_iff, beq_iff_eq, decide_eq_true_iff, Sign.ofBitVec, Nat.one_shiftLeft]
  split
  next zero =>
    have : (bits.toNat / 2 ^ 63) % 2 = 0 := by
      rw [← bit, zero]
      rfl
    simp only [reduceCtorEq, false_iff]
    omega
  next one =>
    have : (bits.toNat / 2 ^ 63) % 2 ≠ 0 := fun h => one (BitVec.eq_of_toNat_eq (bit.trans h))
    simp only [true_iff]
    omega

theorem toNat_one_append (f : BitVec 52) : (1#1 ++ f).toNat = 1 <<< 52 + f.toNat := by
  rw [BitVec.toNat_append, ← Nat.shiftLeft_add_eq_or_of_lt f.isLt]
  rfl

theorem ofBits_eq_ofUnpacked (bits : UInt64) :
    ofBits bits = ofUnpacked (UnpackedFloat.unpack Format.binary64 bits.toBitVec) := by
  have exponent := toNat_unpackExponent bits
  have fraction := toNat_unpackMantissa bits
  have sign := negative_unpackSign bits
  have top : @unpackExponent Format.binary64 bits.toBitVec = -1#11
      ↔ (bits.toNat >>> 52) % 2048 = 2047 := by
    rw [← exponent]
    exact BitVec.toNat_eq
  have bottom : @unpackExponent Format.binary64 bits.toBitVec = 0#11
      ↔ (bits.toNat >>> 52) % 2048 = 0 := by
    rw [← exponent]
    exact BitVec.toNat_eq
  have blank : @unpackMantissa Format.binary64 bits.toBitVec = 0#52
      ↔ bits.toNat % (1 <<< 52) = 0 := by
    rw [← fraction]
    exact BitVec.toNat_eq
  unfold ofBits UnpackedFloat.unpack
  by_cases ones : (bits.toNat >>> 52) % 2048 = 2047
  · rw [if_pos ones, if_pos (top.2 ones)]
    by_cases clear : bits.toNat % (1 <<< 52) = 0
    · rw [if_pos clear, if_pos (blank.2 clear), ofUnpacked, sign]
    · rw [if_neg clear, if_neg (mt blank.1 clear), ofUnpacked]
  · rw [if_neg ones, if_neg (mt top.1 ones)]
    by_cases zeros : (bits.toNat >>> 52) % 2048 = 0
    · rw [if_pos zeros, if_pos (bottom.2 zeros)]
      by_cases clear : bits.toNat % (1 <<< 52) = 0
      · rw [dif_pos (blank.2 clear), ofUnpacked, sign, clear]
      · rw [dif_neg (mt blank.1 clear), ofUnpacked, sign, fraction, exponent, zeros]
        rfl
    · rw [if_neg zeros, if_neg (mt bottom.1 zeros), ofUnpacked, sign, exponent]
      congr 1
      rw [← fraction]
      exact (toNat_one_append _).symm

theorem ofFloat_eq_ofUnpacked (x : Float) : ofFloat x = ofUnpacked x.toModel.unpack :=
  ofBits_eq_ofUnpacked _

theorem ofFloat_pack (u : UnpackedFloat) :
    ofFloat ⟨Float.Model.pack u⟩ = ofUnpacked (Float.Model.pack u).unpack :=
  ofFloat_eq_ofUnpacked _

/-- Also a pattern that is no number is read back as one. -/
theorem ofFloat_ofBits (bits : UInt64) : ofFloat (Float.ofBits bits) = ofBits bits := by
  rw [ofBits_eq_ofUnpacked]
  refine (ofFloat_pack _).trans (congrArg ofUnpacked ?_)
  change UnpackedFloat.unpack Format.binary64 (UnpackedFloat.pack Format.binary64 _) = _
  rw [@pack_unpack Format.binary64 _ (by decide)]
  split
  next nan =>
    obtain ⟨ones, fraction⟩ := of_decide_eq_true nan
    rw [unpack_packedNaN, UnpackedFloat.unpack, if_pos ones, if_neg fraction]
  next => rfl

theorem unpack_pack_infinity (s : Sign) :
    (Float.Model.pack (.infinity s)).unpack = .infinity s := by
  cases s <;> rfl

theorem pack_of_large (s : Sign) {k : Nat} {t : Int} (pos : 0 < k) (large : 971 < t) :
    Float.Model.pack (.finite s k t pos) = Float.Model.pack (.infinity s) := by
  have overflow : 2 ^ Format.binary64.exponentBits ≤
      (t + Format.binary64.exponentBias
        + Format.binary64.mantissaBitsWithoutImplicit).toNat + 1 := by
    change 2 ^ 11 ≤ (t + 1023 + 52).toNat + 1
    omega
  simp only [Float.Model.pack, UnpackedFloat.pack, if_pos overflow]

theorem unpack_packComponents (s : Sign) {e : BitVec Format.binary64.exponentBits}
    (f : BitVec Format.binary64.mantissaBitsWithoutImplicit) (top : e ≠ -1#_) (bottom : e ≠ 0#_)
    (pos : 0 < (1#1 ++ f).toNat) :
    UnpackedFloat.unpack Format.binary64 (packComponents Format.binary64 s e f) =
      .finite s (1#1 ++ f).toNat (e.toNat - 1075) pos := by
  unfold UnpackedFloat.unpack
  simp only [unpackExponent_packComponents, unpackMantissa_packComponents,
    unpackSign_packComponents, Sign.ofBitVec_toBitVec, if_neg top, if_neg bottom]
  rfl

theorem unpack_pack_normal (s : Sign) {k : Nat} {t : Int} (pos : 0 < k) (low : 2 ^ 52 ≤ k)
    (high : k < 2 ^ 53) (least : -1074 ≤ t) (most : t ≤ 971) :
    (Float.Model.pack (.finite s k t pos)).unpack = .finite s k t pos := by
  have fits : ¬ 2 ^ Format.binary64.exponentBits ≤
      (t + Format.binary64.exponentBias
        + Format.binary64.mantissaBitsWithoutImplicit).toNat + 1 := by
    change ¬ 2 ^ 11 ≤ (t + 1023 + 52).toNat + 1
    omega
  have normal : k.log2 + 1 = Format.binary64.mantissaBits := by
    rw [(Nat.log2_eq_iff (by omega)).2 ⟨low, high⟩]
    rfl
  have biased : (BitVec.ofNat 11 (t + 1023 + 52).toNat).toNat = (t + 1023 + 52).toNat := by
    rw [BitVec.toNat_ofNat, Nat.mod_eq_of_lt (by omega)]
  have significand : (1#1 ++ BitVec.ofNat 52 k).toNat = k := by
    rw [toNat_one_append, BitVec.toNat_ofNat]
    omega
  have top : BitVec.ofNat 11 (t + 1023 + 52).toNat ≠ -1#11 := fun h => by
    have : (t + 1023 + 52).toNat = 2047 := biased.symm.trans (congrArg BitVec.toNat h)
    omega
  have bottom : BitVec.ofNat 11 (t + 1023 + 52).toNat ≠ 0#11 := fun h => by
    have : (t + 1023 + 52).toNat = 0 := biased.symm.trans (congrArg BitVec.toNat h)
    omega
  simp only [Float.Model.unpack, Float.Model.pack, UnpackedFloat.pack, if_neg fits, if_pos normal]
  refine (unpack_packComponents s _ top bottom (by omega)).trans ?_
  simp only [UnpackedFloat.finite.injEq, true_and]
  exact ⟨significand, by rw [biased]; omega⟩

/-- Also a number that packs as an infinity changes only its sign. -/
theorem neg_pack (s : Sign) {k : Nat} {t : Int} (pos : 0 < k) (low : 2 ^ 52 ≤ k)
    (high : k < 2 ^ 53) (least : -1074 ≤ t) :
    -(⟨Float.Model.pack (.finite s k t pos)⟩ : Float) =
      ⟨Float.Model.pack (.finite (-s) k t pos)⟩ := by
  change (⟨Float.Model.pack (Float.Model.pack (.finite s k t pos)).unpack.neg⟩ : Float) = _
  by_cases most : t ≤ 971
  · rw [unpack_pack_normal s pos low high least most, UnpackedFloat.neg]
  · rw [pack_of_large s pos (by omega), pack_of_large (-s) pos (by omega),
      unpack_pack_infinity, UnpackedFloat.neg]

/-! The order of the numbers. -/

/-- The number that a significand and an exponent stand for. -/
def value? : Binary64 → Option ℚ
  | .finite negative m q => some ((if negative then -1 else 1) * (m * 2 ^ q))
  | _ => none

/-- The significand of a float has 53 bits, or fewer with the least exponent. -/
structure Canonical (m : ℕ) (q : ℤ) : Prop where
  high : m < 2 ^ 53
  least : -1074 ≤ q
  low : 2 ^ 52 ≤ m ∨ q = -1074

theorem canonical_of_ofBits {bits : UInt64} {negative : Bool} {m : ℕ} {q : ℤ}
    (h : ofBits bits = .finite negative m q) : Canonical m q := by
  have fraction : bits.toNat % 1 <<< 52 < 2 ^ 52 := Nat.mod_lt _ (by decide)
  have leading : (1 <<< 52 : ℕ) = 2 ^ 52 := Nat.one_shiftLeft 52
  simp only [ofBits] at h
  split at h
  · split at h <;> cases h
  · split at h
    · cases h
      exact ⟨by omega, le_refl _, Or.inr rfl⟩
    · cases h
      exact ⟨by omega, by omega, Or.inl (by omega)⟩

/-- A larger exponent makes a larger number. -/
theorem Canonical.lt_of_exponent {m n : ℕ} {q r : ℤ} (hm : Canonical m q) (hn : Canonical n r)
    (less : q < r) : (m : ℚ) * 2 ^ q < n * 2 ^ r := by
  have low : 2 ^ 52 ≤ n := hn.low.resolve_right (by have := hm.least; omega)
  have power : (0 : ℚ) < 2 ^ q := by positivity
  calc (m : ℚ) * 2 ^ q
      < 2 ^ 53 * 2 ^ q := by
        apply mul_lt_mul_of_pos_right _ power
        exact_mod_cast hm.high
    _ = 2 ^ 52 * 2 ^ (q + 1) := by
        rw [zpow_add_one₀ two_ne_zero]
        ring
    _ ≤ n * 2 ^ r := by
        apply mul_le_mul
        · exact_mod_cast low
        · exact zpow_le_zpow_right₀ one_le_two less
        · positivity
        · positivity

/-- Exponents are compared first, and significands where they agree. -/
theorem Canonical.compare_eq {m n : ℕ} {q r : ℤ} (hm : Canonical m q) (hn : Canonical n r) :
    (compare q r).then (compare m n) = compare ((m : ℚ) * 2 ^ q) (n * 2 ^ r) := by
  rcases lt_trichotomy q r with less | rfl | greater
  · rw [compare_lt_iff_lt.2 less, compare_lt_iff_lt.2 (hm.lt_of_exponent hn less)]
    rfl
  · have power : (0 : ℚ) < 2 ^ q := by positivity
    rw [compare_eq_iff_eq.2 (rfl : q = q), Ordering.eq_then]
    rcases lt_trichotomy m n with less | rfl | greater
    · rw [compare_lt_iff_lt.2 less, compare_lt_iff_lt.2]
      exact mul_lt_mul_of_pos_right (by exact_mod_cast less) power
    · rw [compare_eq_iff_eq.2 rfl, compare_eq_iff_eq.2 rfl]
    · rw [compare_gt_iff_gt.2 greater, compare_gt_iff_gt.2]
      exact mul_lt_mul_of_pos_right (by exact_mod_cast greater) power
  · rw [compare_gt_iff_gt.2 greater, compare_gt_iff_gt.2 (hn.lt_of_exponent hm greater)]
    rfl

theorem compare_neg (a b : ℚ) : compare (-a) (-b) = (compare a b).swap := by
  rcases lt_trichotomy a b with less | rfl | greater
  · rw [compare_lt_iff_lt.2 less, compare_gt_iff_gt.2 (neg_lt_neg less)]
    rfl
  · rw [compare_eq_iff_eq.2 rfl, compare_eq_iff_eq.2 rfl]
    rfl
  · rw [compare_gt_iff_gt.2 greater, compare_lt_iff_lt.2 (neg_lt_neg greater)]
    rfl

/-- An unpacked float that stands for a number. -/
inductive Stands : UnpackedFloat → ℚ → Prop where
  | zero (s : Sign) : Stands (.zero s) 0
  | positive {m : ℕ} {q : ℤ} (pos : 0 < m) (canonical : Canonical m q) :
      Stands (.finite .positive m q pos) (m * 2 ^ q)
  | negative {m : ℕ} {q : ℤ} (pos : 0 < m) (canonical : Canonical m q) :
      Stands (.finite .negative m q pos) (-(m * 2 ^ q))

theorem stands_of_value? {x : Float} {a : ℚ} (h : (ofFloat x).value? = some a) :
    Stands x.toModel.unpack a := by
  have canonical {negative : Bool} {m : ℕ} {q : ℤ} (number : ofFloat x = .finite negative m q) :
      Canonical m q := canonical_of_ofBits number
  rw [ofFloat_eq_ofUnpacked] at h canonical
  generalize x.toModel.unpack = u at h canonical
  cases u with
  | infinity s => cases h
  | notANumber => cases h
  | zero s =>
      obtain rfl : a = 0 := by simpa [ofUnpacked, value?] using h.symm
      exact .zero s
  | finite s m q pos =>
      cases s with
      | positive =>
          obtain rfl : a = m * 2 ^ q := by simpa [ofUnpacked, value?] using h.symm
          exact .positive pos (canonical rfl)
      | negative =>
          obtain rfl : a = -(m * 2 ^ q) := by simpa [ofUnpacked, value?] using h.symm
          exact .negative pos (canonical rfl)

/-- Unpacked floats are compared as the numbers they stand for. -/
theorem Stands.compare_eq {u v : UnpackedFloat} {a b : ℚ} (hu : Stands u a) (hv : Stands v b) :
    u.compare v = some (compare a b) := by
  have size {m : ℕ} {q : ℤ} (pos : 0 < m) : 0 < (m : ℚ) * 2 ^ q := by positivity
  cases hu with
  | zero s =>
      cases hv with
      | zero t => rw [compare_eq_iff_eq.2 rfl, UnpackedFloat.compare]
      | positive pos => rw [compare_lt_iff_lt.2 (size pos), UnpackedFloat.compare]
      | negative pos =>
          rw [compare_gt_iff_gt.2 (neg_lt_zero.2 (size pos)), UnpackedFloat.compare]
  | positive posu hu =>
      cases hv with
      | zero t => rw [compare_gt_iff_gt.2 (size posu), UnpackedFloat.compare]
      | positive pos hv => rw [UnpackedFloat.compare, hu.compare_eq hv]
      | negative pos =>
          rw [compare_gt_iff_gt.2 ((neg_lt_zero.2 (size pos)).trans (size posu)),
            UnpackedFloat.compare]
  | negative posu hu =>
      cases hv with
      | zero t => rw [compare_lt_iff_lt.2 (neg_lt_zero.2 (size posu)), UnpackedFloat.compare]
      | positive pos =>
          rw [compare_lt_iff_lt.2 ((neg_lt_zero.2 (size posu)).trans (size pos)),
            UnpackedFloat.compare]
      | negative pos hv => rw [UnpackedFloat.compare, hu.compare_eq hv, compare_neg]

section

variable {x y : Float} {a b : ℚ} (hx : (ofFloat x).value? = some a)
  (hy : (ofFloat y).value? = some b)

include hx hy

theorem lt_iff_value_lt : x < y ↔ a < b := by
  have same := (stands_of_value? hx).compare_eq (stands_of_value? hy)
  change decide (x.toModel.unpack.lt y.toModel.unpack = true) = true ↔ _
  rw [decide_eq_true_iff, UnpackedFloat.lt, same, beq_iff_eq, Option.some.injEq, compare_lt_iff_lt]

theorem le_iff_value_le : x ≤ y ↔ a ≤ b := by
  have same := (stands_of_value? hx).compare_eq (stands_of_value? hy)
  change decide (x.toModel.unpack.le y.toModel.unpack = true) = true ↔ _
  rw [decide_eq_true_iff, UnpackedFloat.le, same, Option.any_some, ← compare_le_iff_le]
  cases compare a b <;> decide

end

/-- What is no number lies between no two of them. -/
theorem not_between_of_value?_none {x low high : Float} {a b : ℚ} (h : (ofFloat x).value? = none)
    (hl : (ofFloat low).value? = some a) (hh : (ofFloat high).value? = some b) :
    ¬(low ≤ x ∧ x < high) := by
  have standsLow := stands_of_value? hl
  have standsHigh := stands_of_value? hh
  change ¬(decide (low.toModel.unpack.le x.toModel.unpack = true) = true ∧
    decide (x.toModel.unpack.lt high.toModel.unpack = true) = true)
  rw [ofFloat_eq_ofUnpacked] at h
  generalize x.toModel.unpack = u at h
  generalize low.toModel.unpack = l at standsLow
  generalize high.toModel.unpack = r at standsHigh
  cases u with
  | notANumber => cases standsLow <;> simp [UnpackedFloat.le, UnpackedFloat.compare]
  | infinity s =>
      cases s with
      | positive => cases standsHigh <;> simp [UnpackedFloat.lt, UnpackedFloat.compare]
      | negative => cases standsLow <;> simp [UnpackedFloat.le, UnpackedFloat.compare]
  | zero s => cases h
  | finite s m q pos => cases h

end Sulti.Binary64
