import Mathlib.Data.Rat.Floor
import Sulti.Value

/-!
Arithmetic on integers is exact or fails. A sum, difference or product is the one of
the integers, or there is an overflow; it is never wrapped. A quotient is rounded
toward zero and comes with the remainder that belongs to it, which has the sign of the
dividend. Of all pairs with a divisor other than zero there is one whose quotient does
not fit, the least integer by `-1`. The remainder is refused for it as well, though it
would be zero.
-/

namespace Sulti

/-- A rational number without its fraction. -/
def towardZero (x : ℚ) : ℤ := if 0 ≤ x then ⌊x⌋ else ⌈x⌉

/-- The quotient and the remainder of a division that leaves the remainder with the sign of
the dividend. -/
structure Division (l r q m : ℤ) : Prop where
  whole : l = q * r + m
  small : |m| < |r|
  sign : m = 0 ∨ m.sign = l.sign

namespace Division

variable {l r q m : ℤ}

theorem of_tdiv (hr : r ≠ 0) : Division l r (l.tdiv r) (l.tmod r) where
  whole := (Int.tdiv_mul_add_tmod l r).symm
  small := by
    have size : (l.tmod r).natAbs = l.natAbs % r.natAbs := Int.natAbs_tmod l r
    have less : l.natAbs % r.natAbs < r.natAbs := Nat.mod_lt _ (Int.natAbs_pos.mpr hr)
    rw [Int.abs_eq_natAbs, Int.abs_eq_natAbs]
    omega
  sign := by
    have sign := Int.sign_tmod l r
    split at sign
    · exact Or.inl (Int.sign_eq_zero_iff_zero.mp sign)
    · exact Or.inr sign

theorem remainder_nonneg (h : Division l r q m) (hl : 0 ≤ l) : 0 ≤ m := by
  rcases h.sign with rfl | same
  · exact le_rfl
  · rwa [← Int.sign_nonneg_iff, same, Int.sign_nonneg_iff]

theorem remainder_nonpos (h : Division l r q m) (hl : l ≤ 0) : m ≤ 0 := by
  rcases h.sign with rfl | same
  · exact le_rfl
  · rwa [← Int.sign_nonpos_iff, same, Int.sign_nonpos_iff]

/-- What is cut off a quotient has the sign of the quotient. -/
theorem fraction_sign (h : Division l r q m) (hr : r ≠ 0) :
    0 ≤ (l : ℚ) / r ∧ 0 ≤ (m : ℚ) / r ∨ (l : ℚ) / r < 0 ∧ (m : ℚ) / r ≤ 0 := by
  rcases lt_or_gt_of_ne hr with negative | positive
  · have hr : (r : ℚ) < 0 := Int.cast_lt_zero.mpr negative
    rcases le_or_gt l 0 with hl | hl
    · have hm : (m : ℚ) ≤ 0 := Int.cast_nonpos.mpr (h.remainder_nonpos hl)
      exact Or.inl ⟨div_nonneg_of_nonpos (Int.cast_nonpos.mpr hl) hr.le,
        div_nonneg_of_nonpos hm hr.le⟩
    · have hm : (0 : ℚ) ≤ m := Int.cast_nonneg (h.remainder_nonneg hl.le)
      exact Or.inr ⟨div_neg_of_pos_of_neg (Int.cast_pos.mpr hl) hr,
        div_nonpos_of_nonneg_of_nonpos hm hr.le⟩
  · have hr : (0 : ℚ) < r := Int.cast_pos.mpr positive
    rcases le_or_gt 0 l with hl | hl
    · have hm : (0 : ℚ) ≤ m := Int.cast_nonneg (h.remainder_nonneg hl)
      exact Or.inl ⟨div_nonneg (Int.cast_nonneg hl) hr.le, div_nonneg hm hr.le⟩
    · have hm : (m : ℚ) ≤ 0 := Int.cast_nonpos.mpr (h.remainder_nonpos hl.le)
      exact Or.inr ⟨div_neg_of_neg_of_pos (Int.cast_lt_zero.mpr hl) hr,
        div_nonpos_of_nonpos_of_nonneg hm hr.le⟩

/-- Such a quotient is rounded toward zero. -/
theorem quotient (h : Division l r q m) (hr : r ≠ 0) : q = towardZero (l / r) := by
  have divisor : (r : ℚ) ≠ 0 := Int.cast_ne_zero.mpr hr
  have parts : (l : ℚ) / r = q + m / r := by
    rw [h.whole]
    push_cast
    field_simp
  have short : |(m : ℚ) / r| < 1 := by
    rw [abs_div, div_lt_one (abs_pos.mpr divisor)]
    exact_mod_cast h.small
  obtain ⟨above, below⟩ := abs_lt.mp short
  rcases h.fraction_sign hr with ⟨whole, cut⟩ | ⟨whole, cut⟩
  · rw [towardZero, if_pos whole, eq_comm, Int.floor_eq_iff, parts]
    constructor <;> linarith
  · rw [towardZero, if_neg whole.not_ge, eq_comm, Int.ceil_eq_iff, parts]
    constructor <;> linarith

end Division

namespace Numero

theorem exists_ofInt? {n : ℤ} (lower : -2 ^ 63 ≤ n) (upper : n ≤ 2 ^ 63 - 1) :
    ∃ m, ofInt? n = some m ∧ m.val = n :=
  ⟨⟨n, by omega, by omega⟩, dif_pos (by omega), rfl⟩

/-- Of the quotients by a divisor other than zero, one does not fit. -/
theorem div?_eq_none_iff {l r : Numero} (hr : r.val ≠ 0) :
    l.div? r = none ↔ l.val = -2 ^ 63 ∧ r.val = -1 := by
  have lower := l.lower
  have upper := l.upper
  have size : (l.val.tdiv r.val).natAbs = l.val.natAbs / r.val.natAbs := Int.natAbs_tdiv ..
  rw [div?, if_neg hr, ofInt?_eq_none_iff]
  by_cases opposite : r.val = -1
  · have quotient : l.val.tdiv r.val = -l.val := by rw [opposite, Int.tdiv_neg, Int.tdiv_one]
    omega
  · by_cases same : r.val = 1
    · have quotient : l.val.tdiv r.val = l.val := by rw [same, Int.tdiv_one]
      omega
    · have half : l.val.natAbs / r.val.natAbs ≤ l.val.natAbs / 2 :=
        Nat.div_le_div_left (by omega) (by decide)
      omega

/-- A quotient comes with its remainder. -/
theorem division_of_div? {l r q : Numero} (hr : r.val ≠ 0) (h : l.div? r = some q) :
    ∃ m, l.mod? r = some m ∧ Division l.val r.val q.val m.val := by
  have lower := r.lower
  have upper := r.upper
  have division : Division l.val r.val (l.val.tdiv r.val) (l.val.tmod r.val) := .of_tdiv hr
  have small := division.small
  rw [Int.abs_eq_natAbs, Int.abs_eq_natAbs] at small
  obtain ⟨m, fits, remainder⟩ := exists_ofInt? (n := l.val.tmod r.val) (by omega) (by omega)
  refine ⟨m, ?_, ?_⟩
  · rw [mod?, h, Option.isSome_some, if_pos rfl, fits]
  · rw [div?, if_neg hr] at h
    rwa [val_of_ofInt? h, remainder]

end Numero

namespace Value

/-- The outcome is the integer `m` if it has 64 bits, and otherwise an overflow. -/
def Exactly (a : Arith) (m : ℤ) (outcome : Except Fault Value) : Prop :=
  if -2 ^ 63 ≤ m ∧ m ≤ 2 ^ 63 - 1 then ∃ n : Numero, n.val = m ∧ outcome = .ok (.numero n)
  else outcome = .error (.overflow (.arith a))

theorem exactly_of_ofInt? {a : Arith} {l r : Numero} {m : ℤ} (plain : a.divides = false)
    (h : a.onIntegers l r = Numero.ofInt? m) :
    Exactly a m (apply (.arith a) (.numero l) (.numero r)) := by
  unfold Exactly
  split
  · rename_i fits
    obtain ⟨n, fitted, value⟩ := Numero.exists_ofInt? fits.1 fits.2
    refine ⟨n, value, ?_⟩
    simp [apply, calculate, plain, h, fitted]
  · have none : Numero.ofInt? m = none := Numero.ofInt?_eq_none_iff.mpr (by omega)
    simp [apply, calculate, plain, h, none]

theorem apply_of_zero {a : Arith} (divides : a ∈ [Arith.div, .mod]) (l : Numero) {r : Numero}
    (hr : r.val = 0) : apply (.arith a) (.numero l) (.numero r) = .error .divisionByZero := by
  have divisor : a.divides = true := by
    rcases List.mem_pair.mp divides with rfl | rfl <;> rfl
  simp [apply, divisor, isZero, hr]

theorem apply_of_some {a : Arith} {l r n : Numero} (hr : r.val ≠ 0)
    (h : a.onIntegers l r = some n) :
    apply (.arith a) (.numero l) (.numero r) = .ok (.numero n) := by
  simp [apply, calculate, isZero, hr, h]

theorem apply_of_none {a : Arith} {l r : Numero} (hr : r.val ≠ 0)
    (h : a.onIntegers l r = none) :
    apply (.arith a) (.numero l) (.numero r) = .error (.overflow (.arith a)) := by
  simp [apply, calculate, isZero, hr, h]

/-- Both operators that divide have no result for the same operands. -/
theorem onIntegers_eq_none_iff {a : Arith} (divides : a ∈ [Arith.div, .mod]) {l r : Numero}
    (hr : r.val ≠ 0) : a.onIntegers l r = none ↔ l.val = -2 ^ 63 ∧ r.val = -1 := by
  rw [← Numero.div?_eq_none_iff hr]
  rcases List.mem_pair.mp divides with rfl | rfl
  · exact Iff.rfl
  · change l.mod? r = none ↔ l.div? r = none
    cases h : l.div? r with
    | none => simp [Numero.mod?, h]
    | some q =>
        obtain ⟨m, remainder, _⟩ := Numero.division_of_div? hr h
        simp [remainder]

/-- Arithmetic on integers of 64 bits is exact. A sum, difference or product that does not fit
is an overflow. The two operators that divide fail on a zero divisor and overflow for the least
integer by `-1`, and on nothing else; they give the quotient rounded toward zero and the
remainder that goes with it. -/
theorem apply_integers_exact (l r : Numero) :
    let outcome (a : Arith) := apply (.arith a) (.numero l) (.numero r)
    Exactly .add (l.val + r.val) (outcome .add) ∧
    Exactly .sub (l.val - r.val) (outcome .sub) ∧
    Exactly .mul (l.val * r.val) (outcome .mul) ∧
    (∀ a ∈ [Arith.div, .mod],
      (outcome a = .error .divisionByZero ↔ r.val = 0) ∧
      (outcome a = .error (.overflow (.arith a)) ↔ l.val = -2 ^ 63 ∧ r.val = -1)) ∧
    (r.val ≠ 0 → ¬(l.val = -2 ^ 63 ∧ r.val = -1) →
      ∃ q m : Numero, outcome .div = .ok (.numero q) ∧ outcome .mod = .ok (.numero m) ∧
        q.val = towardZero (l.val / r.val) ∧ l.val = q.val * r.val + m.val ∧
        |m.val| < |r.val| ∧ (m.val = 0 ∨ m.val.sign = l.val.sign)) := by
  intro outcome
  refine ⟨exactly_of_ofInt? rfl rfl, exactly_of_ofInt? rfl rfl, exactly_of_ofInt? rfl rfl, ?_, ?_⟩
  · intro a divides
    by_cases hr : r.val = 0
    · have zero : outcome a = .error .divisionByZero := apply_of_zero divides l hr
      simp [zero, hr]
    · rw [← onIntegers_eq_none_iff divides hr]
      cases h : a.onIntegers l r with
      | none => simp [outcome, apply_of_none hr h, hr]
      | some n => simp [outcome, apply_of_some hr h, hr]
  · intro hr fits
    cases h : l.div? r with
    | none => exact absurd ((Numero.div?_eq_none_iff hr).mp h) fits
    | some q =>
        obtain ⟨m, remainder, division⟩ := Numero.division_of_div? hr h
        exact ⟨q, m, apply_of_some hr h, apply_of_some hr remainder, division.quotient hr,
          division.whole, division.small, division.sign⟩

/-- A quotient of different signs, and the one quotient that does not fit. -/
theorem apply_integers_exact_negative :
    let seven : Numero := ⟨-7, by decide, by decide⟩
    let two : Numero := ⟨2, by decide, by decide⟩
    let least : Numero := ⟨-9223372036854775808, by decide, by decide⟩
    let opposite : Numero := ⟨-1, by decide, by decide⟩
    (∃ q m : Numero, apply (.arith .div) (.numero seven) (.numero two) = .ok (.numero q) ∧
      apply (.arith .mod) (.numero seven) (.numero two) = .ok (.numero m) ∧
      q.val = -3 ∧ m.val = -1) ∧
    apply (.arith .mod) (.numero least) (.numero opposite) =
      .error (.overflow (.arith .mod)) := by
  intro seven two least opposite
  constructor
  · obtain ⟨q, m, quotient, remainder, _, whole, small, sign⟩ :=
      (apply_integers_exact seven two).2.2.2.2 (by decide) (by decide)
    refine ⟨q, m, quotient, remainder, ?_⟩
    change -7 = q.val * 2 + m.val at whole
    change |m.val| < 2 at small
    have odd : m.val ≠ 0 := by omega
    have negative : m.val < 0 := Int.sign_eq_neg_one_iff_neg.mp (sign.resolve_left odd)
    have bounds := abs_lt.mp small
    omega
  · have overflow := ((apply_integers_exact least opposite).2.2.2.1 .mod (by simp)).2
    exact overflow.mpr ⟨rfl, rfl⟩

end Value

end Sulti
