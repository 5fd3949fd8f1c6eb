import Sulti.Input
import Sulti.Proofs.Binary64.Rounding

/-!
Which integers a field of digits brings into a `NUMERO`. An integer of 64 bits
is stored as it is. A field beyond that range is read once more as a real
number, so it is the float nearest to it that has to fit: above the range none
does, but just below it the nearest float is the least `NUMERO` itself, and
that is what `1024` integers are stored as. All others are refused.
-/

namespace Sulti.Decimal

/-- An optional sign and at least one decimal digit, and the integer that they
denote. -/
inductive Spells : List Char → Int → Prop where
  | plain {digits : List Char} : digits ≠ [] → (∀ c ∈ digits, c.isDigit) →
      Spells digits (ofDigits digits)
  | plus {digits : List Char} : digits ≠ [] → (∀ c ∈ digits, c.isDigit) →
      Spells ('+' :: digits) (ofDigits digits)
  | minus {digits : List Char} : digits ≠ [] → (∀ c ∈ digits, c.isDigit) →
      Spells ('-' :: digits) (-ofDigits digits)

theorem Spells.takeSign {field : List Char} {n : Int} (h : Spells field n) :
    ∃ negative digits, Decimal.takeSign field = (negative, digits) ∧ digits ≠ [] ∧
      (∀ c ∈ digits, c.isDigit) ∧
      n = if negative then -(ofDigits digits : Int) else ofDigits digits := by
  cases h with
  | plain nonempty all => exact ⟨false, _, takeSign_of_digits all, nonempty, all, rfl⟩
  | plus nonempty all => exact ⟨false, _, rfl, nonempty, all, rfl⟩
  | minus nonempty all => exact ⟨true, _, rfl, nonempty, all, rfl⟩

theorem Spells.readInt? {field : List Char} {n : Int} (h : Spells field n) :
    Decimal.readInt? field = some n := by
  obtain ⟨negative, digits, split, nonempty, all, rfl⟩ := h.takeSign
  simp only [Decimal.readInt?, split]
  rw [if_pos (by simpa [nonempty] using all)]

theorem toLower_of_isDigit {c : Char} (h : c.isDigit) : c.toLower = c := by
  simp only [Char.isDigit, Bool.and_eq_true, decide_eq_true_eq, UInt32.le_iff_toNat_le] at h
  have nine : '9'.val.toNat = 57 := rfl
  have capital : ¬ ('A'.val ≤ c.val ∧ c.val ≤ 'Z'.val) := by
    simp only [UInt32.le_iff_toNat_le]
    have : 'A'.val.toNat = 65 := rfl
    omega
  unfold Char.toLower
  rw [dif_neg capital]

/-- Each word for a number that is not finite begins with a letter. -/
theorem readWord?_of_digits {digits : List Char} (all : ∀ c ∈ digits, c.isDigit) :
    readWord? digits = none := by
  have same : digits.map Char.toLower = digits :=
    (List.map_congr_left fun c hc => toLower_of_isDigit (all c hc)).trans (List.map_id digits)
  have word : ∀ w : String, ¬ (w.toList.all Char.isDigit) → String.ofList digits ≠ w := by
    rintro w letter rfl
    exact letter (by simpa using all)
  unfold readWord?
  rw [same]
  split
  next h => exact absurd h (word _ (by decide))
  next h => exact absurd h (word _ (by decide))
  next h => exact absurd h (word _ (by decide))
  next => rfl

theorem readUnsigned?_of_digits {digits : List Char} (nonempty : digits ≠ [])
    (all : ∀ c ∈ digits, c.isDigit) :
    readUnsigned? digits = some (nearest (ofDigits digits) 0) := by
  have whole : digits.takeWhile Char.isDigit = digits := List.takeWhile_eq_self_iff.2 all
  have rest : digits.dropWhile Char.isDigit = [] := List.dropWhile_eq_nil_iff.2 all
  simp [readUnsigned?, whole, rest, nonempty, readExponent?]

theorem nearest_whole {m : Nat} (pos : 0 < m) (short : width m ≤ 310) :
    nearest m 0 = Float.ofScientific m false 0 := by
  rw [nearest, if_neg (by omega), if_neg (by omega)]
  rfl

/-- Above the range of a `NUMERO` no float fits, and below it only the least
one does. -/
theorem ofReal?_nearest (negative : Bool) {m : Nat} (large : 2 ^ 63 ≤ m) :
    Numero.ofReal? (if negative then -nearest m 0 else nearest m 0) =
      if negative ∧ m ≤ 2 ^ 63 + 1024 then Numero.ofInt? (-2 ^ 63) else none := by
  have rounding := Binary64.nearestLong_cases large
  by_cases near : m ≤ 2 ^ 63 + 1024
  · have short : width m ≤ 20 := (Nat.length_toDigits_le_iff (by decide) (by decide)).2 (by omega)
    have rounded : Binary64.nearestLong m = 2 ^ 63 := by omega
    rw [nearest_whole (by omega) (by omega), Binary64.ofReal?_of_long negative (by omega), rounded]
    cases negative with
    | false => rfl
    | true => exact (if_pos ⟨rfl, near⟩).symm
  · rw [if_neg (show ¬ (negative = true ∧ m ≤ 2 ^ 63 + 1024) from fun h => near h.2)]
    by_cases short : width m ≤ 310
    · rw [nearest_whole (by omega) short, Binary64.ofReal?_of_long negative (by omega),
        Numero.ofInt?_eq_none_iff]
      split <;> omega
    · have infinite : nearest m 0 = Float.ofBits 0x7ff0000000000000 := by
        rw [nearest, if_neg (by omega), if_pos (by omega)]
      rw [infinite]
      cases negative <;> rfl

end Sulti.Decimal

namespace Sulti.Input

open Decimal

theorem readNumero?_of_spells {field : List Char} {n : Int} (h : Spells field n) :
    readNumero? field =
      if -2 ^ 63 - 1024 ≤ n ∧ n < -2 ^ 63 then Numero.ofInt? (-2 ^ 63) else Numero.ofInt? n := by
  unfold readNumero?
  rw [h.readInt?, Option.bind_some]
  cases fits : Numero.ofInt? n with
  | some m =>
    have value := Numero.val_of_ofInt? fits
    have lower := m.lower
    rw [if_neg (by omega)]
  | none =>
    -- The integer does not fit, and the field is read again as a real number.
    obtain ⟨negative, digits, split, nonempty, all, value⟩ := h.takeSign
    have outside := Numero.ofInt?_eq_none_iff.1 fits
    have large : 2 ^ 63 ≤ ofDigits digits := by
      rw [value] at outside
      split at outside <;> omega
    have band : (negative = true ∧ ofDigits digits ≤ 2 ^ 63 + 1024) ↔
        (-2 ^ 63 - 1024 ≤ n ∧ n < -2 ^ 63) := by
      cases negative <;> simp at value ⊢ <;> omega
    have real : readReal? field =
        some (if negative then -nearest (ofDigits digits) 0 else nearest (ofDigits digits) 0) := by
      simp only [readReal?, split, readWord?_of_digits all, readUnsigned?_of_digits nonempty all]
      rfl
    simp only [real, Option.bind_some, ofReal?_nearest negative large, band]

/-- An integer of 64 bits is stored as it is. Of the others those from
`-2^63 - 1024` on are stored as `-2^63`, and the rest is refused. -/
theorem convert_of_spells {field : List Char} {n : Int} (h : Spells field n) (position : Position)
    (name : String) :
    (-2 ^ 63 ≤ n → n < 2 ^ 63 →
      ∃ m : Numero, m.val = n ∧ convert position name .numero field = .ok (.numero m)) ∧
    (-2 ^ 63 - 1024 ≤ n → n < -2 ^ 63 →
      ∃ m : Numero, m.val = -2 ^ 63 ∧ convert position name .numero field = .ok (.numero m)) ∧
    (n < -2 ^ 63 - 1024 ∨ 2 ^ 63 ≤ n →
      convert position name .numero field =
        .error (.invalidInput position name .numero (String.ofList field))) := by
  have value := readNumero?_of_spells h
  refine ⟨fun lower upper => ?_, fun lower upper => ?_, fun outside => ?_⟩
  · have fits : Numero.ofInt? n = some ⟨n, by omega, by omega⟩ := dif_pos (by omega)
    rw [if_neg (by omega), fits] at value
    exact ⟨⟨n, by omega, by omega⟩, rfl, by simp only [convert, value]⟩
  · rw [if_pos (by omega)] at value
    exact ⟨⟨-2 ^ 63, by decide, by decide⟩, rfl, by simp only [convert, value]; rfl⟩
  · rw [if_neg (by omega), Numero.ofInt?_eq_none_iff.2 (by omega)] at value
    simp only [convert, value]

theorem convert_of_spells_above :
    Spells "+9223372036854775808".toList 9223372036854775808 ∧
      convert ⟨3, 1⟩ "x" .numero "+9223372036854775808".toList =
        .error (.invalidInput ⟨3, 1⟩ "x" .numero "+9223372036854775808") := by
  have value : ofDigits "9223372036854775808".toList = 9223372036854775808 := by decide
  have spells := @Spells.plus "9223372036854775808".toList (by decide) (by simp)
  rw [value] at spells
  exact ⟨spells, (convert_of_spells spells ⟨3, 1⟩ "x").2.2 (by omega)⟩

/-- An integer below the range is stored as the least `NUMERO`. -/
theorem convert_below_least :
    Spells "-9223372036854775809".toList (-9223372036854775809) ∧
      (-9223372036854775809 : Int) < -2 ^ 63 ∧
      convert ⟨3, 1⟩ "x" .numero "-9223372036854775809".toList =
        .ok (.numero ⟨-9223372036854775808, by decide, by decide⟩) := by
  have value : ofDigits "9223372036854775809".toList = 9223372036854775809 := by decide
  have spells := @Spells.minus "9223372036854775809".toList (by decide) (by simp)
  rw [value] at spells
  exact ⟨spells, by decide, by rfl⟩

end Sulti.Input
