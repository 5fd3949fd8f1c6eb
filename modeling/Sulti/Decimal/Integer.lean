/-!
Whole numbers in decimal. Writing gives a minus sign where one is needed and
digits without leading zeros; reading also takes a plus sign and leading
zeros, and undoes writing.
-/

namespace Sulti.Decimal

/-- The natural number that a list of decimal digits denotes. -/
def ofDigits (digits : List Char) : Nat := Nat.ofDigitChars 10 digits 0

def writeInt (n : Int) : List Char :=
  if n < 0 then '-' :: Nat.toDigits 10 n.natAbs else Nat.toDigits 10 n.natAbs

/-- Splits off a sign; `true` is a minus. -/
def takeSign : List Char → Bool × List Char
  | '-' :: rest => (true, rest)
  | '+' :: rest => (false, rest)
  | text => (false, text)

/-- An optional sign and at least one digit, and nothing else. -/
def readInt? (text : List Char) : Option Int :=
  let (negative, digits) := takeSign text
  if !digits.isEmpty && digits.all Char.isDigit then
    some (if negative then -(ofDigits digits : Int) else ofDigits digits)
  else
    none

theorem takeSign_of_digits {text : List Char} (h : ∀ c ∈ text, c.isDigit) :
    takeSign text = (false, text) := by
  unfold takeSign
  split
  · exact absurd (h '-' (by simp)) (by decide)
  · exact absurd (h '+' (by simp)) (by decide)
  · rfl

theorem readInt?_writeInt (n : Int) : readInt? (writeInt n) = some n := by
  have digits : ∀ c ∈ Nat.toDigits 10 n.natAbs, c.isDigit := fun c hc =>
    Nat.isDigit_of_mem_toDigits (by decide) (by decide) hc
  have nonempty : (Nat.toDigits 10 n.natAbs).isEmpty = false := by
    simp [Nat.toDigits_ne_nil]
  have value : ofDigits (Nat.toDigits 10 n.natAbs) = n.natAbs :=
    Nat.ofDigitChars_ten_toDigits
  unfold writeInt
  split
  · simp only [readInt?, takeSign, nonempty, List.all_eq_true.2 digits, value, Bool.not_false,
      Bool.and_self, if_true]
    simp only [Option.some.injEq]
    omega
  · simp only [readInt?, takeSign_of_digits digits, nonempty, List.all_eq_true.2 digits, value,
      Bool.not_false, Bool.and_self, if_true, Bool.false_eq_true, if_false]
    simp only [Option.some.injEq]
    omega

end Sulti.Decimal
