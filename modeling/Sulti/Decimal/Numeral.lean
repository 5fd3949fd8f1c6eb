import Sulti.Decimal.Integer
import Sulti.Decimal.Shortest

/-!
Real numbers read from text. Besides a sign and digits there may be a point
and an exponent, or one of the words for the infinities and for no number.
The result is the nearest floating-point number.
-/

namespace Sulti.Decimal

/-- The nearest floating-point number to `count · 10^place`. Numbers beyond
`10^310` are infinite and those below `10^-400` are zero, so no great power of
ten is ever computed. -/
def nearest (count : Nat) (place : Int) : Float :=
  let size := (width count : Int) + place
  if count = 0 ∨ size < -400 then
    Float.ofBits 0
  else if 310 < size then
    Float.ofBits 0x7ff0000000000000
  else
    Float.ofScientific count (decide (place < 0)) place.natAbs

/-- The exponent part: nothing at all, or an `e` with a signed number. -/
def readExponent? : List Char → Option Int
  | [] => some 0
  | mark :: rest => if mark = 'e' ∨ mark = 'E' then readInt? rest else none

/-- Digits with at most one point and an optional exponent. The point may
stand at either end, but there has to be a digit. -/
def readUnsigned? (text : List Char) : Option Float :=
  let whole := text.takeWhile Char.isDigit
  let rest := text.dropWhile Char.isDigit
  let (fraction, rest) := match rest with
    | '.' :: more => (more.takeWhile Char.isDigit, more.dropWhile Char.isDigit)
    | _ => ([], rest)
  if whole.isEmpty && fraction.isEmpty then
    none
  else
    (readExponent? rest).map fun exponent =>
      nearest (ofDigits (whole ++ fraction)) (exponent - fraction.length)

/-- The words for what is not finite, in any mix of cases. -/
def readWord? (text : List Char) : Option Float :=
  match String.ofList (text.map Char.toLower) with
  | "inf" | "infinity" => some (Float.ofBits 0x7ff0000000000000)
  | "nan" => some (Float.ofBits 0x7ff8000000000000)
  | _ => none

def readReal? (text : List Char) : Option Float :=
  let (negative, rest) := takeSign text
  (readWord? rest <|> readUnsigned? rest).map fun x => if negative then -x else x

end Sulti.Decimal
