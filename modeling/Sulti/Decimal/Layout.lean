import Sulti.Binary64
import Sulti.Decimal.Integer
import Sulti.Decimal.Shortest

/-!
How the digits of a number are laid out as text: positionally, or as a
significand and a power of ten. What differs between one use and another is
a `Layout`; the digits themselves are always the shortest ones.
-/

namespace Sulti.Decimal

structure Layout where
  /-- Which exponents are written positionally. -/
  positional : Int → Bool
  /-- Whether a whole number written positionally ends in `.0`. -/
  pointed : Bool

/-- Digits with the point where it belongs, padded with zeros. -/
def Scientific.positional (s : Scientific) (pointed : Bool) : List Char :=
  if s.exponent < 0 then
    '0' :: '.' :: (List.replicate (-s.exponent - 1).toNat '0' ++ s.digits)
  else
    let whole := s.exponent.toNat + 1
    if s.digits.length ≤ whole then
      s.digits ++ List.replicate (whole - s.digits.length) '0' ++
        (if pointed then ['.', '0'] else [])
    else
      s.digits.take whole ++ '.' :: s.digits.drop whole

/-- One digit before the point, and the exponent after an `e`. -/
def Scientific.exponential (s : Scientific) : List Char :=
  let fraction := s.digits.drop 1
  s.digits.take 1 ++ (if fraction.isEmpty then [] else '.' :: fraction) ++
    'e' :: writeInt s.exponent

def Scientific.layOut (layout : Layout) (s : Scientific) : List Char :=
  if layout.positional s.exponent then s.positional layout.pointed else s.exponential

/-- The text of a floating-point number. The sign of a zero is kept. -/
def render (layout : Layout) (x : Float) : String :=
  match Binary64.ofFloat x with
  | .nan => "NaN"
  | .infinite negative => if negative then "-inf" else "inf"
  | .finite negative m q =>
      let digits := if m = 0 then ⟨['0'], 0⟩ else shortest m q
      let text := String.ofList (digits.layOut layout)
      if negative then "-" ++ text else text

end Sulti.Decimal
