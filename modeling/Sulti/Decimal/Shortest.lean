/-!
The shortest decimal that names a floating-point number: of all decimals that
round to it the ones with the fewest digits, of those the nearest, and of two
equally near ones the larger. All comparisons are exact, on integers.
-/

namespace Sulti.Decimal

/-- The number `d₁.d₂d₃… · 10^exponent`, written with the digits `d₁d₂d₃…`. -/
structure Scientific where
  digits : List Char
  exponent : Int
  deriving DecidableEq, Repr

/-- How many decimal digits a natural number has. -/
def width (n : Nat) : Nat := (Nat.toDigits 10 n).length

/-- The exponent `e` with `10^e ≤ m · 2^q < 10^(e+1)`, for a positive `m`. -/
def magnitude (m : Nat) (q : Int) : Int :=
  let whole := if 0 ≤ q then m <<< q.toNat else m >>> (-q).toNat
  if 0 < whole then
    (width whole : Int) - 1
  else
    -(width ((1 <<< (-q).toNat + m - 1) / m - 1) : Int)

/-- The reals that round to `m · 2^q`, in quarters of the last place. Below a
power of two the neighbours are half as far apart as above it. The ends
belong to the interval if `m` is even. -/
structure Interval where
  lower : Nat
  upper : Nat
  closed : Bool

def Interval.around (m : Nat) (q : Int) : Interval where
  lower := if m = 1 <<< 52 ∧ -1074 < q then 4 * m - 1 else 4 * m - 2
  upper := 4 * m + 2
  closed := m % 2 == 0

/-- Whether `x` lies in the interval once its ends are multiplied by `scale`. -/
def Interval.contains (i : Interval) (scale x : Nat) : Bool :=
  if i.closed then
    i.lower * scale ≤ x && x ≤ i.upper * scale
  else
    i.lower * scale < x && x < i.upper * scale

/-- The best multiple of `10^place` among those that round to `m · 2^q`, as a
count of such units. If a multiple lies in the interval then one of the two
around the number itself does. -/
def onGrid? (m : Nat) (q place : Int) : Option Nat :=
  let scale := Nat.pow 10 (-place).toNat <<< (q - 2).toNat
  let unit := Nat.pow 10 place.toNat <<< (2 - q).toNat
  let value := 4 * m * scale
  let below := value / unit
  let above := below + 1
  let interval := Interval.around m q
  let belowFits := interval.contains scale (below * unit)
  let aboveFits := interval.contains scale (above * unit)
  if belowFits && (!aboveFits || value - below * unit < above * unit - value) then
    some below
  else if aboveFits then
    some above
  else
    none

/-- The digits of `count · 10^place` without zeros at the end. -/
def Scientific.ofUnits (count : Nat) (place : Int) : Scientific :=
  let digits := Nat.toDigits 10 count
  { digits := (digits.reverse.dropWhile (· == '0')).reverse
    exponent := place + digits.length - 1 }

/-- The shortest decimal of `m · 2^q` for a positive `m`. Seventeen digits are
enough for every floating-point number. -/
def shortest (m : Nat) (q : Int) : Scientific :=
  let first := magnitude m q
  let found := (List.range 17).findSome? fun (more : Nat) =>
    (onGrid? m q (first - more)).map fun count => Scientific.ofUnits count (first - more)
  found.getD ⟨['0'], 0⟩

end Sulti.Decimal
