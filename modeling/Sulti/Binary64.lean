/-!
What the 64 bits of a floating-point number stand for. A finite number is
`m · 2^q` with a sign, so what stands before its point and the remainder of a
division are exact calculations on integers; nothing here rounds.
-/

namespace Sulti

inductive Binary64 where
  /-- The number `m · 2^q`, negated if `negative`. -/
  | finite (negative : Bool) (m : Nat) (q : Int)
  | infinite (negative : Bool)
  | nan
  deriving DecidableEq, Repr

namespace Binary64

/-- Reads the sign bit, the eleven exponent bits and the 52 fraction bits. An
exponent of all ones is no finite number; an exponent of zero has no leading
one before the fraction. -/
def ofBits (bits : UInt64) : Binary64 :=
  let n : Nat := bits.toNat
  let negative := decide (1 <<< 63 ≤ n)
  let exponent : Nat := (n >>> 52) % 2048
  let fraction : Nat := n % (1 <<< 52)
  if exponent = 2047 then
    if fraction = 0 then .infinite negative else .nan
  else if exponent = 0 then
    .finite negative fraction (-1074)
  else
    .finite negative (1 <<< 52 + fraction) ((exponent : Int) - 1075)

def ofFloat (x : Float) : Binary64 := ofBits x.toBits

/-- The largest integer not above `m · 2^q`. -/
def floor (m : Nat) (q : Int) : Nat :=
  if 0 ≤ q then m <<< q.toNat else m >>> (-q).toNat

/-- Whether a finite number has no fraction. -/
def isWhole : Binary64 → Bool
  | .finite _ m q => 0 ≤ q || m % (1 <<< (-q).toNat) == 0
  | _ => false

def quietNaN : Float := Float.ofBits 0x7ff8000000000000

/-- The float of value `m · 2^q` with a sign, for `m < 2^53` and `-1074 ≤ q`:
the significand is moved up until its leading bit is the 53rd or the exponent
is the least one. -/
def encode (negative : Bool) (m : Nat) (q : Int) : Float :=
  let shift := min (52 - m.log2) (q + 1074).toNat
  let m := m <<< shift
  let magnitude :=
    if m < 1 <<< 52 then m else ((q - shift + 1075).toNat <<< 52) + (m - 1 <<< 52)
  Float.ofBits ((if negative then 1 <<< 63 else 0) + magnitude).toUInt64

/-- A float without its fraction. One with no bits behind the point stays as it is, and so does
an infinity or what is no number. -/
def trunc (x : Float) : Float :=
  match ofFloat x with
  | .finite negative m q => if 0 ≤ q then x else encode negative (m >>> (-q).toNat) 0
  | _ => x

/-- The remainder of `x` by `y` with the sign of `x`. Both are integers on the
finer of their two grids, and so is the remainder, which is therefore exact.
There is none for an infinite `x` or a zero `y`. -/
def remainder (x y : Float) : Float :=
  match ofFloat x, ofFloat y with
  | .finite negative m q, .finite _ n r =>
      let grid := min q r
      let divisor := n <<< (r - grid).toNat
      if divisor = 0 then quietNaN
      else encode negative ((m <<< (q - grid).toNat) % divisor) grid
  | .finite .., .infinite _ => x
  | _, _ => quietNaN

end Binary64

end Sulti
