import Sulti.Binary64
import Sulti.Decimal.Integer
import Sulti.Decimal.Layout
import Sulti.Fault
import Sulti.Numero

/-!
The values a program computes with: what each operator makes of them and what
`IPAKITA` prints for them. Two integers are calculated with as integers; as
soon as one side is a `TIPIK` the calculation is one of floating-point
numbers.
-/

namespace Sulti

inductive Value where
  | numero (n : Numero)
  | tipik (x : Float)
  | letra (c : Char)
  | tinuod (b : Bool)
  | text (s : String)
  | empty
  deriving DecidableEq

namespace Value

def ty : Value → Ty
  | .numero _ => .numero
  | .tipik _ => .tipik
  | .letra _ => .letra
  | .tinuod _ => .tinuod
  | .text _ => .text
  | .empty => .empty

/-- The value of a variable that is declared without one. -/
def initial : Ty → Value
  | .numero => .numero .zero
  | .tipik => .tipik 0.0
  | .letra => .letra '\x00'
  | .tinuod => .tinuod false
  | .text => .text ""
  | .empty => .empty

theorem ty_initial (t : Ty) : (initial t).ty = t := by
  cases t <;> rfl

/-- A number as a floating-point number, the nearest one to an integer. -/
def toReal? : Value → Option Float
  | .numero n => some (Float.ofInt n.val)
  | .tipik x => some x
  | _ => none

/-- Printed reals never have an exponent, and whole ones no point. -/
def printed : Decimal.Layout := ⟨fun _ => true, false⟩

/-- A real that is whole and shorter than 64 bits prints as that integer, so
that negative zero prints as `0`. -/
def renderReal (x : Float) : String :=
  match Binary64.ofFloat x with
  | .finite negative m q =>
      let magnitude := Binary64.floor m q
      if (Binary64.finite negative m q).isWhole && decide (magnitude < 1 <<< 63) then
        String.ofList (Decimal.writeInt (if negative then -(magnitude : Int) else magnitude))
      else
        Decimal.render printed x
  | _ => Decimal.render printed x

/-- What is printed for a value. The letter of code zero prints nothing. -/
def render : Value → String
  | .numero n => String.ofList (Decimal.writeInt n.val)
  | .tipik x => renderReal x
  | .letra c => if c = '\x00' then "" else c.toString
  | .tinuod true => "OO"
  | .tinuod false => "DILI"
  | .text s => s
  | .empty => ""

/-- The truth value that something is used as. -/
def truth (use : TruthUse) : Value → Except Fault Bool
  | .tinuod b => .ok b
  | v => .error (.notTruth use v.ty)

def negate (v : Value) : Except Fault Value := do
  let b ← v.truth .negation
  return .tinuod (!b)

end Value

/-- The exact integer result, if there is one and it fits. -/
def Arith.onIntegers : Arith → Numero → Numero → Option Numero
  | .add => Numero.add?
  | .sub => Numero.sub?
  | .mul => Numero.mul?
  | .div => Numero.div?
  | .mod => Numero.mod?

def Arith.onReals : Arith → Float → Float → Float
  | .add, x, y => x + y
  | .sub, x, y => x - y
  | .mul, x, y => x * y
  | .div, x, y => x / y
  | .mod, x, y => Binary64.remainder x y

/-- How two floating-point numbers compare; something that is no number
compares with nothing. -/
def compareReals (x y : Float) : Option Ordering :=
  if x < y then some .lt
  else if x == y then some .eq
  else if y < x then some .gt
  else none

namespace Value

def isZero : Value → Bool
  | .numero n => n.val == 0
  | .tipik x => x == 0.0
  | _ => false

/-- Arithmetic on two numbers; nothing if either operand is not a number. -/
def calculate (a : Arith) : Value → Value → Option (Except Fault Value)
  | .numero l, .numero r =>
      match a.onIntegers l r with
      | some n => some (.ok (.numero n))
      | none => some (.error (.overflow (.arith a)))
  | left, right => do
      let x ← left.toReal?
      let y ← right.toReal?
      return .ok (.tipik (a.onReals x y))

/-- Whether two values are equal; nothing if they do not go together. -/
def equal? : Value → Value → Option Bool
  | .numero l, .numero r => some (l.val == r.val)
  | .letra l, .letra r => some (l == r)
  | .tinuod l, .tinuod r => some (l == r)
  | .text l, .text r => some (l == r)
  | .empty, .empty => some true
  | left, right => do
      let x ← left.toReal?
      let y ← right.toReal?
      return x == y

/-- How two values compare; nothing if they do not go together or one of them
is no number. Letters compare by code point. -/
def compare? : Value → Value → Option Ordering
  | .numero l, .numero r => some (compare l.val r.val)
  | .letra l, .letra r => some (compare l.toNat r.toNat)
  | left, right => do
      let x ← left.toReal?
      let y ← right.toReal?
      compareReals x y

/-- The outcome of an operator on two values. A zero divisor is looked for
before anything else is, and the two sides of a logical operator are asked
from left to right. -/
def apply (op : Op) (left right : Value) : Except Fault Value :=
  let invalid := Fault.invalidOperation op left.ty right.ty
  match op with
  | .arith a =>
      if a.divides && right.isZero then
        .error .divisionByZero
      else
        (calculate a left right).getD (.error invalid)
  | .order o =>
      match compare? left right with
      | some c => .ok (.tinuod (o.holds c))
      | none => .error invalid
  | .eq =>
      match equal? left right with
      | some b => .ok (.tinuod b)
      | none => .error invalid
  | .ne =>
      match equal? left right with
      | some b => .ok (.tinuod (!b))
      | none => .error invalid
  | .and => do
      let l ← left.truth .condition
      let r ← right.truth .condition
      return .tinuod (l && r)
  | .or => do
      let l ← left.truth .condition
      let r ← right.truth .condition
      return .tinuod (l || r)

end Value

namespace Numero

/-- A real as an integer, rounded toward zero. What is out of range becomes the limit it is
beyond, and what is no number becomes zero. -/
def ofReal (x : Float) : Numero :=
  match Binary64.ofFloat x with
  | .finite negative m q =>
      clamp (if negative then -(Binary64.floor m q : Int) else Binary64.floor m q)
  | .infinite negative => if negative then least else greatest
  | .nan => zero

/-- A real rounded toward zero, if the result fits. It is compared as a real with the limits as
reals; the greatest integer is no real and is rounded up to one that is itself too large. -/
def ofReal? (x : Float) : Option Numero :=
  let n := Binary64.trunc x
  if Float.ofInt least.val ≤ n ∧ n < Float.ofInt greatest.val then some (ofReal n) else none

end Numero

end Sulti
