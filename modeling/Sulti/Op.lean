import Sulti.Ty

/-!
The operators between two operands, grouped by what they ask of them, and the
static rule of each group: which operand types it takes and what type the
result has.
-/

namespace Sulti

inductive Arith where
  | add
  | sub
  | mul
  | div
  | mod
  deriving DecidableEq, Repr

inductive Order where
  | gt
  | ge
  | lt
  | le
  deriving DecidableEq, Repr

inductive Op where
  | arith (a : Arith)
  | order (o : Order)
  | eq
  | ne
  | and
  | or
  deriving DecidableEq, Repr

namespace Arith

def symbol : Arith → String
  | .add => "+"
  | .sub => "-"
  | .mul => "*"
  | .div => "/"
  | .mod => "%"

/-- The name of the calculation in messages. -/
def name : Arith → String
  | .add => "addition"
  | .sub => "subtraction"
  | .mul => "multiplication"
  | .div => "division"
  | .mod => "modulo"

/-- Whether the right operand is a divisor. -/
def divides : Arith → Bool
  | .div | .mod => true
  | _ => false

end Arith

namespace Order

def symbol : Order → String
  | .gt => ">"
  | .ge => ">="
  | .lt => "<"
  | .le => "<="

/-- Whether operands that compare in this way satisfy the operator. -/
def holds : Order → Ordering → Bool
  | .gt, o => o.isGT
  | .ge, o => o.isGE
  | .lt, o => o.isLT
  | .le, o => o.isLE

end Order

namespace Op

def symbol : Op → String
  | .arith a => a.symbol
  | .order o => o.symbol
  | .eq => "=="
  | .ne => "<>"
  | .and => "UG"
  | .or => "O"

end Op

/-- An operand or a value of a type other than the one wanted. -/
structure Mismatch where
  expected : Ty
  found : Ty
  deriving DecidableEq, Repr

namespace Ty

/-- Asks for a type that may stand for `expected`. -/
def demand (expected found : Ty) : Except Mismatch Unit :=
  if expected.compatible found then .ok () else .error ⟨expected, found⟩

def demandNumeric (found : Ty) : Except Mismatch Unit :=
  if found.isNumeric then .ok () else .error ⟨.numero, found⟩

end Ty

/-- The type of an operation on operands of two types. Arithmetic takes
numbers, logic takes truth values, and comparisons take two operands that go
together, which have to be numbers or letters if they are put in order. The
left operand is asked first. -/
def Op.result (op : Op) (left right : Ty) : Except Mismatch Ty :=
  match op with
  | .arith _ => do
      left.demandNumeric
      right.demandNumeric
      return left.join right
  | .order _ => do
      left.demand right
      if left.isNumeric || left == .letra then return .tinuod else throw ⟨.numero, left⟩
  | .eq | .ne => do
      left.demand right
      return .tinuod
  | .and | .or => do
      Ty.demand .tinuod left
      Ty.demand .tinuod right
      return .tinuod

end Sulti
