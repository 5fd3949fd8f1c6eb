import Sulti.Op
import Sulti.Position

/-!
What can go wrong while a program runs. A fault names its cause; its wording
is `Fault.message` and nothing else depends on it.
-/

namespace Sulti

/-- What a truth value was wanted for. -/
inductive TruthUse where
  | condition
  | negation
  deriving DecidableEq, Repr

/-- What an integer was to be the result of. -/
inductive Calculation where
  | arith (a : Arith)
  | conversion
  deriving DecidableEq, Repr

inductive Fault where
  /-- A variable that has no cell. -/
  | undefined (name : String)
  /-- A value that does not go into the cell of a variable. -/
  | unstorable (name : String) (expected found : Ty)
  | invalidOperation (op : Op) (left right : Ty)
  | notTruth (use : TruthUse) (found : Ty)
  | divisionByZero
  /-- An integer result that does not fit. -/
  | overflow (during : Calculation)
  /-- A field of an input line that does not convert to the type of its variable. -/
  | invalidInput (position : Position) (name : String) (expected : Ty) (field : String)
  /-- A line with too few fields, or a letter's field that is not one character. -/
  | inputLength (position : Position) (expected found : Nat)
  /-- No line of input could be read. -/
  | unreadable (reason : String)
  deriving DecidableEq, Repr

def TruthUse.name : TruthUse → String
  | .condition => "condition"
  | .negation => "DILI"

def Calculation.name : Calculation → String
  | .arith a => a.name
  | .conversion => "conversion"

def Fault.message : Fault → String
  | .undefined name => s!"Variable '{name}' is not defined"
  | .unstorable name expected found =>
      s!"Type mismatch: cannot store {found.name} in {expected.name} variable '{name}'"
  | .invalidOperation op left right =>
      s!"Invalid operation: {left.name} {op.symbol} {right.name}"
  | .notTruth use found => s!"Invalid unary operation: {use.name} {found.name}"
  | .divisionByZero => "Cannot divide by zero"
  | .overflow during => s!"Integer overflow in {during.name}"
  | .invalidInput position name expected field =>
      s!"{position.describe}: Invalid input '{field}' for {expected.name} variable '{name}'"
  | .inputLength position expected found =>
      s!"{position.describe}: Invalid input length: expected {expected}, got {found}"
  | .unreadable reason => s!"Failed read input: {reason}"

end Sulti
