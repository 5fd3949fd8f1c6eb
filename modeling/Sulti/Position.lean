/-!
Places in a program text. Lines and columns count from one, and a column
counts code points.
-/

namespace Sulti

structure Position where
  line : Nat
  column : Nat
  deriving DecidableEq, Repr

namespace Position

/-- The first character of a text. -/
def start : Position := ⟨1, 1⟩

/-- The place that is no place in any text, for things that were not read
from one. -/
def nowhere : Position := ⟨0, 0⟩

def describe (p : Position) : String :=
  s!"line {p.line}, column {p.column}"

end Position

end Sulti
