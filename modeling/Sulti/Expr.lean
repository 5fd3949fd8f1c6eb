import Sulti.Decimal.Integer
import Sulti.Decimal.Layout
import Sulti.Numero
import Sulti.Op
import Sulti.Position
import Sulti.Text.Quoted
import Sulti.Value

/-!
Expressions as trees. Every node carries its type and the place of its first
token. A tree has no sugar: a sign is an addition or subtraction from zero, an
increment is an assignment, and parentheses are gone. The text of a tree is
in prefix form.
-/

namespace Sulti

inductive Literal where
  | numero (n : Numero)
  | tipik (x : Float)
  | letra (c : Char)
  | text (s : String)
  | tinuod (b : Bool)
  deriving DecidableEq

namespace Literal

def value : Literal → Value
  | .numero n => .numero n
  | .tipik x => .tipik x
  | .letra c => .letra c
  | .text s => .text s
  | .tinuod b => .tinuod b

def ty (l : Literal) : Ty := l.value.ty

/-- Reals in a tree keep a point, and have an exponent from `10^16` on and
below `10^-4`. -/
def written : Decimal.Layout := ⟨fun e => decide (-4 ≤ e ∧ e < 16), true⟩

def render : Literal → String
  | .numero n => String.ofList (Decimal.writeInt n.val)
  | .tipik x => Decimal.render written x
  | .letra c => Text.quoteChar c
  | .text s => "\x22" ++ s ++ "\x22"
  | .tinuod true => "\x22OO\x22"
  | .tinuod false => "\x22DILI\x22"

end Literal

/-- What a node knows about itself. -/
structure Note where
  ty : Ty
  position : Position
  deriving DecidableEq, Repr

inductive Expr where
  /-- Stores into a variable and yields what was stored. -/
  | assign (note : Note) (name : String) (value : Expr)
  | binary (note : Note) (op : Op) (left right : Expr)
  | not (note : Note) (operand : Expr)
  | var (note : Note) (name : String)
  | literal (note : Note) (value : Literal)
  /-- A line that ends where an expression could stand. -/
  | blank (note : Note)
  deriving DecidableEq

namespace Expr

def note : Expr → Note
  | .assign note .. | .binary note .. | .not note _ | .var note _ | .literal note _
  | .blank note => note

def ty (e : Expr) : Ty := e.note.ty

def position (e : Expr) : Position := e.note.position

def ofLiteral (l : Literal) (position : Position) : Expr := .literal ⟨l.ty, position⟩ l

def render : Expr → String
  | .assign _ name value => s!"(= {name} {value.render})"
  | .binary _ op left right => s!"({op.symbol} {left.render} {right.render})"
  | .not _ operand => s!"(DILI {operand.render})"
  | .var _ name => name
  | .literal _ value => value.render
  | .blank _ => "<empty>"

end Expr

end Sulti
