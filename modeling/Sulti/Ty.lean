/-!
The types of Bisaya++. Four of them can be declared; `text` is the type of a
quoted text and `empty` the type of an expression that is not there. Numbers
of the two numeric types may stand for each other, with a conversion where
one is stored, and nothing else mixes.
-/

namespace Sulti

inductive Ty where
  | numero
  | tipik
  | letra
  | tinuod
  | text
  | empty
  deriving DecidableEq, Repr

namespace Ty

/-- The word for a type in programs and in messages. -/
def name : Ty → String
  | .numero => "NUMERO"
  | .tipik => "TIPIK"
  | .letra => "LETRA"
  | .tinuod => "TINUOD"
  | .text => "TEXT"
  | .empty => "EMPTY"

/-- The type that a word declares. `TEXT` and `EMPTY` name types in messages
only, so no word declares those two. -/
def ofWord? : String → Option Ty
  | "NUMERO" => some .numero
  | "TIPIK" => some .tipik
  | "LETRA" => some .letra
  | "TINUOD" => some .tinuod
  | _ => none

def isNumeric : Ty → Bool
  | .numero | .tipik => true
  | _ => false

/-- Whether a value of one type may stand where the other is wanted. -/
def compatible (a b : Ty) : Bool :=
  a == b || (a.isNumeric && b.isNumeric)

/-- The type of a calculation: `tipik` as soon as one side is. -/
def join (a b : Ty) : Ty :=
  if a = .tipik ∨ b = .tipik then .tipik else .numero

end Ty

end Sulti
