import Sulti.Decimal.Numeral
import Sulti.Text.Blank
import Sulti.Value

/-!
Fields of input lines as values. A `NUMERO` also takes a real number, which is
rounded toward zero; a `TIPIK` takes only finite numbers; a `LETRA` takes
exactly one character.
-/

namespace Sulti.Input

/-- An integer, or else a real rounded toward zero, if it fits. -/
def readNumero? (field : List Char) : Option Numero :=
  match (Decimal.readInt? field).bind Numero.ofInt? with
  | some n => some n
  | none => (Decimal.readReal? field).bind Numero.ofReal?

def readTipik? (field : List Char) : Option Float :=
  (Decimal.readReal? field).filter Float.isFinite

def readTinuod? (field : List Char) : Option Bool :=
  match String.ofList field with
  | "OO" => some true
  | "DILI" => some false
  | _ => none

/-- A field as a value for the variable of a given name and type. -/
def convert (position : Position) (name : String) (ty : Ty) (field : List Char) :
    Except Fault Value :=
  let invalid := Fault.invalidInput position name ty (String.ofList field)
  match ty with
  | .numero =>
      match readNumero? field with
      | some n => .ok (.numero n)
      | none => .error invalid
  | .tipik =>
      match readTipik? field with
      | some x => .ok (.tipik x)
      | none => .error invalid
  | .letra =>
      match field with
      | [c] => .ok (.letra c)
      | _ => .error (.inputLength position 1 field.length)
  | .tinuod =>
      match readTinuod? field with
      | some b => .ok (.tinuod b)
      | none => .error invalid
  | .text | .empty => .error invalid

end Sulti.Input
