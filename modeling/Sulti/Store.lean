import Sulti.Table
import Sulti.Value

/-!
The variables of a running program. A variable has a cell with a type of its
own, and what is stored is converted to that type first: a real loses its
fraction on the way into a `NUMERO` and an integer is widened on the way into
a `TIPIK`. An operation that fails leaves the store as it was.
-/

namespace Sulti

structure Cell where
  ty : Ty
  value : Value
  deriving DecidableEq

abbrev Store := Table Cell

namespace Store

/-- The value as one of the wanted type, for the variable of a given name. -/
def coerce (name : String) (expected : Ty) (value : Value) : Except Fault Value :=
  match expected, value with
  | .numero, .tipik x =>
      match Numero.ofReal? x with
      | some n => .ok (.numero n)
      | none => .error (.overflow .conversion)
  | .tipik, .numero n => .ok (.tipik (Float.ofInt n.val))
  | _, _ =>
      if value.ty = expected then .ok value else .error (.unstorable name expected value.ty)

/-- Gives a variable a cell, a new one if it has one already. -/
def define (s : Store) (name : String) (ty : Ty) (value : Value) : Except Fault Store := do
  let stored ← coerce name ty value
  return s.insert name ⟨ty, stored⟩

/-- The value of a variable. -/
def get (s : Store) (name : String) : Except Fault Value :=
  match s.find? name with
  | some cell => .ok cell.value
  | none => .error (.undefined name)

def typeOf? (s : Store) (name : String) : Option Ty := (s.find? name).map Cell.ty

/-- Stores into the cell of a variable; the result comes with the value as it
was stored. -/
def assign (s : Store) (name : String) (value : Value) : Except Fault (Value × Store) :=
  match s.find? name with
  | none => .error (.undefined name)
  | some cell => do
      let stored ← coerce name cell.ty value
      return (stored, s.insert name ⟨cell.ty, stored⟩)

end Store

end Sulti
