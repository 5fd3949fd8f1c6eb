import Sulti.Op
import Sulti.Position
import Sulti.Token.Basic

/-!
Why a list of tokens is no program. There is one reason, the first that turns
up, with the place of the token it is about.
-/

namespace Sulti

inductive Rejection.Cause where
  | unexpected (expected found : String)
  /-- A name that nothing has declared. -/
  | unresolved (name : String)
  /-- A name that is declared already. -/
  | duplicate (name : String)
  | mismatch (m : Mismatch)
  /-- A word that should name a type and does not. -/
  | unknownType (word : String)
  /-- Something other than a plain variable to store into. -/
  | invalidTarget
  /-- An alternative that belongs to no condition. -/
  | danglingElse
  deriving DecidableEq, Repr

structure Rejection where
  position : Position
  cause : Rejection.Cause
  deriving DecidableEq, Repr

namespace Rejection

def Cause.message : Cause → String
  | .unexpected expected found => s!"Expected {expected}, found {found}"
  | .unresolved name => s!"Identifier '{name}' not found"
  | .duplicate name => s!"Identifier '{name}' has already been declared"
  | .mismatch m => s!"Expected type {m.expected.name}, found {m.found.name}"
  | .unknownType word => s!"Data type '{word}' not found"
  | .invalidTarget => "Invalid assignment target"
  | .danglingElse => "KUNG DILI or KUNG WALA without a preceding KUNG block"

def message (r : Rejection) : String :=
  s!"{r.position.describe}: {r.cause.message}"

/-- A token that stands where something else was expected. -/
def unexpected (token : Token) (expected : String) : Rejection :=
  ⟨token.position, .unexpected expected token.describe⟩

end Rejection

end Sulti
