import Sulti.Grammar.Stmt

/-!
Programs in a list of tokens. In program mode the statements stand between
`SUGOD` and `KATAPUSAN`; at the prompt both words may be left out.
-/

namespace Sulti

inductive Mode where
  | program
  | repl
  deriving DecidableEq, Repr

namespace Grammar

/-- The word that opens a program; the result tells whether it is there. -/
def opening : Mode → Parse Bool
  | .program => do
      expect .sugod "SUGOD to start the program"
      return true
  | .repl => accept .sugod

/-- The word that closes a program, which has to be there if the other was. -/
def closing (framed : Bool) : Parse Unit := do
  if framed then
    expect .katapusan "KATAPUSAN to end the program"
  else
    let _ ← accept .katapusan

/-- Nothing but line breaks up to the end. -/
def ending : Parse Unit := do
  let _ ← skipNewlines
  let token ← peek
  if token.kind = .eof then
    return ()
  else
    unexpected "end of input"

def program (mode : Mode) (fuel : Nat) : Parse Program := do
  let _ ← skipNewlines
  let framed ← opening mode
  let body ← statements .katapusan (statement fuel) fuel
  closing framed
  ending
  return body

end Grammar

end Sulti
