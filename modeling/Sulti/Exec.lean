import Sulti.Input
import Sulti.Lines
import Sulti.Stmt
import Sulti.Store

/-!
Running programs. A run changes the store, uses up lines of input and adds to
the output; when it stops with a fault, what it did up to there stays done.
Every loop may make a limited number of passes. A run that reaches the limit
is unfinished, which is an outcome of its own: it says nothing about what a
higher limit would give.
-/

namespace Sulti

structure Machine where
  store : Store
  lines : Lines
  output : String

/-- Why a run stops before its end. -/
inductive Stop where
  | fault (f : Fault)
  /-- A loop reached the limit on its passes. -/
  | unfinished
  deriving DecidableEq, Repr

abbrev Exec := EStateM Stop Machine

namespace Exec

def ofExcept {α : Type} : Except Fault α → Exec α
  | .ok a => pure a
  | .error f => throw (.fault f)

def define (name : String) (ty : Ty) (value : Value) : Exec Unit := do
  let machine ← get
  let store ← ofExcept (machine.store.define name ty value)
  set { machine with store }

/-- Stores into a variable and yields what was stored. -/
def assign (name : String) (value : Value) : Exec Value := do
  let machine ← get
  let (stored, store) ← ofExcept (machine.store.assign name value)
  set { machine with store }
  return stored

def readLine : Exec String := do
  let machine ← get
  let (read, lines) := machine.lines.next
  set { machine with lines }
  match read with
  | .ok line => return line
  | .error reason => throw (.fault (.unreadable reason))

/-- Stores fields into variables, one after another. Fields without a variable
are left over. -/
def storeFields (position : Position) : List String → List (List Char) → Exec Unit
  | name :: names, field :: fields => do
      let machine ← get
      match machine.store.typeOf? name with
      | none => throw (.fault (.undefined name))
      | some ty => do
          let value ← ofExcept (Input.convert position name ty field)
          let _ ← assign name value
          storeFields position names fields
  | _, _ => return ()

/-- Reads one line and stores its fields. Nothing is stored if there are fewer
fields than variables. -/
def read (position : Position) (targets : List String) : Exec Unit := do
  let line ← readLine
  let fields := Text.fields line
  if fields.length < targets.length then
    throw (.fault (.inputLength position targets.length fields.length))
  else
    storeFields position targets fields

/-- Runs `pass` as long as `test` holds, at most as often as the limit says. -/
def repeatWhile (test : Exec Bool) (pass : Exec Unit) : Nat → Exec Unit
  | 0 => throw .unfinished
  | limit + 1 => do
      if ← test then
        pass
        repeatWhile test pass limit
      else
        return ()

end Exec

open Exec

/-- The value of an expression. Operands are evaluated from left to right, both
of them also where the first one would settle the result. -/
def Expr.eval : Expr → Exec Value
  | .assign _ name value => do
      let v ← value.eval
      Exec.assign name v
  | .binary _ op left right => do
      let l ← left.eval
      let r ← right.eval
      ofExcept (l.apply op r)
  | .not _ operand => do
      let v ← operand.eval
      ofExcept v.negate
  | .var _ name => do
      let machine ← get
      ofExcept (machine.store.get name)
  | .literal _ value => return value.value
  | .blank _ => return .empty

def Expr.test (e : Expr) : Exec Bool := do
  let v ← e.eval
  ofExcept (v.truth .condition)

namespace Stmt

/-- Gives each variable its cell, with the value it starts from. -/
def runBindings (ty : Ty) : List (String × Option Expr) → Exec Unit
  | [] => return ()
  | (name, start) :: rest => do
      let value ← match start with
        | some e => e.eval
        | none => pure (Value.initial ty)
      define name ty value
      runBindings ty rest

def runItems : List Expr → Exec Unit
  | [] => return ()
  | item :: rest => do
      let value ← item.eval
      modify fun machine => { machine with output := machine.output ++ value.render }
      runItems rest

mutual

/-- Runs a statement, with a limit on the passes of each loop. -/
def run (limit : Nat) : Stmt → Exec Unit
  | .declare ty bindings => runBindings ty bindings
  | .read position targets => Exec.read position targets
  | .print items => runItems items
  | .branch condition body others otherwise => do
      if ← condition.test then
        runAll limit body
      else if ← runFirst limit others then
        return ()
      else
        runOtherwise limit otherwise
  | .loop start condition step body => do
      let _ ← start.eval
      repeatWhile condition.test
        (do
          runAll limit body
          let _ ← step.eval)
        limit
  | .block body => runAll limit body
  | .expr e => do
      let _ ← e.eval

def runAll (limit : Nat) : List Stmt → Exec Unit
  | [] => return ()
  | first :: rest => do
      run limit first
      runAll limit rest

/-- Runs the first body whose condition holds, and tells whether there was one. -/
def runFirst (limit : Nat) : List (Expr × List Stmt) → Exec Bool
  | [] => return false
  | (condition, body) :: rest => do
      if ← condition.test then
        runAll limit body
        return true
      else
        runFirst limit rest

def runOtherwise (limit : Nat) : Option (List Stmt) → Exec Unit
  | none => return ()
  | some body => runAll limit body

end

end Stmt

/-- A limit that no loop reaches within the time anyone waits for it. -/
def ampleLimit : Nat := 1000000000000000000

namespace Machine

def new (lines : Lines) : Machine := ⟨.empty, lines, ""⟩

/-- Runs a program from empty output, and gives what it printed or why it
stopped, with the machine as it is then. -/
def run (limit : Nat) (program : Program) (machine : Machine) : Except Stop String × Machine :=
  match (Stmt.runAll limit program).run { machine with output := "" } with
  | .ok _ after => (.ok after.output, { after with output := "" })
  | .error stop after => (.error stop, { after with output := "" })

end Machine

end Sulti
