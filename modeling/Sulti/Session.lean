import Sulti.Exec
import Sulti.Program
import Sulti.Token.Scan

/-!
A session: programs run one after another on the same variables. The table of
declared names and the store of cells are kept in step. A text that is not a
program changes nothing; a run that stops with a fault keeps what it did, and
of the names it declared only those that got a cell.
-/

namespace Sulti

/-- Why a text gives no output. -/
inductive Failure where
  | malformed (flaws : List Flaw)
  | rejected (r : Rejection)
  | stopped (s : Stop)
  /-- A file that could not be read. -/
  | unopened (role path reason : String)
  deriving DecidableEq, Repr

namespace Failure

def message : Failure → String
  | .malformed flaws =>
      s!"Generated {flaws.length} scanner errors:\n" ++
        "\n".intercalate (flaws.map Flaw.message)
  | .rejected r => s!"Parse error at {r.message}"
  | .stopped (.fault f) => s!"Runtime error: {f.message}"
  | .stopped .unfinished => "Runtime error: a loop reached the limit on its passes"
  | .unopened role path reason => s!"InternalError: Failed open {role} file {path}: {reason}"

end Failure

structure Session where
  mode : Mode
  table : Table Ty
  machine : Machine

namespace Session

def new (mode : Mode) (lines : Lines) : Session := ⟨mode, .empty, .new lines⟩

/-- The program that a text is, whose names are declared from now on. -/
def check (s : Session) (source : String) : Except Failure Program × Session :=
  match Token.scan source with
  | .error flaws => (.error (.malformed flaws), s)
  | .ok tokens =>
      match Program.ofTokens s.mode s.table tokens with
      | .error r => (.error (.rejected r), s)
      | .ok (program, table) => (.ok program, { s with table })

/-- Runs a text and gives what it printed. -/
def run (limit : Nat) (s : Session) (source : String) : Except Failure String × Session :=
  match s.check source with
  | (.error failure, after) => (.error failure, after)
  | (.ok program, checked) =>
      match checked.machine.run limit program with
      | (.ok output, machine) => (.ok output, { checked with machine })
      | (.error stop, machine) =>
          let kept := checked.table.retain fun name =>
            s.table.contains name || machine.store.contains name
          (.error (.stopped stop), { checked with table := kept, machine })

/-- Runs one line as it was typed at the prompt. -/
def runLine (limit : Nat) (s : Session) (line : String) : Except Failure String × Session :=
  s.run limit (String.ofList (Text.trim line.toList ++ ['\n']))

end Session

end Sulti
