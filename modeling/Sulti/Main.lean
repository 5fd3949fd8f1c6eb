import Sulti.Console.Folder

/-!
The program on the command line. Standard input is read a line at a time and
only when it is wanted: a run that finds no line is done over with one more.
Runs have no effects of their own, so nothing is done twice.
-/

namespace Sulti.Console

/-- The words of the operating system for why a file cannot be read. -/
def reason : IO.Error → String
  | .noFileOrDirectory .. => Folder.missing
  | .inappropriateType .. => Folder.isDirectory
  | error => toString error

def readPath (path : String) : IO (Except String ByteArray) := do
  try
    return .ok (← IO.FS.readBinFile path)
  catch error =>
    return .error (reason error)

/-- The text of a file that plays the given role. -/
def openPath (role path : String) : ExceptT Failure IO String := do
  let bytes ← readPath path
  ExceptT.mk (pure (open? (fun _ => bytes) role path))

/-- The bytes of standard input up to and with the next line feed. -/
partial def typedBytes (stdin : IO.FS.Stream) (before : List UInt8) : IO (List UInt8) := do
  match (← stdin.read 1).toList with
  | [] => return before.reverse
  | byte :: _ =>
      if byte = 10 then
        return (byte :: before).reverse
      else
        typedBytes stdin (byte :: before)

/-- The next line of standard input, or nothing at its end. -/
def typedLine? : IO (Option (Except String String)) := do
  let bytes ← typedBytes (← IO.getStdin) []
  if bytes.isEmpty then
    return none
  else
    return some (Lines.typed (Text.streamLine? bytes))

/-- A run that is given lines of standard input as it asks for them. -/
partial def supplied (run : Session → Except Failure String × Session) (session : Session) :
    IO (Except Failure String × Session) := do
  let (result, after) := run session
  let lines := session.machine.lines
  match result with
  | .error (.stopped (.fault (.unreadable why))) =>
      if why = lines.exhausted ∧ after.machine.lines.remaining = 0 then
        match ← typedLine? with
        | some line =>
            let machine := { session.machine with
              lines := { lines with pending := lines.pending ++ [line] } }
            supplied run { session with machine }
        | none => return (result, after)
      else
        return (result, after)
  | _ => return (result, after)

def write (report : Report) : IO UInt32 := do
  IO.print report.stdout
  IO.eprint report.stderr
  (← IO.getStdout).flush
  return report.code.toUInt32

partial def interact (session : Session) : IO UInt32 := do
  let _ ← write (.success promptText)
  match ← typedLine? with
  | some (.ok line) =>
      if isExit line then
        return 0
      else
        let (result, after) ← supplied (fun s => s.runLine ampleLimit line) session
        let _ ← write ((Report.success "").add result)
        interact after
  | _ => write (.success farewell)

/-- Runs a program file on lines from another file or from standard input. -/
def runPath (path : String) : Option String → ExceptT Failure IO String
  | some input => do
      let lines ← openPath "input" input
      let source ← openPath "source" path
      ExceptT.mk (pure (runFile ampleLimit (.ofText lines) source))
  | none => do
      let source ← openPath "source" path
      let session := Session.new .program (.standard [])
      let (result, _) ← supplied (fun s => s.run ampleLimit source) session
      ExceptT.mk (pure result)

def checkPath (path : String) : ExceptT Failure IO String := do
  let source ← openPath "source" path
  ExceptT.mk (pure (checkFile path source))

/-- Writes the outcome of a command that gives one text. -/
def finish (command : ExceptT Failure IO String) : IO UInt32 := do
  match ← command.run with
  | .ok text => write (.success (text ++ "\n"))
  | .error f => write (.failure f)

def perform : Command → IO UInt32
  | .file path input => finish (runPath path input)
  | .check path => finish (checkPath path)
  | .repl => interact (.new .repl (.standard []))

end Sulti.Console

def main (args : List String) : IO UInt32 :=
  match Sulti.Console.Command.ofArgs? args with
  | some command => Sulti.Console.perform command
  | none => do
      IO.eprintln "usage: file PATH [--input FILE] | check PATH | repl"
      return 2
