import Sulti.Session

/-!
The command line: what the arguments ask for and what is written in answer.
Everything that is read, files and standard input, is given beforehand, so an
answer is a function of the arguments and these.
-/

namespace Sulti.Console

inductive Command where
  /-- Runs a program file, with lines of input from a second file if one is given. -/
  | file (path : String) (input : Option String)
  /-- Checks a program file and counts its statements. -/
  | check (path : String)
  /-- Runs the lines typed at a prompt. -/
  | repl
  deriving DecidableEq, Repr

namespace Command

/-- The path and the input file of a `file` command, in any order. -/
def fileArgs? (path input : Option String) : List String → Option Command
  | [] => path.map fun p => .file p input
  | "--input" :: name :: rest => fileArgs? path (some name) rest
  | arg :: rest =>
      if arg.startsWith "--input=" then
        fileArgs? path (some (arg.drop 8).toString) rest
      else if path.isNone then
        fileArgs? (some arg) input rest
      else
        none

def ofArgs? : List String → Option Command
  | "file" :: args => fileArgs? none none args
  | ["check", path] => some (.check path)
  | ["repl"] => some .repl
  | _ => none

end Command

/-- What is written to the two output streams, and the exit code. -/
structure Report where
  stdout : String
  stderr : String
  code : Nat
  deriving DecidableEq, Repr

namespace Report

def success (stdout : String) : Report := ⟨stdout, "", 0⟩

def failure (f : Failure) : Report := ⟨"", f.message ++ "\n", 1⟩

end Report

/-- The bytes of a file, or why they cannot be read. -/
abbrev Files := String → Except String ByteArray

/-- The text of a file that plays the given role. -/
def open? (files : Files) (role path : String) : Except Failure String :=
  match files path with
  | .error reason => .error (.unopened role path reason)
  | .ok bytes =>
      match String.fromUTF8? bytes with
      | some text => .ok text
      | none => .error (.unopened role path "stream did not contain valid UTF-8")

/-- Where a program file gets its input from. The input file is opened before
the program file. -/
def inputLines (files : Files) (stdin : List UInt8) : Option String → Except Failure Lines
  | some path => (open? files "input" path).map Lines.ofText
  | none => .ok (.ofBytes stdin)

def runFile (limit : Nat) (lines : Lines) (source : String) : Except Failure String :=
  ((Session.new .program lines).run limit source).1

def checkFile (path source : String) : Except Failure String :=
  ((Session.new .program (.ofList [])).check source).1.map fun program =>
    s!"{path}: {program.length} statements OK"

/-- What a line typed at the prompt adds to the two output streams. Output
that is not empty gets a line of its own. -/
def Report.add (report : Report) : Except Failure String → Report
  | .ok output =>
      if output.isEmpty then report else { report with stdout := report.stdout ++ output ++ "\n" }
  | .error f => { report with stderr := report.stderr ++ f.message ++ "\n" }

/-- Whether a line typed at the prompt ends the session. -/
def isExit (line : String) : Bool :=
  String.ofList (Text.trim line.toList) == "exit"

def promptText : String := "> "

def farewell : String := "\nExited bisaya repl\n"

/-- Reads and runs lines until one says so or none can be read. Each turn uses
up a line, so there are at most as many turns as lines. -/
def prompt (limit : Nat) (session : Session) (report : Report) : Nat → Report
  | 0 => report
  | turns + 1 =>
      let asked := { report with stdout := report.stdout ++ promptText }
      match session.machine.lines.next with
      | (.error _, _) => { asked with stdout := asked.stdout ++ farewell }
      | (.ok line, lines) =>
          if isExit line then
            asked
          else
            let machine := { session.machine with lines }
            let (result, after) := { session with machine }.runLine limit line
            prompt limit after (asked.add result) turns

/-- The whole answer to a command. -/
def answer (limit : Nat) (files : Files) (stdin : List UInt8) : Command → Report
  | .file path input =>
      let result := do
        let lines ← inputLines files stdin input
        let source ← open? files "source" path
        runFile limit lines source
      match result with
      | .ok output => .success (output ++ "\n")
      | .error f => .failure f
  | .check path =>
      match open? files "source" path >>= checkFile path with
      | .ok line => .success (line ++ "\n")
      | .error f => .failure f
  | .repl =>
      let session := Session.new .repl (.ofBytes stdin)
      prompt limit session (.success "") (session.machine.lines.remaining + 1)

end Sulti.Console
