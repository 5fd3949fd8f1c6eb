import Sulti.Text.Lines

/-!
Where `DAWAT` gets its lines from. A source is the list of what its reads
give, a line or the reason why that read fails, and the reason that every
read fails with after those.
-/

namespace Sulti

structure Lines where
  pending : List (Except String String)
  /-- Why a read past the last line fails. -/
  exhausted : String

namespace Lines

/-- Lines that are known beforehand. -/
def ofList (lines : List String) : Lines :=
  ⟨lines.map .ok, "No more input lines"⟩

/-- The lines of a file. -/
def ofText (text : String) : Lines := ofList (Text.fileLines text)

/-- A line of standard input, if its bytes are text. -/
def typed : Option String → Except String String
  | some line => .ok line
  | none => .error "Failed read line from stdin"

/-- Lines of standard input that have come in, with none behind them. -/
def standard (pending : List (Except String String)) : Lines :=
  ⟨pending, "Standard input is closed"⟩

/-- The lines of standard input from its bytes. A line that is no text is lost,
and the next read goes on behind it. -/
def ofBytes (bytes : List UInt8) : Lines :=
  standard ((Text.streamLines bytes).map typed)

/-- The next read. -/
def next (l : Lines) : Except String String × Lines :=
  match l.pending with
  | [] => (.error l.exhausted, l)
  | read :: rest => (read, { l with pending := rest })

def remaining (l : Lines) : Nat := l.pending.length

end Lines

end Sulti
