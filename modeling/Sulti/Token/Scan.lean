import Sulti.Text.Offset
import Sulti.Token.Cut

/-!
A whole program text as tokens. Pieces are cut off one after another to the
end of the text, also behind a malformed one, so that every malformed piece
is reported. The last token marks the end of the text.

Where a piece stands is told from the line that scanning is on and from the
byte where that line begins. Both change only behind a piece that starts with
a line break.
-/

namespace Sulti

/-- A malformed piece of text and the place where it starts. -/
structure Flaw where
  position : Position
  cause : Malformed
  deriving DecidableEq, Repr

def Flaw.message (f : Flaw) : String :=
  s!"{f.position.describe}: {f.cause.message}"

def Reading.isMalformed : Reading → Bool
  | .malformed _ => true
  | _ => false

/-- Whether the last token is a name, if it was one `before` or not. -/
def Reading.lastIsName (before : Bool) : Reading → Bool
  | .token kind => kind.isIdentifier
  | _ => before

namespace Token

/-- Where scanning stands. A decrement is told from a comment by the last token
being a name and by the last character being one of a name. -/
structure Place where
  /-- The byte where the next piece begins. -/
  start : Nat
  line : Nat
  /-- The byte where the line begins. -/
  lineStart : Nat
  lastIsName : Bool
  lastIsWordChar : Bool

namespace Place

def first : Place := ⟨0, 1, 0, false, false⟩

def afterName (p : Place) : Bool := p.lastIsName && p.lastIsWordChar

/-- The line and column of a place. A column counts the characters of the line
before it. -/
def position (source : List Char) (p : Place) : Position :=
  ⟨p.line, (Text.slice source p.lineStart p.start).length + 1⟩

/-- The place behind a piece. Only a token changes what the last token is, and
nothing malformed ends a line. -/
def after (p : Place) (cut : Cut) : Place :=
  let cursor := p.start + Text.size cut.taken
  let endsLine := cut.taken.head? == some '\n' && !cut.reading.isMalformed
  { start := cursor
    line := if endsLine then p.line + 1 else p.line
    lineStart := if endsLine then cursor else p.lineStart
    lastIsName := Reading.lastIsName p.lastIsName cut.reading
    lastIsWordChar := (cut.taken.getLast?.map Cut.isWordChar).getD p.lastIsWordChar }

end Place

/-- What a piece that stands at a position adds to the tokens and flaws behind
it. -/
def record (position : Position) (cut : Cut) (behind : List Token × List Flaw) :
    List Token × List Flaw :=
  match cut.reading with
  | .skipped => behind
  | .token kind => (⟨kind, String.ofList cut.taken, position⟩ :: behind.1, behind.2)
  | .malformed cause => (behind.1, ⟨position, cause⟩ :: behind.2)

/-- The tokens and the flaws of what is left of a source from a place on. -/
def scanFrom (source : List Char) (place : Place) (text : List Char) :
    List Token × List Flaw :=
  match text with
  | [] => ([endMark (place.position source)], [])
  | c :: rest =>
      let cut := Cut.first place.afterName c rest
      record (place.position source) cut (scanFrom source (place.after cut) cut.rest)
termination_by text.length
decreasing_by exact (Cut.tiles_first _ c rest).rest_length_lt

/-- All that is met in a program text. -/
def scanAll (text : String) : List Token × List Flaw :=
  scanFrom text.toList .first text.toList

/-- The tokens of a program text, or everything that is malformed in it. -/
def scan (text : String) : Except (List Flaw) (List Token) :=
  match scanAll text with
  | (tokens, []) => .ok tokens
  | (_, flaws) => .error flaws

end Token

end Sulti
