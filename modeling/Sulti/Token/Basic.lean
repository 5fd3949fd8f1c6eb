import Sulti.Numero
import Sulti.Position

/-!
The tokens of Bisaya++. A token has a kind, the piece of text it was read
from and the place where that piece starts. The kind holds what the piece
stands for, so that a name or a literal is not read a second time.
-/

namespace Sulti

inductive Token.Kind where
  | newline
  /-- Blank space, which scanning leaves out. -/
  | blank
  /-- A comment, which scanning leaves out. -/
  | comment
  | leftParen
  | rightParen
  | leftBrace
  | rightBrace
  | comma
  | colon
  | ampersand
  /-- The sign `$`, which stands for a line break in output. -/
  | carriageReturn
  | plus
  | minus
  | star
  | slash
  | percent
  | plusPlus
  | minusMinus
  | equal
  | equalEqual
  | notEqual
  | greater
  | greaterEqual
  | less
  | lessEqual
  | identifier (name : String)
  | string (s : String)
  | int (n : Numero)
  | real (x : Float)
  | char (c : Char)
  /-- A character in square brackets. -/
  | escaped (c : Char)
  | bool (b : Bool)
  | sugod
  | katapusan
  | mugna
  /-- One of the words for the types that can be declared. -/
  | typeName
  | dawat
  | ipakita
  | kung
  | wala
  | pundok
  | alang
  | sa
  | ug
  | o
  | dili
  | eof
  deriving DecidableEq

structure Token where
  kind : Token.Kind
  lexeme : String
  position : Position
  deriving DecidableEq

namespace Token

/-- The mark behind the last token of a text. -/
def endMark (position : Position) : Token := ⟨.eof, "", position⟩

/-- How a message speaks of a token. -/
def describe (t : Token) : String :=
  match t.kind with
  | .eof => "end of input"
  | .newline => "newline"
  | _ => s!"'{t.lexeme}'"

namespace Kind

def isIdentifier : Kind → Bool
  | .identifier _ => true
  | _ => false

/-- The kind of a word: a keyword, or else a name. -/
def ofWord (word : String) : Kind :=
  match word with
  | "SUGOD" => .sugod
  | "KATAPUSAN" => .katapusan
  | "MUGNA" => .mugna
  | "NUMERO" | "TIPIK" | "LETRA" | "TINUOD" => .typeName
  | "DAWAT" => .dawat
  | "IPAKITA" => .ipakita
  | "KUNG" => .kung
  | "WALA" => .wala
  | "PUNDOK" => .pundok
  | "ALANG" => .alang
  | "SA" => .sa
  | "UG" => .ug
  | "O" => .o
  | "DILI" => .dili
  | "OO" => .bool true
  | _ => .identifier word

/-- The kind of a text between double quotes: the two truth values are written
that way too. -/
def ofQuoted (content : String) : Kind :=
  match content with
  | "OO" => .bool true
  | "DILI" => .bool false
  | _ => .string content

end Kind

end Token

end Sulti
