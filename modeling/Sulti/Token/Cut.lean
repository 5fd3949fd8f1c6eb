import Sulti.Decimal.Integer
import Sulti.Decimal.Numeral
import Sulti.Token.Basic

/-!
One piece cut from the front of a program text: a token, something to be
skipped, or something malformed. The pieces tile the text, because what is
taken and what is left always make up what was there. No piece but a line
break itself reaches over a line break.
-/

namespace Sulti

/-- Why a piece of text is no token. -/
inductive Malformed where
  | unexpected (c : Char)
  | unterminatedString
  | unterminatedChar
  | emptyChar
  | invalidEscape
  | pointWithoutDigit
  | outOfRange (digits : String)
  deriving DecidableEq, Repr

def Malformed.message : Malformed → String
  | .unexpected c => s!"Unexpected character '{c}'"
  | .unterminatedString => "Unterminated string literal"
  | .unterminatedChar => "Unterminated character literal"
  | .emptyChar => "Empty character literal"
  | .invalidEscape => "Invalid escaped character, expected [c]"
  | .pointWithoutDigit => "Invalid numeric literal: expected digit after decimal point"
  | .outOfRange digits => s!"Invalid numeric literal: {digits} is out of range"

inductive Reading where
  | skipped
  | token (kind : Token.Kind)
  | malformed (cause : Malformed)

structure Cut where
  taken : List Char
  rest : List Char
  reading : Reading

namespace Cut

/-- The characters that a name may go on with. -/
def isWordChar (c : Char) : Bool := c.isAlphanum || c == '_'

/-- A single character. -/
def single (c : Char) (rest : List Char) (kind : Token.Kind) : Cut :=
  ⟨[c], rest, .token kind⟩

/-- The longer of two operators if the second character follows. -/
def paired (c second : Char) (rest : List Char) (long short : Token.Kind) : Cut :=
  match rest with
  | d :: more => if d = second then ⟨[c, d], more, .token long⟩ else single c rest short
  | [] => single c rest short

def less (rest : List Char) : Cut :=
  match rest with
  | '=' :: more => ⟨['<', '='], more, .token .lessEqual⟩
  | '>' :: more => ⟨['<', '>'], more, .token .notEqual⟩
  | _ => single '<' rest .less

/-- A minus sign. Two of them are a decrement right behind a name and start a
comment anywhere else. -/
def minus (afterName : Bool) (rest : List Char) : Cut :=
  match rest with
  | '-' :: more =>
      if afterName then
        ⟨['-', '-'], more, .token .minusMinus⟩
      else
        ⟨'-' :: '-' :: more.takeWhile (· != '\n'), more.dropWhile (· != '\n'), .skipped⟩
  | _ => single '-' rest .minus

/-- A text between double quotes, which has to end on its line. -/
def quoted (rest : List Char) : Cut :=
  let inside := fun c : Char => c != '\x22' && c != '\n'
  let content := rest.takeWhile inside
  match rest.dropWhile inside with
  | '\x22' :: more =>
      ⟨'\x22' :: (content ++ ['\x22']), more, .token (.ofQuoted (String.ofList content))⟩
  | more => ⟨'\x22' :: content, more, .malformed .unterminatedString⟩

/-- A character between single quotes. -/
def character (rest : List Char) : Cut :=
  match rest with
  | [] => ⟨['\x27'], rest, .malformed .unterminatedChar⟩
  | '\n' :: _ => ⟨['\x27'], rest, .malformed .unterminatedChar⟩
  | '\x27' :: more => ⟨['\x27', '\x27'], more, .malformed .emptyChar⟩
  | c :: '\x27' :: more => ⟨['\x27', c, '\x27'], more, .token (.char c)⟩
  | c :: more => ⟨['\x27', c], more, .malformed .unterminatedChar⟩

/-- A character between square brackets. -/
def bracketed (rest : List Char) : Cut :=
  match rest with
  | '\n' :: _ => ⟨['['], rest, .malformed .invalidEscape⟩
  | c :: ']' :: more => ⟨['[', c, ']'], more, .token (.escaped c)⟩
  | _ => ⟨['['], rest, .malformed .invalidEscape⟩

/-- A number that starts with the digit `c`. A point belongs to it and has to
be followed by a digit. -/
def number (c : Char) (rest : List Char) : Cut :=
  let whole := c :: rest.takeWhile Char.isDigit
  match rest.dropWhile Char.isDigit with
  | '.' :: more =>
      let fraction := more.takeWhile Char.isDigit
      let reading :=
        if fraction.isEmpty then
          .malformed .pointWithoutDigit
        else
          .token (.real
            (Decimal.nearest (Decimal.ofDigits (whole ++ fraction)) (-(fraction.length : Int))))
      ⟨whole ++ '.' :: fraction, more.dropWhile Char.isDigit, reading⟩
  | more =>
      let reading := match Numero.ofInt? (Decimal.ofDigits whole) with
        | some n => .token (.int n)
        | none => .malformed (.outOfRange (String.ofList whole))
      ⟨whole, more, reading⟩

def word (c : Char) (rest : List Char) : Cut :=
  let taken := c :: rest.takeWhile isWordChar
  ⟨taken, rest.dropWhile isWordChar, .token (.ofWord (String.ofList taken))⟩

/-- The characters that are a token whatever follows them. -/
def mark? : Char → Option Token.Kind
  | '(' => some .leftParen
  | ')' => some .rightParen
  | '\x7b' => some .leftBrace
  | '\x7d' => some .rightBrace
  | ',' => some .comma
  | ':' => some .colon
  | '&' => some .ampersand
  | '$' => some .carriageReturn
  | '*' => some .star
  | '/' => some .slash
  | '%' => some .percent
  | '\n' => some .newline
  | _ => none

/-- The piece at the front of a text that starts with no such character. -/
def other (afterName : Bool) (c : Char) (rest : List Char) : Cut :=
  match c with
  | '+' => paired '+' '+' rest .plusPlus .plus
  | '=' => paired '=' '=' rest .equalEqual .equal
  | '>' => paired '>' '=' rest .greaterEqual .greater
  | '<' => less rest
  | '-' => minus afterName rest
  | '\x22' => quoted rest
  | '\x27' => character rest
  | '[' => bracketed rest
  | _ =>
      if c == ' ' || c == '\r' || c == '\t' then ⟨[c], rest, .skipped⟩
      else if c.isDigit then number c rest
      else if c.isAlpha || c == '_' then word c rest
      else ⟨[c], rest, .malformed (.unexpected c)⟩

/-- The piece at the front of the text `c :: rest`. -/
def first (afterName : Bool) (c : Char) (rest : List Char) : Cut :=
  match mark? c with
  | some kind => single c rest kind
  | none => other afterName c rest

/-- A cut that takes at least one character of `text` and leaves the others. -/
structure Tiles (cut : Cut) (text : List Char) : Prop where
  append : cut.taken ++ cut.rest = text
  nonempty : cut.taken ≠ []

theorem Tiles.rest_length_lt {cut : Cut} {text : List Char} (h : cut.Tiles text) :
    cut.rest.length < text.length := by
  have length := congrArg List.length h.append
  have positive : 0 < cut.taken.length := List.length_pos_iff.2 h.nonempty
  simp only [List.length_append] at length
  omega

theorem tiles_single (c : Char) (rest : List Char) (kind : Token.Kind) :
    (single c rest kind).Tiles (c :: rest) :=
  ⟨rfl, by simp [single]⟩

theorem tiles_paired (c second : Char) (rest : List Char) (long short : Token.Kind) :
    (paired c second rest long short).Tiles (c :: rest) := by
  unfold paired
  split
  · split
    · exact ⟨rfl, by simp⟩
    · exact tiles_single ..
  · exact tiles_single ..

theorem tiles_less (rest : List Char) : (less rest).Tiles ('<' :: rest) := by
  unfold less
  split
  · exact ⟨rfl, by simp⟩
  · exact ⟨rfl, by simp⟩
  · exact tiles_single ..

theorem tiles_minus (afterName : Bool) (rest : List Char) :
    (minus afterName rest).Tiles ('-' :: rest) := by
  unfold minus
  split
  · split
    · exact ⟨rfl, by simp⟩
    · exact ⟨by simp [List.takeWhile_append_dropWhile], by simp⟩
  · exact tiles_single ..

theorem tiles_quoted (rest : List Char) : (quoted rest).Tiles ('\x22' :: rest) := by
  have whole := List.takeWhile_append_dropWhile (p := fun c : Char => c != '\x22' && c != '\n')
    (l := rest)
  unfold quoted
  simp only
  split
  · rename_i more h
    rw [h] at whole
    exact ⟨by simp [whole], by simp⟩
  · exact ⟨by simp [whole], by simp⟩

theorem tiles_character (rest : List Char) : (character rest).Tiles ('\x27' :: rest) := by
  unfold character
  split <;> exact ⟨by simp, by simp⟩

theorem tiles_bracketed (rest : List Char) : (bracketed rest).Tiles ('[' :: rest) := by
  unfold bracketed
  split <;> exact ⟨by simp, by simp⟩

theorem tiles_number (c : Char) (rest : List Char) : (number c rest).Tiles (c :: rest) := by
  have whole := List.takeWhile_append_dropWhile (p := Char.isDigit) (l := rest)
  unfold number
  simp only
  split
  · rename_i more h
    rw [h] at whole
    have fraction := List.takeWhile_append_dropWhile (p := Char.isDigit) (l := more)
    exact ⟨by simp [fraction, whole], by simp⟩
  · exact ⟨by simp [whole], by simp⟩

theorem tiles_word (c : Char) (rest : List Char) : (word c rest).Tiles (c :: rest) :=
  ⟨by simp [word, List.takeWhile_append_dropWhile], by simp [word]⟩

theorem tiles_other (afterName : Bool) (c : Char) (rest : List Char) :
    (other afterName c rest).Tiles (c :: rest) := by
  unfold other
  split
  · exact tiles_paired ..
  · exact tiles_paired ..
  · exact tiles_paired ..
  · exact tiles_less ..
  · exact tiles_minus ..
  · exact tiles_quoted ..
  · exact tiles_character ..
  · exact tiles_bracketed ..
  · split
    · exact ⟨rfl, by simp⟩
    · split
      · exact tiles_number ..
      · split
        · exact tiles_word ..
        · exact ⟨rfl, by simp⟩

theorem tiles_first (afterName : Bool) (c : Char) (rest : List Char) :
    (first afterName c rest).Tiles (c :: rest) := by
  unfold first
  split
  · exact tiles_single ..
  · exact tiles_other ..

end Cut

end Sulti
