import Sulti.Text.Hidden

/-!
A character between single quotes, as it appears in the text of an
expression. The common controls, the quote itself and the backslash have
short escapes; any other character that shows nothing of its own is written
as its code point.
-/

namespace Sulti.Text

/-- The code point of a character in hexadecimal, between braces. -/
def codePoint (c : Char) : List Char :=
  ['\x5c', 'u', '\x7b'] ++ Nat.toDigits 16 c.toNat ++ ['\x7d']

def escape (c : Char) : List Char :=
  match c with
  | '\x00' => ['\x5c', '0']
  | '\t' => ['\x5c', 't']
  | '\r' => ['\x5c', 'r']
  | '\n' => ['\x5c', 'n']
  | '\x27' => ['\x5c', '\x27']
  | '\x5c' => ['\x5c', '\x5c']
  | _ => if isHidden c then codePoint c else [c]

def quoteChar (c : Char) : String :=
  String.ofList ('\x27' :: escape c ++ ['\x27'])

end Sulti.Text
