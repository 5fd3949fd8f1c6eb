/-!
Places in a text by the bytes in front of them, as they are counted where the
text is kept in UTF-8. Characters take up one to four bytes, so what stands
between two such places has fewer characters than bytes.
-/

namespace Sulti.Text

/-- The bytes that a text takes up. -/
def size : List Char → Nat
  | [] => 0
  | c :: rest => c.utf8Size + size rest

/-- The text without its first `n` bytes. -/
def dropBytes (n : Nat) : List Char → List Char
  | [] => []
  | c :: rest => if n = 0 then c :: rest else dropBytes (n - c.utf8Size) rest

/-- The first `n` bytes of a text. -/
def takeBytes (n : Nat) : List Char → List Char
  | [] => []
  | c :: rest => if n = 0 then [] else c :: takeBytes (n - c.utf8Size) rest

/-- What stands between two places. -/
def slice (text : List Char) (start stop : Nat) : List Char :=
  takeBytes (stop - start) (dropBytes start text)

end Sulti.Text
