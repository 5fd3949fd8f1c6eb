import Sulti.Text.Blank

/-!
Lines of a text and lines of a byte stream. Both are cut after each line feed,
so a text that ends in one has no empty line after it. They differ in what is
taken off the end of a line: a file loses the line feed and one carriage
return before it, a stream loses every carriage return and line feed there.
-/

namespace Sulti.Text

/-- Cuts a list after each element that ends a piece. -/
def cutAfter {α : Type} (ends : α → Bool) : List α → List (List α)
  | [] => []
  | a :: rest =>
      if ends a then
        [a] :: cutAfter ends rest
      else
        match cutAfter ends rest with
        | [] => [[a]]
        | piece :: pieces => (a :: piece) :: pieces

/-- A line of a file without its line ending. A carriage return counts as part
of the ending only right before a line feed. -/
def dropEnding (line : List Char) : List Char :=
  match line.reverse with
  | '\n' :: '\r' :: rest => rest.reverse
  | '\n' :: rest => rest.reverse
  | _ => line

def fileLines (text : String) : List String :=
  (cutAfter (· == '\n') text.toList).map fun line => String.ofList (dropEnding line)

/-- One line of a stream, or nothing if its bytes are not UTF-8. -/
def streamLine? (bytes : List UInt8) : Option String :=
  (String.fromUTF8? ⟨bytes.toArray⟩).map fun line =>
    String.ofList (dropTrailing (fun c => c == '\r' || c == '\n') line.toList)

def streamLines (bytes : List UInt8) : List (Option String) :=
  (cutAfter (· == 10) bytes).map streamLine?

end Sulti.Text
