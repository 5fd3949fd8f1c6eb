import Sulti.Grammar.Progress

/-!
A list of tokens as a program. The table holds the names declared before and
comes back with those of the program. Every list of tokens is either a program
or rejected: the number of tokens bounds everything that reading repeats.
-/

namespace Sulti

namespace Grammar

theorem length_ahead_ofTokens_le (table : Table Ty) (tokens : List Token) :
    (Cursor.ofTokens table tokens).ahead.length ≤ tokens.length :=
  List.IsPrefix.length_le (List.takeWhile_prefix _)

theorem program_ne_starved (mode : Mode) (table : Table Ty) (tokens : List Token) :
    program mode (tokens.length + 2) (.ofTokens table tokens) ≠ .error .starved := by
  intro h
  have settles := steady_program (Nat.lt_succ_self (tokens.length + 1)) mode
    (.ofTokens table tokens) (Nat.lt_succ_of_le (length_ahead_ofTokens_le table tokens))
  unfold Settles at settles
  rw [h] at settles
  exact settles

end Grammar

/-- The program that a list of tokens spells, with the names declared after
it, or the first reason why there is none. -/
def Program.ofTokens (mode : Mode) (table : Table Ty) (tokens : List Token) :
    Except Rejection (Program × Table Ty) :=
  match h : Grammar.program mode (tokens.length + 2) (.ofTokens table tokens) with
  | .ok (program, cursor) => .ok (program, cursor.table)
  | .error (.rejected r) => .error r
  | .error .starved => absurd h (Grammar.program_ne_starved mode table tokens)

end Sulti
