import Sulti.Proofs.Grammar.Lines

/-!
Blank lines mean nothing. A line break behind another one can be put in or left
out anywhere, and the tokens are the same program with the same names declared
behind it, or are rejected for the same reason at the same place.

A reader takes a line break in one of two ways. At the end of a statement it takes
exactly one, and then the cursors may differ by the line breaks in front of them;
everywhere else it takes all there are. An expression that is blank takes none and
is placed at the first of them, which is the one that stays.
-/

namespace Sulti

namespace Grammar

/-- The same tokens, but with more line breaks behind those that are there. -/
inductive Padded : List Token → List Token → Prop where
  | nil : Padded [] []
  | cons (token : Token) {tokens padded : List Token} (h : Padded tokens padded) :
      Padded (token :: tokens) (token :: padded)
  | blank {line extra : Token} {tokens padded : List Token} (hl : line.kind = .newline)
      (he : extra.kind = .newline) (h : Padded (line :: tokens) (line :: padded)) :
      Padded (line :: tokens) (line :: extra :: padded)

namespace Padded

variable {tokens padded : List Token}

theorem refl (tokens : List Token) : Padded tokens tokens := by
  induction tokens with
  | nil => exact .nil
  | cons token tokens ih => exact .cons token ih

theorem append_left (front : List Token) (h : Padded tokens padded) :
    Padded (front ++ tokens) (front ++ padded) := by
  induction front with
  | nil => exact h
  | cons token front ih => exact .cons token ih

theorem head? (h : Padded tokens padded) : padded.head? = tokens.head? := by
  cases h <;> simp

theorem length_le (h : Padded tokens padded) : tokens.length ≤ padded.length := by
  induction h with
  | nil => simp
  | cons token _ ih => simpa using ih
  | blank _ _ _ ih =>
      simp only [List.length_cons] at ih ⊢
      omega

/-- Nothing is put in before a token that is no line break. -/
theorem tail (h : Padded tokens padded) (inline : ∀ t ∈ tokens.head?, t.kind ≠ .newline) :
    Padded tokens.tail padded.tail := by
  cases h with
  | nil => exact .nil
  | cons _ h => exact h
  | blank hl _ _ => exact absurd hl (inline _ rfl)

/-- Behind all line breaks nothing is left of those that were put in there. -/
theorem dropWhile (h : Padded tokens padded) :
    Padded (tokens.dropWhile isBreak) (padded.dropWhile isBreak) := by
  induction h with
  | nil => exact .nil
  | cons token h ih =>
      by_cases line : isBreak token
      · simpa [line] using ih
      · simpa [line] using Padded.cons token h
  | blank hl he _ ih => simpa [isBreak, hl, he] using ih

theorem takeWhile (h : Padded tokens padded) :
    Padded (tokens.takeWhile fun t => t.kind != .eof)
      (padded.takeWhile fun t => t.kind != .eof) := by
  induction h with
  | nil => exact .nil
  | cons token h ih =>
      by_cases mark : token.kind = .eof
      · simpa [mark] using Padded.nil
      · simpa [mark] using ih.cons token
  | blank hl he _ ih =>
      simp only [hl, he, List.takeWhile_cons, bne_iff_ne, ne_eq, reduceCtorEq,
        not_false_eq_true, if_true] at ih ⊢
      exact ih.blank hl he

theorem find?_eof (h : Padded tokens padded) :
    padded.find? (fun t => t.kind == .eof) = tokens.find? fun t => t.kind == .eof := by
  induction h with
  | nil => rfl
  | cons token _ ih => simp only [List.find?_cons, ih]
  | blank hl he _ ih => simpa [hl, he] using ih

end Padded

/-- Cursors in front of the same tokens but for blank lines. -/
structure Cursor.Padded (c d : Cursor) : Prop where
  ahead : Grammar.Padded c.ahead d.ahead
  stop : d.stop = c.stop
  table : d.table = c.table

namespace Cursor.Padded

variable {c d : Cursor}

theorem next (h : Padded c d) : d.next = c.next := by
  simp only [Cursor.next, List.headD_eq_head?_getD, h.ahead.head?, h.stop]

theorem forward (h : Padded c d) (inline : c.next.kind ≠ .newline) :
    Padded c.forward d.forward := by
  constructor
  · apply h.ahead.tail
    intro t first
    simpa [Cursor.next, List.headD_eq_head?_getD, Option.mem_def.mp first] using inline
  · exact h.stop
  · exact h.table

theorem dropNewlines (h : Padded c d) : Padded c.dropNewlines d.dropNewlines :=
  ⟨h.ahead.dropWhile, h.stop, h.table⟩

/-- Behind a first line break, the line breaks that follow lead to the same place. -/
theorem forward_dropNewlines (h : Padded c d) (line : c.next.kind = .newline) :
    Padded c.forward.dropNewlines d.forward.dropNewlines := by
  rw [Grammar.dropNewlines_forward line, Grammar.dropNewlines_forward (by rw [h.next, line])]
  exact h.dropNewlines

theorem ofTokens {tokens padded : List Token} (h : Grammar.Padded tokens padded)
    (marked : ∃ t ∈ tokens, t.kind = .eof) (table : Table Ty) :
    Padded (.ofTokens table tokens) (.ofTokens table padded) := by
  constructor
  · exact h.takeWhile
  · obtain ⟨mark, found⟩ : ∃ mark, tokens.find? (fun t => t.kind == .eof) = some mark := by
      simpa [List.find?_isSome, ← Option.isSome_iff_exists] using marked
    simp only [Cursor.ofTokens, h.find?_eof, found]
  · rfl

end Cursor.Padded

theorem course_padded : Course .exact Cursor.Padded
    (fun c d => c.dropNewlines.Padded d.dropNewlines) (fun _ _ => False)
    fun r halt => halt = .rejected r where
  next h := .inl (Pairing.same_exact h.next)
  table h := h.table
  declare h name ty := ⟨h.ahead, h.stop, by rw [Cursor.declare, Cursor.declare, h.table]⟩
  forward h _ inline _ := h.forward inline
  newline _ h line _ := .inl (h.forward_dropNewlines line)
  loosen h := h.dropNewlines
  skip _ h := .inl h
  spent := False.elim
  ended := False.elim
  apart := False.elim
  remain := False.elim
  rejected _ placed := placed ▸ rfl
  unexpected h _ := by rw [h.next]
  free framed := framed.elim

end Grammar

namespace Program

open Grammar

/-- Any number of blank lines makes no difference in front of an end mark. -/
theorem ofTokens_padded {tokens padded : List Token} (h : Padded tokens padded)
    (marked : ∃ t ∈ tokens, t.kind = .eof) (mode : Mode) (table : Table Ty) :
    ofTokens mode table padded = ofTokens mode table tokens := by
  have larger : tokens.length + 2 ≤ padded.length + 2 := Nat.add_le_add_right h.length_le 2
  have meet := (abreast_program (P := .exact) trivial id id mode larger).meet course_padded
    (Cursor.Padded.ofTokens h marked table)
  generalize hc : program mode (tokens.length + 2) (.ofTokens table tokens) = x at meet
  generalize hd : program mode (padded.length + 2) (.ofTokens table padded) = y at meet
  cases meet with
  | ok same behind =>
      cases same.eq
      rw [ofTokens_of_ok hc, ofTokens_of_ok hd, behind.table]
  | failed same =>
      subst same
      rw [ofTokens_of_rejected hc, ofTokens_of_rejected hd]
  | alone spent => exact spent.elim
  | starved => exact absurd hc (program_ne_starved mode table tokens)

/-- One more line break behind a line break, wherever it is placed, changes neither the
program and the names behind it nor the reason for which there is none. -/
theorem ofTokens_blank_line (mode : Mode) (table : Table Ty) (before after : List Token)
    (line extra : Token) (hl : line.kind = .newline) (he : extra.kind = .newline)
    (ends : (before ++ line :: after).getLast?.map Token.kind = some .eof) :
    ofTokens mode table (before ++ line :: extra :: after) =
      ofTokens mode table (before ++ line :: after) := by
  apply ofTokens_padded
  · exact ((Padded.refl (line :: after)).blank hl he).append_left before
  · obtain ⟨mark, last, hk⟩ := Option.map_eq_some_iff.mp ends
    exact ⟨mark, List.mem_of_getLast? last, hk⟩

/-- A blank item at the end of a line, which is placed at the line break that stays, and a
parenthesis behind the blank line, which is where both are rejected. -/
theorem ofTokens_blank_line_item :
    let front : List Token := [⟨.ipakita, "IPAKITA", ⟨1, 1⟩⟩, ⟨.colon, ":", ⟨1, 8⟩⟩]
    let line : Token := ⟨.newline, "\n", ⟨1, 9⟩⟩
    let extra : Token := ⟨.newline, "\n", ⟨2, 1⟩⟩
    let paren : Token := ⟨.rightParen, ")", ⟨3, 1⟩⟩
    let mark : Token := .endMark ⟨3, 2⟩
    ofTokens .repl .empty (front ++ [line, extra, mark]) =
        .ok ([.print [.blank ⟨.empty, ⟨1, 9⟩⟩]], .empty) ∧
      ofTokens .repl .empty (front ++ [line, extra, paren, mark]) =
        .error ⟨⟨3, 1⟩, .unexpected "an expression" "')'"⟩ := by
  intro front line extra paren mark
  constructor
  · rw [ofTokens_blank_line .repl .empty front [mark] line extra rfl rfl rfl]
    apply ofTokens_of_ok (d := ⟨[], ⟨3, 2⟩, .empty⟩)
    rfl
  · rw [ofTokens_blank_line .repl .empty front [paren, mark] line extra rfl rfl rfl]
    apply ofTokens_of_rejected
    rfl

end Program

end Sulti
