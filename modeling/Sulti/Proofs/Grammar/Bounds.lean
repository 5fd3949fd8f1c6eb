import Sulti.Proofs.Grammar.Outcome
import Sulti.Proofs.Grammar.Safety

/-!
A program is read to its end and within its tokens. Whatever the tokens are, the run
comes to a point where it ends, with the program or the reason why there is none. On
the way it is always at one of the tokens, it asks for no token behind the last, and
every statement of a list that it finishes has moved it on.
-/

namespace Sulti.Grammar

/-- An end mark that is put behind the tokens is where they are taken to end anyway. -/
theorem ofTokens_withEnd (table : Table Ty) (tokens : List Token) :
    Cursor.ofTokens table (withEnd tokens) = Cursor.ofTokens table tokens := by
  unfold withEnd
  split
  · rfl
  · generalize hs : (tokens.getLast?.map Token.position).getD .nowhere = stop
    have ahead : (tokens ++ [Token.endMark stop]).takeWhile (fun t => t.kind != .eof) =
        tokens.takeWhile fun t => t.kind != .eof := by
      rw [List.takeWhile_append]
      split
      · rename_i all
        rw [(List.takeWhile_prefix _).eq_of_length all]
        simp [Token.endMark]
      · rfl
    simp only [Cursor.ofTokens, ahead, List.find?_append]
    cases tokens.find? fun t => t.kind == .eof with
    | some mark => rfl
    | none => simp [Token.endMark, hs]

theorem cursor_start (text : Sheet) (table : Table Ty) :
    text.cursor ⟨0, table⟩ = Cursor.ofTokens table text.tokens := by
  obtain ⟨t, rest, tokens, eof⟩ := text.exists_mark
  have here : text.tokens[text.mark]? = some t := by simp [tokens, Sheet.mark]
  have inside : ∀ t ∈ text.front, t.kind ≠ .eof := by
    intro t member
    simpa using List.mem_takeWhile_imp member
  have found : text.tokens.find? (fun t => t.kind == .eof) = some t := by
    rw [tokens, List.find?_append, List.find?_eq_none.mpr (by simpa using inside)]
    simp [eof]
  simp only [Cursor.ofTokens, found, Sheet.cursor, text.token_of_getElem? here,
    Token.position_seen, List.drop_zero, Sheet.front]

/-- A larger bound reads the same program. -/
theorem program_eq_of_le (mode : Mode) (table : Table Ty) (tokens : List Token) {fuel : Nat}
    (enough : tokens.length + 2 ≤ fuel) :
    program mode fuel (.ofTokens table tokens) =
      program mode (tokens.length + 2) (.ofTokens table tokens) := by
  have meet := (abreast_program (P := .exact) trivial id id mode enough).meet course_eq
    (c := .ofTokens table tokens) rfl
  have fed := program_ne_starved mode table tokens
  generalize program mode (tokens.length + 2) (.ofTokens table tokens) = result at meet fed
  generalize program mode fuel (.ofTokens table tokens) = result' at meet
  cases meet with
  | ok same cursors =>
      cases same.eq
      cases cursors
      rfl
  | failed same => rw [same]
  | alone spent => exact spent.elim
  | starved => exact absurd rfl fed

/-- The point where the run of a program begins. -/
def Point.start (mode : Mode) (table : Table Ty) (fuel : Nat) : Point Program :=
  ⟨program mode fuel, .nil, ⟨0, table⟩⟩

/-- A text beside itself. -/
def Sheet.mirror (text : Sheet) : Pairing :=
  ⟨fun position _ => text.Has position, False, False, True⟩

theorem Sheet.mirrored (text : Sheet) : text.Mirrored text.mirror where
  same i := ⟨.refl _, text.has_token i⟩
  placed h := h

section

variable {mode : Mode} {table : Table Ty} {tokens : List Token} {fuel : Nat} {p : Point Program}

/-- The run of a program is safe from where it begins. -/
theorem safe_start (text : Sheet) (mode : Mode) (table : Table Ty) (fuel : Nat) :
    (Point.start mode table fuel).Safe text fun _ _ => True := by
  have steps := abreast_program (P := text.mirror) trivial id id mode (le_refl fuel)
  exact (steps.safe text.mirrored (Nat.zero_le _) trivial).mono fun _ _ _ => trivial

/-- Where the run of a program ends, it ends with the answer of the reader. -/
theorem answer_of_end (enough : tokens.length + 2 ≤ fuel)
    (way : (Point.start mode table fuel).Reaches (.ofTokens tokens) p)
    (ended : p.step (.ofTokens tokens) = none) :
    p.answer (.ofTokens tokens) = some (Program.ofTokens mode table tokens) := by
  have inside := (way.current (Nat.zero_le _)).2
  have same := Point.run_reaches (safe_start (.ofTokens tokens) mode table fuel)
    (Nat.zero_le _) way
  have whole : (Point.start mode table fuel).run (.ofTokens tokens) =
      program mode (tokens.length + 2) (.ofTokens table tokens) := by
    have start : (Sheet.ofTokens tokens).cursor ⟨0, table⟩ = Cursor.ofTokens table tokens :=
      (cursor_start _ table).trans (ofTokens_withEnd table tokens)
    change (program mode fuel ((Sheet.ofTokens tokens).cursor ⟨0, table⟩)).bind _ = _
    rw [start, program_eq_of_le mode table tokens enough]
    cases program mode (tokens.length + 2) (.ofTokens table tokens) <;> rfl
  rw [whole] at same
  obtain ⟨steps, frames, spot⟩ := p
  cases steps with
  | done program =>
      cases frames with
      | nil =>
          rw [Program.ofTokens_of_ok same.symm]
          rfl
      | measure first go rest => cases ended
      | item first go rest => cases ended
  | starve => exact absurd same.symm (program_ne_starved mode table tokens)
  | reject position cause =>
      rw [Program.ofTokens_of_rejected same.symm]
      rfl
  | unexpected expected =>
      have next := (Sheet.ofTokens tokens).next_cursor inside
      rw [Program.ofTokens_of_rejected same.symm, next]
      rfl
  | skip go =>
      rw [Point.step] at ended
      split at ended <;> cases ended
  | _ => cases ended

end

/-! Points of a run that is carried out. -/

/-- The point behind a number of steps, if the run has so many. -/
def Point.after {α : Type} (text : Sheet) : Nat → Point α → Option (Point α)
  | 0, p => some p
  | n + 1, p => (p.step text).bind (Point.after text n)

theorem Point.reaches_after {α : Type} {text : Sheet} {n : Nat} {p q : Point α}
    (h : p.after text n = some q) : p.Reaches text q := by
  induction n generalizing p with
  | zero =>
      cases h
      exact .refl
  | succ n ih =>
      obtain ⟨r, one, rest⟩ := Option.bind_eq_some_iff.mp h
      exact .head one (ih rest)

/-- Where the statements of lists began that have not been finished, the last one first. -/
def Frames.begun {α : Type} : {β : Type} → Frames β α → List Nat
  | _, .nil => []
  | _, .measure _ _ rest => rest.begun
  | _, .item first _ rest => first :: rest.begun

/-- The index where a statement of a list was begun, if it has just been read. -/
def Point.finished? {α : Type} : Point α → Option Nat
  | ⟨.done _, .item first _ _, _⟩ => some first
  | _ => none

theorem Point.eq_of_finished? {α : Type} {p : Point α} {first : Nat}
    (h : p.finished? = some first) :
    ∃ (β : Type) (s : Stmt) (go : Stmt → Parse β) (rest : Frames β α),
      p = ⟨.done s, .item first go rest, p.spot⟩ := by
  obtain ⟨steps, frames, spot⟩ := p
  cases steps with
  | done s =>
      cases frames with
      | item first go rest =>
          cases h
          exact ⟨_, s, go, rest, rfl⟩
      | _ => cases h
  | _ => cases h

def Parse.isSecond {α : Type} : Parse α → Bool
  | .second _ => true
  | _ => false

theorem Parse.eq_second {α : Type} {s : Parse α} (h : s.isSecond = true) :
    ∃ go, s = .second go := by
  cases s with
  | second go => exact ⟨go, rfl⟩
  | _ => cases h

/-- For any tokens and any bound from the one that is used on, the run of a program is that of
the steps of its reader, and they end with the program or the reason why there is none. At
every point of the run the index is at most that of the last token, and so is the one
behind it where the token there is asked for. A statement of a list that has been read
has ended at a larger index than the one it was begun at. -/
theorem run_bounded (mode : Mode) (table : Table Ty) (tokens : List Token) (extra : Nat) :
    let text := Sheet.ofTokens tokens
    let start := Point.start mode table (tokens.length + 2 + extra)
    start.steps = program mode (tokens.length + 2 + extra) ∧
    (∃ last, start.Reaches text last ∧ last.step text = none ∧
      last.answer text = some (Program.ofTokens mode table tokens)) ∧
    ∀ p, start.Reaches text p →
      p.spot.current ≤ text.last ∧
      (∀ go, p.steps = .second go → p.spot.current + 1 ≤ text.last) ∧
      ∀ (β : Type) (s : Stmt) (first : Nat) (go : Stmt → Parse β) (rest : Frames β Program),
        p = ⟨.done s, .item first go rest, p.spot⟩ → first < p.spot.current := by
  intro text start
  have safe := safe_start text mode table (tokens.length + 2 + extra)
  have inside : start.spot.current ≤ text.mark := Nat.zero_le _
  refine ⟨rfl, ?_, ?_⟩
  · obtain ⟨last, way, ended⟩ := Point.exists_end start.steps inside
    exact ⟨last, way, ended, answer_of_end (Nat.le_add_right _ _) way ended⟩
  · intro p way
    have here := safe.reaches inside way
    have inside := (way.current inside).2
    refine ⟨inside.trans text.mark_le_last, ?_, ?_⟩
    · intro go second
      rw [Point.Safe, second] at here
      exact (text.lt_mark_of_ne inside here.1).trans_le text.mark_le_last
    · intro β s first go rest finished
      rw [finished] at here
      exact here.1

/-- A block with a statement in it, and a word behind it that may begin an alternative. It is
the last token, so that the end mark put behind it is asked for. Of the statements begun at
the indices 6 and 0 the first one is read. -/
theorem run_bounded_block :
    let tokens : List Token := [⟨.kung, "KUNG", ⟨1, 1⟩⟩, ⟨.leftParen, "(", ⟨1, 6⟩⟩,
      ⟨.bool true, "\"OO\"", ⟨1, 7⟩⟩, ⟨.rightParen, ")", ⟨1, 11⟩⟩, ⟨.pundok, "PUNDOK", ⟨1, 13⟩⟩,
      ⟨.leftBrace, "\x7b", ⟨1, 20⟩⟩, ⟨.identifier "x", "x", ⟨1, 21⟩⟩,
      ⟨.rightBrace, "\x7d", ⟨1, 22⟩⟩, ⟨.kung, "KUNG", ⟨1, 24⟩⟩]
    let table := Table.empty.insert "x" Ty.numero
    let text := Sheet.ofTokens tokens
    let start := Point.start .repl table (tokens.length + 2)
    (∃ p β s go rest, start.Reaches text p ∧
      p = ⟨.done s, .item (β := β) 6 go rest, p.spot⟩ ∧ p.frames.begun = [6, 0] ∧
      6 < p.spot.current) ∧
    (∃ p go, start.Reaches text p ∧ p.steps = .second go ∧ p.spot.current = 8 ∧
      8 + 1 ≤ text.last) ∧
    ∃ last, start.Reaches text last ∧ last.answer text =
      some (.error ⟨⟨1, 24⟩, .unexpected "a newline" "'KUNG'"⟩) := by
  intro tokens table text start
  obtain ⟨_, ⟨last, way, _, answer⟩, bounded⟩ := run_bounded .repl table tokens 0
  have rejected : Program.ofTokens .repl table tokens =
      .error ⟨⟨1, 24⟩, .unexpected "a newline" "'KUNG'"⟩ := by
    dsimp only [tokens, table]
    rfl
  rw [rejected] at answer
  refine ⟨?_, ?_, last, way, answer⟩
  · have view : (start.after text 51).map (fun p => (p.finished?, p.frames.begun)) =
        some (some 6, [6, 0]) := by decide +kernel
    obtain ⟨p, behind, shown⟩ := Option.map_eq_some_iff.mp view
    obtain ⟨finished, begun⟩ := Prod.mk.inj shown
    obtain ⟨β, s, go, rest, whole⟩ := Point.eq_of_finished? finished
    have reached := Point.reaches_after behind
    exact ⟨p, β, s, go, rest, reached, whole, begun,
      (bounded p reached).2.2 β s 6 go rest whole⟩
  · have view : (start.after text 58).map (fun p => (p.steps.isSecond, p.spot.current)) =
        some (true, 8) := by decide +kernel
    obtain ⟨p, behind, shown⟩ := Option.map_eq_some_iff.mp view
    obtain ⟨asked, here⟩ := Prod.mk.inj shown
    obtain ⟨go, asked⟩ := Parse.eq_second asked
    have reached := Point.reaches_after behind
    have bound := (bounded p reached).2.1 go asked
    rw [here] at bound
    exact ⟨p, go, reached, asked, here, bound⟩

end Sulti.Grammar
