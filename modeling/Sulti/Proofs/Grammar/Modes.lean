import Sulti.Proofs.Grammar.Lines
import Sulti.Proofs.Grammar.Success

/-!
The two modes of reading accept the same programs. What stands between the
words around a program is read at the prompt as it is read between them, and
a program with these words is read the same in both modes.
-/

namespace Sulti

namespace Grammar

/-- The same tokens, without and with the closing word behind them. -/
structure Framed (closing : Token) (c d : Cursor) : Prop where
  table : d.table = c.table
  plain : Plain c.ahead
  ahead : d.ahead = c.ahead ++ [closing]

namespace Framed

variable {closing : Token} {c d : Cursor}

theorem next (hk : closing.kind = .katapusan) (h : Framed closing c d) :
    d.next = c.next ∨ c.next.kind = .eof ∧ d.next.kind = .katapusan := by
  cases hc : c.ahead with
  | nil =>
      right
      constructor
      · exact next_kind_of_ahead_nil hc
      · simp [Cursor.next, h.ahead, hc, hk]
  | cons t ts =>
      left
      simp [Cursor.next, h.ahead, hc]

theorem forward (h : Framed closing c d) (inside : c.next.kind ≠ .eof) :
    Framed closing c.forward d.forward := by
  cases hc : c.ahead with
  | nil => exact absurd (next_kind_of_ahead_nil hc) inside
  | cons t ts =>
      constructor
      · exact h.table
      · exact fun u hu => h.plain u (List.mem_of_mem_tail hu)
      · simp [Cursor.forward, h.ahead, hc]

theorem dropNewlines (hk : closing.kind = .katapusan) (h : Framed closing c d) :
    Framed closing c.dropNewlines d.dropNewlines := by
  constructor
  · exact h.table
  · exact h.plain.dropNewlines
  · change d.ahead.dropWhile isBreak = c.ahead.dropWhile isBreak ++ [closing]
    have last : [closing].dropWhile isBreak = [closing] := by simp [isBreak, hk]
    rw [h.ahead, List.dropWhile_append, last]
    split
    · rename_i empty
      rw [List.isEmpty_iff.mp empty]
      rfl
    · rfl

end Framed

/-- The same text, but the one may be closed where the other ends. -/
def Pairing.enclosed : Pairing := ⟨Eq, True, False, True⟩

/-- The closing word makes no difference to reading what stands before it, except that other
tokens are complained of. -/
theorem course_framed {closing : Token} (hk : closing.kind = .katapusan) :
    Course .enclosed (Framed closing) (Framed closing) (fun _ _ => False) fun _ _ => True where
  next h := by
    rcases h.next hk with same | ⟨eof, katapusan⟩
    · exact .inl (same ▸ ⟨.refl _, rfl⟩)
    · exact .inr ⟨trivial, .inl eof, .inr katapusan⟩
  table h := h.table
  declare h name ty := ⟨by rw [Cursor.declare, Cursor.declare, h.table], h.plain, h.ahead⟩
  forward h _ _ inside := h.forward inside
  newline _ h hc _ := .inl (h.forward (by simp [hc]))
  loosen h := h
  skip _ h := .inl (h.dropNewlines hk)
  spent := False.elim
  ended := False.elim
  apart := False.elim
  remain := False.elim
  rejected _ _ := trivial
  unexpected _ _ := trivial
  free _ _ _ := trivial

/-- Behind the opening word both modes go on alike. -/
theorem program_of_sugod (mode : Mode) {fuel : Nat} {c : Cursor}
    (h : c.dropNewlines.next.kind = .sugod) :
    program mode fuel c = (do
      let body ← statements .katapusan (statement fuel) fuel
      closing true
      ending
      return body : Parse Program) c.dropNewlines.forward := by
  rw [program, bind_of_ok (p := skipNewlines) rfl]
  apply bind_of_ok
  cases mode with
  | program => exact bind_of_ok (expect_of_kind h)
  | repl => exact accept_of_kind h

theorem sugod_of_program {fuel : Nat} {c d : Cursor} {body : Program}
    (h : program .program fuel c = .ok (body, d)) : c.dropNewlines.next.kind = .sugod := by
  have looks : Yields (program .program fuel) c fun _ _ =>
      c.dropNewlines.next.kind = .sugod := by
    apply yields_skipNewlines_bind
    apply Yields.bind
    apply Yields.bind
    apply yields_expect
    intro sugod
    exact yields_pure fun _ _ _ => sugod
  exact looks body d h

theorem program_closing {c : Cursor} {last : Token} (h : c.ahead = [last])
    (hk : last.kind = .katapusan) (body : Program) : (do
      closing true
      ending
      return body : Parse Program) c = .ok (body, c.forward) := by
  have first : c.next.kind = .katapusan := by simp [Cursor.next, h, hk]
  have closed : closing true c = .ok ((), c.forward) := expect_of_kind first
  rw [bind_of_ok closed]
  obtain ⟨ahead, stop, table⟩ := c
  cases h
  rfl

/-- Plain statements are read up to their end, or up to the closing word behind them, or
not at all. -/
theorem statements_framed {last : Token} (hl : last.kind = .katapusan) {n m : Nat} (hn : n ≤ m)
    {c d : Cursor} (framed : Framed last c d) (bound : c.ahead.length + 1 < n) :
    (∃ body c' d', statements .katapusan (statement n) n c = .ok (body, c') ∧
        statements .katapusan (statement m) m d = .ok (body, d') ∧
        c'.ahead = [] ∧ d'.ahead = [last] ∧ d'.table = c'.table) ∨
      ∃ halt halt', statements .katapusan (statement n) n c = .error halt ∧
        statements .katapusan (statement m) m d = .error halt' := by
  have meet := (abreast_statements (P := .enclosed) trivial (abreast_statement trivial hn) hn
    id).meet (course_framed hl) (.inl framed)
  have settles : Settles (statements .katapusan (statement n) n) c :=
    steady_statements (eager_statement bound) (Nat.le_of_lt bound) c (Nat.lt_succ_self _)
  unfold Settles at settles
  generalize hc : statements .katapusan (statement n) n c = x at meet settles
  generalize hd : statements .katapusan (statement m) m d = y at meet
  cases meet with
  | ok same behind =>
      cases same.eq
      -- Of the two tokens that end statements, plain ones can only have come to the end.
      have empty := behind.plain.next.2.2 ((statements_ends hc).resolve_left behind.plain.next.2.1)
      refine Or.inl ⟨_, _, _, rfl, rfl, empty, ?_, behind.table⟩
      rw [behind.ahead, empty]
      rfl
  | failed _ => exact Or.inr ⟨_, _, rfl, rfl⟩
  | alone spent => exact spent.elim
  | starved => exact settles.elim

/-- A plain program is read alike at the prompt and, between its two words, in program mode. -/
theorem program_framed {first last : Token} (hf : first.kind = .sugod)
    (hl : last.kind = .katapusan) {n m : Nat} (hn : n ≤ m) {c d : Cursor}
    (table : d.table = c.table) (plain : Plain c.ahead)
    (ahead : d.ahead = first :: c.ahead ++ [last]) (bound : c.ahead.length + 1 < n) :
    (∃ body c' d', program .repl n c = .ok (body, c') ∧
        program .program m d = .ok (body, d') ∧ d'.table = c'.table) ∨
      ∃ halt halt', program .repl n c = .error halt ∧ program .program m d = .error halt' := by
  have sugod : d.next.kind = .sugod := by simp [Cursor.next, ahead, hf]
  have dropped : d.dropNewlines = d := dropNewlines_of_ne (by simp [sugod])
  have inner : Framed last c d.forward := ⟨table, plain, by simp [Cursor.forward, ahead]⟩
  have prompt : program .repl n c = _ := program_of_plain plain
  have framed : program .program m d = _ := program_of_sugod .program (by rw [dropped, sugod])
  rw [dropped] at framed
  rcases statements_framed hl hn inner bound with
    ⟨body, c', d', hc, hd, none, one, tables⟩ | ⟨halt, halt', hc, hd⟩
  · refine Or.inl ⟨body, c', d'.forward, ?_, ?_, tables⟩
    · rw [prompt, bind_of_ok ((statements_dropNewlines ..).trans hc)]
      exact program_end none body
    · rw [framed, bind_of_ok hd]
      exact program_closing one hl body
  · refine Or.inr ⟨halt, halt', ?_, ?_⟩
    · rw [prompt, bind_of_error ((statements_dropNewlines ..).trans hc)]
    · rw [framed, bind_of_error hd]

theorem ahead_ofTokens {tokens tail : List Token} (inside : ∀ t ∈ tokens, t.kind ≠ .eof)
    (ends : ∀ t ∈ tail.head?, t.kind = .eof) (table : Table Ty) :
    (Cursor.ofTokens table (tokens ++ tail)).ahead = tokens := by
  have none : tail.takeWhile (fun t => t.kind != .eof) = [] := by
    cases tail with
    | nil => rfl
    | cons t ts => simp [ends t rfl]
  change (tokens ++ tail).takeWhile (fun t => t.kind != .eof) = tokens
  rw [List.takeWhile_append_of_pos (by simpa using inside), none, List.append_nil]

end Grammar

namespace Program

open Grammar

theorem ofTokens_framed_iff {table : Table Ty} {tokens tail : List Token} {first last : Token}
    (plain : Plain tokens) (hf : first.kind = .sugod) (hl : last.kind = .katapusan)
    (ends : ∀ t ∈ tail.head?, t.kind = .eof) (result : Program × Table Ty) :
    ofTokens .repl table (tokens ++ tail) = .ok result ↔
      ofTokens .program table (first :: tokens ++ [last] ++ tail) = .ok result := by
  have inside : ∀ t ∈ first :: tokens ++ [last], t.kind ≠ .eof := by
    simp only [List.forall_mem_append, List.forall_mem_cons]
    exact ⟨⟨by simp [hf], fun t ht => (plain t ht).2.2⟩, by simp [hl]⟩
  have hc := ahead_ofTokens (fun t ht => (plain t ht).2.2) ends table
  have hd := ahead_ofTokens inside ends table
  have larger : (tokens ++ tail).length + 2 ≤ (first :: tokens ++ [last] ++ tail).length + 2 := by
    simp only [List.length_append, List.length_cons]
    omega
  have bound : tokens.length + 1 < (tokens ++ tail).length + 2 := by
    rw [List.length_append]
    omega
  have start : (Cursor.ofTokens table (first :: tokens ++ [last] ++ tail)).table =
      (Cursor.ofTokens table (tokens ++ tail)).table := rfl
  rcases program_framed hf hl larger start (by rwa [hc]) (by rw [hc, hd]) (by rwa [hc]) with
    ⟨body, c, d, read, read', tables⟩ | ⟨halt, halt', failed, failed'⟩
  · rw [ofTokens_of_ok read, ofTokens_of_ok read', tables]
  · constructor
    · intro h
      obtain ⟨_, read, _⟩ := ofTokens_eq_ok h
      cases failed.symm.trans read
    · intro h
      obtain ⟨_, read, _⟩ := ofTokens_eq_ok h
      cases failed'.symm.trans read

/-- What program mode reads, the prompt does. -/
theorem ofTokens_repl_of_program {table : Table Ty} {tokens : List Token}
    {result : Program × Table Ty} (h : ofTokens .program table tokens = .ok result) :
    ofTokens .repl table tokens = .ok result := by
  obtain ⟨program, after⟩ := result
  obtain ⟨d, read, rfl⟩ := ofTokens_eq_ok h
  have sugod := sugod_of_program read
  apply ofTokens_of_ok
  rw [program_of_sugod .repl sugod, ← program_of_sugod .program sugod]
  exact read

/-- The two modes accept the same programs. Plain tokens are a program at the prompt exactly
if they are one in program mode between `SUGOD` and `KATAPUSAN`, whether or not an end mark
follows, and then they are the same program with the same names behind it. And what program
mode accepts, the prompt accepts as the same. -/
theorem ofTokens_modes (table : Table Ty) :
    (∀ (tokens tail : List Token) (first last : Token), Plain tokens → first.kind = .sugod →
      last.kind = .katapusan → (∀ t ∈ tail.head?, t.kind = .eof) →
      ∀ result, ofTokens .repl table (tokens ++ tail) = .ok result ↔
        ofTokens .program table (first :: tokens ++ [last] ++ tail) = .ok result) ∧
      ∀ tokens result, ofTokens .program table tokens = .ok result →
        ofTokens .repl table tokens = .ok result := by
  constructor
  · intro tokens tail first last plain hf hl ends
    exact ofTokens_framed_iff plain hf hl ends
  · intro tokens result
    exact ofTokens_repl_of_program

/-- A declaration that ends with the text, and one that the closing word ends. -/
theorem ofTokens_modes_declaration :
    ∃ tokens first last result, Plain tokens ∧ first.kind = .sugod ∧ last.kind = .katapusan ∧
      result = ([.declare .numero [("x", none)]], Table.empty.insert "x" .numero) ∧
      ofTokens .repl .empty tokens = .ok result ∧
      ofTokens .program .empty (first :: tokens ++ [last]) = .ok result := by
  let tokens : List Token := [.unplaced .mugna "MUGNA", .unplaced .typeName "NUMERO", .ofName "x"]
  let first : Token := .unplaced .sugod "SUGOD"
  let last : Token := .unplaced .katapusan "KATAPUSAN"
  let result : Program × Table Ty :=
    ([.declare .numero [("x", none)]], Table.empty.insert "x" .numero)
  have plain : Plain tokens := by simp [Plain, tokens, Token.unplaced, Token.ofName]
  have read : ofTokens .repl .empty tokens = .ok result := rfl
  have same := (ofTokens_modes .empty).1 tokens [] first last plain rfl rfl (by simp) result
  rw [List.append_nil, List.append_nil] at same
  exact ⟨tokens, first, last, result, plain, rfl, rfl, rfl, read, same.mp read⟩

end Program

end Sulti
