import Mathlib.Data.List.DropRight
import Mathlib.Data.List.Forall2
import Sulti.Proofs.Grammar.Course

/-!
Reading goes line by line. Statements that end a line are read the same
whether or not more statements follow, unless these begin with an alternative
for the last condition; and the statements behind them are read as if they
stood alone with the names declared before.
-/

namespace Sulti

namespace Grammar

/-- The same statements, up to their places. -/
abbrev BodyAlike (body body' : List Stmt) : Prop := Phrase.Alike (.stmts body) (.stmts body')

/-- The same tokens, up to their places. -/
abbrev TokensAlike : List Token → List Token → Prop := List.Forall₂ Token.Alike

def isBreak (token : Token) : Bool := token.kind == .newline

theorem TokensAlike.dropWhile {l l' : List Token} (h : TokensAlike l l') :
    TokensAlike (l.dropWhile isBreak) (l'.dropWhile isBreak) := by
  induction h with
  | nil => exact .nil
  | @cons t u l l' alike others ih =>
      have same : isBreak u = isBreak t := by rw [isBreak, isBreak, alike.kind]
      cases newline : isBreak t with
      | true => simpa [newline, same] using ih
      | false => simpa [newline, same] using List.Forall₂.cons alike others

theorem TokensAlike.tail {l l' : List Token} (h : TokensAlike l l') :
    TokensAlike l.tail l'.tail := by
  cases h with
  | nil => exact .nil
  | cons _ others => exact others

theorem TokensAlike.headD {l l' : List Token} (h : TokensAlike l l') (stop stop' : Position) :
    (l.headD (.endMark stop)).Alike (l'.headD (.endMark stop')) := by
  cases h with
  | nil => exact ⟨rfl, rfl⟩
  | cons alike _ => exact alike

/-- Cursors at the same tokens up to places, with the same names. -/
structure Same (c d : Cursor) : Prop where
  table : d.table = c.table
  ahead : TokensAlike c.ahead d.ahead

/-- The same text, up to places. -/
def Pairing.alike : Pairing := ⟨fun _ _ => True, False, False, True⟩

/-- Places make no difference to reading. -/
theorem course_same : Course .alike Same Same (fun _ _ => False) fun _ _ => True where
  next h := .inl ⟨h.ahead.headD _ _, trivial⟩
  table h := h.table
  declare h name ty := ⟨by rw [Cursor.declare, Cursor.declare, h.table], h.ahead⟩
  forward h _ _ _ := ⟨h.table, h.ahead.tail⟩
  newline _ h _ _ := .inl ⟨h.table, h.ahead.tail⟩
  loosen h := h
  skip _ h := .inl ⟨h.table, h.ahead.dropWhile⟩
  spent := False.elim
  ended := False.elim
  apart := False.elim
  remain := False.elim
  rejected _ _ := trivial
  unexpected _ _ := trivial
  free _ _ _ := trivial

/-- Lines that end with a line break, and the same lines with more tokens behind. -/
structure Front (more : List Token) (c d : Cursor) : Prop where
  table : d.table = c.table
  last : c.ahead.getLast?.map Token.kind = some .newline
  ahead : ∃ front, d.ahead = front ++ more ∧ TokensAlike c.ahead front

/-- No lines are left, and at most line breaks were read behind them. -/
structure Spent (more : List Token) (c d : Cursor) : Prop where
  table : d.table = c.table
  ahead : c.ahead = []
  rest : d.ahead.dropWhile isBreak = more.dropWhile isBreak

/-- Tokens that do not begin with an alternative of a condition. -/
def Apart (more : List Token) : Prop :=
  ∀ d : Cursor, d.ahead = more.dropWhile isBreak → d.next.kind = .kung →
    d.second.kind ≠ .dili ∧ d.second.kind ≠ .wala

section

variable {more : List Token} {c d : Cursor}

theorem Front.cons (h : Front more c d) :
    ∃ t ts u us, c.ahead = t :: ts ∧ d.ahead = u :: (us ++ more) ∧ t.Alike u ∧
      TokensAlike ts us := by
  obtain ⟨front, hd, alike⟩ := h.ahead
  have last := h.last
  generalize c.ahead = ahead at alike last
  cases alike with
  | nil => cases last
  | @cons t u ts us first others => exact ⟨t, ts, u, us, rfl, hd, first, others⟩

theorem last_tail {t : Token} {ts : List Token} (nonempty : ts ≠ [])
    (h : (t :: ts).getLast?.map Token.kind = some .newline) :
    ts.getLast?.map Token.kind = some .newline := by
  cases ts with
  | nil => exact absurd rfl nonempty
  | cons u us => rwa [List.getLast?_cons_cons] at h

theorem Front.forward (h : Front more c d) :
    Front more c.forward d.forward ∨ c.next.kind = .newline ∧ Spent more c.forward d.forward := by
  obtain ⟨t, ts, u, us, hc, hd, alike, others⟩ := h.cons
  have last := h.last
  rw [hc] at last
  cases ts with
  | nil =>
      cases others
      refine Or.inr ⟨?_, ⟨h.table, ?_, ?_⟩⟩
      · simpa [Cursor.next, hc] using last
      · simp [Cursor.forward, hc]
      · simp [Cursor.forward, hd]
  | cons t' ts =>
      refine Or.inl ⟨h.table, ?_, us, ?_, ?_⟩
      · simpa [Cursor.forward, hc] using last_tail (List.cons_ne_nil _ _) last
      · simp [Cursor.forward, hd]
      · simpa [Cursor.forward, hc] using others

theorem last_dropWhile {l : List Token} (nonempty : l.dropWhile isBreak ≠ [])
    (h : l.getLast?.map Token.kind = some .newline) :
    (l.dropWhile isBreak).getLast?.map Token.kind = some .newline := by
  obtain ⟨front, whole⟩ := List.dropWhile_suffix isBreak (l := l)
  rw [← whole, List.getLast?_append] at h
  rwa [Option.or_of_isSome (by simpa using nonempty)] at h

theorem Front.dropNewlines (h : Front more c d) :
    Front more c.dropNewlines d.dropNewlines ∨
      c.next.kind = .newline ∧ Spent more c.dropNewlines d.dropNewlines := by
  obtain ⟨front, hd, alike⟩ := h.ahead
  have rest : d.dropNewlines.ahead =
      if (front.dropWhile isBreak).isEmpty then more.dropWhile isBreak
      else front.dropWhile isBreak ++ more := by
    change d.ahead.dropWhile isBreak = _
    rw [hd, List.dropWhile_append]
  have dropped := alike.dropWhile
  cases hc : c.ahead.dropWhile isBreak with
  | nil =>
      rw [hc] at dropped
      rw [List.forall₂_nil_left_iff.mp dropped, if_pos List.isEmpty_nil] at rest
      refine Or.inr ⟨?_, h.table, hc, ?_⟩
      · obtain ⟨t, ts, _, _, first, _⟩ := h.cons
        have all := List.dropWhile_eq_nil_iff.mp hc t (by simp [first])
        simpa [Cursor.next, first, isBreak] using all
      · rw [rest, List.dropWhile_idempotent]
  | cons t ts =>
      have nonempty : c.ahead.dropWhile isBreak ≠ [] := by simp [hc]
      refine Or.inl ⟨h.table, last_dropWhile nonempty h.last, front.dropWhile isBreak, ?_, dropped⟩
      rw [hc] at dropped
      cases hf : front.dropWhile isBreak with
      | nil =>
          rw [hf] at dropped
          cases dropped
      | cons u us => rw [rest, hf, if_neg (by simp)]

theorem Spent.dropNewlines (h : Spent more c d) : Spent more c.dropNewlines d.dropNewlines := by
  refine ⟨h.table, ?_, ?_⟩
  · simp [Cursor.dropNewlines, h.ahead]
  · change (d.ahead.dropWhile isBreak).dropWhile isBreak = _
    rw [List.dropWhile_idempotent, h.rest]

/-- The same text up to places, but the first may end behind a line break. -/
def Pairing.leading : Pairing := ⟨fun _ _ => True, False, True, True⟩

/-- Lines are read the same with more tokens behind, unless these begin with an
alternative of a condition. -/
theorem course_front (apart : Apart more) :
    Course .leading (Front more) (Front more) (Spent more) fun _ _ => True where
  next h := by
    obtain ⟨t, ts, u, us, hc, hd, alike, _⟩ := h.cons
    exact .inl ⟨by simpa [Cursor.next, hc, hd] using alike, trivial⟩
  table h := h.table
  declare h name ty := ⟨by rw [Cursor.declare, Cursor.declare, h.table], h.last, h.ahead⟩
  forward h _ inline _ := h.forward.resolve_right fun newline => inline newline.1
  newline _ h _ _ := h.forward.imp id And.right
  loosen h := h
  skip _ h := h.dropNewlines.imp id And.right
  spent _ := trivial
  ended h := h.ahead
  apart {c d} h kung := by
    refine apart d ?_ kung
    rw [← h.rest]
    cases hd : d.ahead with
    | nil => rfl
    | cons u us =>
        simp only [Cursor.next, hd, List.headD_cons] at kung
        simp [isBreak, kung]
  remain h := h.dropNewlines
  rejected _ _ := trivial
  unexpected _ _ := trivial
  free _ _ _ := trivial

/-! Lists of statements, one behind the other. -/

theorem statements_dropNewlines (closing : Token.Kind) (st : Parse Stmt) (fuel : Nat)
    (c : Cursor) : statements closing st fuel c.dropNewlines = statements closing st fuel c := by
  have twice : c.dropNewlines.dropNewlines = c.dropNewlines := by
    simp [Cursor.dropNewlines, List.dropWhile_idempotent]
  cases fuel with
  | zero => rfl
  | succ fuel =>
      by_cases ends : c.dropNewlines.next.kind = closing ∨ c.dropNewlines.next.kind = .eof
      · rw [statements_of_end ends, statements_of_end (by rwa [twice]), twice]
      · rw [statements_of_ne ends, statements_of_ne (by rwa [twice]), twice]

/-- Statements end at the closing token or at the end. -/
theorem statements_ends {closing : Token.Kind} {st : Parse Stmt} {fuel : Nat} {c d : Cursor}
    {body : List Stmt} (h : statements closing st fuel c = .ok (body, d)) :
    d.next.kind = closing ∨ d.next.kind = .eof := by
  induction fuel generalizing c body with
  | zero => cases h
  | succ fuel ih =>
      rcases statements_eq_ok h with ⟨ends, _, rfl⟩ | ⟨_, _, _, _, _, others, _⟩
      · exact ends
      · exact ih others

/-- There are no more statements than tokens that they use up. -/
theorem length_statements_le {closing : Token.Kind} {st : Parse Stmt} {n fuel : Nat}
    (eager : Eager n st) {c d : Cursor} {body : List Stmt} (hc : c.ahead.length < n)
    (h : statements closing st fuel c = .ok (body, d)) : body.length ≤ c.ahead.length := by
  induction fuel generalizing c body with
  | zero => cases h
  | succ fuel ih =>
      rcases statements_eq_ok h with ⟨_, rfl, _⟩ | ⟨_, first, others, c', hf, ho, rfl⟩
      · exact Nat.zero_le _
      · have shorter : c.dropNewlines.ahead.length ≤ c.ahead.length :=
          (List.dropWhile_suffix _).length_le
        have used := eager c.dropNewlines (by omega)
          (next_ne_newline_of_skipNewlines (c := c) rfl)
        unfold Advances at used
        rw [hf] at used
        have rest := ih (by omega) ho
        rw [List.length_cons]
        omega

theorem second_of_branch {body : Parse (List Stmt)} {fuel : Nat} {s : Stmt}
    (h : branch body fuel c = .ok (s, d)) : c.second.kind ≠ .dili ∧ c.second.kind ≠ .wala := by
  have looks : Yields (branch body fuel) c fun _ _ =>
      c.second.kind ≠ .dili ∧ c.second.kind ≠ .wala := by
    refine yields_peek_bind (yields_advance_bind (Yields.bind (yields_peek_bind ?_)))
    split
    · exact yields_reject
    · rename_i other
      exact yields_pure fun _ _ _ => not_or.mp other
  exact looks s d h

/-- A condition that begins a list of statements is no alternative of one before. -/
theorem apart_of_statements {n fuel : Nat} {body : List Stmt} {c' : Cursor}
    (alike : TokensAlike c.ahead more)
    (h : statements .katapusan (statement n) fuel c = .ok (body, c')) : Apart more := by
  intro d hd kung
  have dropped : TokensAlike c.dropNewlines.ahead d.ahead := hd ▸ alike.dropWhile
  have first : c.dropNewlines.next.Alike d.next := dropped.headD _ _
  have second : c.dropNewlines.second.Alike d.second := dropped.tail.headD _ _
  have kung : c.dropNewlines.next.kind = .kung := by rw [← first.kind, kung]
  rw [second.kind]
  cases fuel with
  | zero => cases h
  | succ fuel =>
      rcases statements_eq_ok h with ⟨ends, _, _⟩ | ⟨_, _, _, _, hs, _, _⟩
      · simp [kung] at ends
      · cases n with
        | zero => cases hs
        | succ n =>
            rw [statement] at hs
            obtain ⟨_, _, hp, hs⟩ := bind_eq_ok hs
            cases hp
            rw [kung] at hs
            exact second_of_branch hs

/-- Lines that are read to their end, and statements behind them that are read: together
they are read one after the other. -/
theorem statements_append (apart : Apart more) {n m fuel left : Nat} (hn : n ≤ m)
    {body : List Stmt} {c' : Cursor} {Q : List Stmt → Cursor → Prop}
    (start : Front more c d ∨ Spent more c d)
    (h : statements .katapusan (statement n) fuel c = .ok (body, c')) (ends : c'.ahead = [])
    (behind : ∀ d', Spent more c' d' → ∃ rest e,
      statements .katapusan (statement m) left d' = .ok (rest, e) ∧ Q rest e) :
    ∃ body' rest e, statements .katapusan (statement m) (body.length + left) d =
      .ok (body' ++ rest, e) ∧ BodyAlike body body' ∧ Q rest e := by
  -- Along the first statements; behind the last one the leading cursor is past its end.
  induction fuel generalizing c d body with
  | zero => cases h
  | succ fuel ih =>
      rcases start with front | spent
      · rcases statements_eq_ok h with ⟨_, rfl, rfl⟩ | ⟨goesOn, first, others, c₁, hf, ho, rfl⟩
        · rcases front.dropNewlines with front | ⟨_, spent⟩
          · obtain ⟨t, ts, _, _, hc, _⟩ := front.cons
            rw [ends] at hc
            cases hc
          · obtain ⟨rest, e, he, hq⟩ := behind _ spent
            rw [statements_dropNewlines] at he
            exact ⟨[], rest, e, by simpa using he, .stmtsNil, hq⟩
        · rcases front.dropNewlines with front | ⟨_, spent⟩
          · have course := course_front apart
            have same := (course.next front).resolve_right fun framed => framed.1
            have meet := (abreast_statement trivial hn _).meet course ⟨front, same, rfl⟩
            rw [hf] at meet
            obtain ⟨first', d₁, hf', head, onward⟩ := meet.of_ok
            obtain ⟨others', rest, e, he, alike, hq⟩ := ih onward ho
            refine ⟨first' :: others', rest, e, ?_, .stmtsCons head alike, hq⟩
            rw [List.length_cons, Nat.add_right_comm]
            exact statements_cons (by rwa [same.alike.kind]) hf' he
          · exact absurd (Or.inr (next_kind_of_ahead_nil spent.ahead)) goesOn
      · obtain ⟨rfl, rfl⟩ := statements_nil spent.ahead h
        obtain ⟨rest, e, he, hq⟩ := behind d spent
        exact ⟨[], rest, e, by simpa using he, .stmtsNil, hq⟩

end

/-! Whole programs. -/

/-- Tokens without end marks, of which none opens or closes a program. -/
def Plain (tokens : List Token) : Prop :=
  ∀ token ∈ tokens, token.kind ≠ .sugod ∧ token.kind ≠ .katapusan ∧ token.kind ≠ .eof

theorem Plain.next {c : Cursor} (plain : Plain c.ahead) :
    c.next.kind ≠ .sugod ∧ c.next.kind ≠ .katapusan ∧ (c.next.kind = .eof → c.ahead = []) := by
  cases hc : c.ahead with
  | nil => simp [next_kind_of_ahead_nil hc]
  | cons t ts =>
      obtain ⟨sugod, katapusan, eof⟩ := plain t (by simp [hc])
      simp only [Cursor.next, hc, List.headD_cons]
      exact ⟨sugod, katapusan, fun h => absurd h eof⟩

theorem Plain.append {l l' : List Token} (h : Plain l) (h' : Plain l') : Plain (l ++ l') := by
  intro t ht
  rcases List.mem_append.mp ht with member | member
  · exact h t member
  · exact h' t member

theorem Plain.of_alike {l l' : List Token} (plain : Plain l) (alike : TokensAlike l l') :
    Plain l' := by
  induction alike with
  | nil => exact plain
  | @cons t u l l' first _ ih =>
      obtain ⟨head, others⟩ := List.forall_mem_cons.mp plain
      exact List.forall_mem_cons.mpr ⟨by rwa [first.kind], ih others⟩

theorem program_end {c : Cursor} (h : c.ahead = []) (body : Program) : (do
      closing false
      ending
      return body : Parse Program) c = .ok (body, c) := by
  obtain ⟨ahead, stop, table⟩ := c
  subst h
  rfl

theorem Plain.dropNewlines {c : Cursor} (plain : Plain c.ahead) : Plain c.dropNewlines.ahead :=
  fun t ht => plain t ((List.dropWhile_suffix _).subset ht)

/-- At the prompt, plain tokens are read without the words around a program. -/
theorem program_of_plain {fuel : Nat} {c : Cursor} (plain : Plain c.ahead) :
    program .repl fuel c = (do
      let body ← statements .katapusan (statement fuel) fuel
      closing false
      ending
      return body : Parse Program) c.dropNewlines := by
  rw [program, bind_of_ok (p := skipNewlines) rfl]
  exact bind_of_ok (accept_of_ne plain.dropNewlines.next.1)

/-- At the prompt, plain tokens are a program if they are statements up to their end. -/
theorem program_iff {fuel : Nat} {c d : Cursor} {body : List Stmt} (plain : Plain c.ahead)
    (hc : c.ahead.length + 1 < fuel) :
    program .repl fuel c = .ok (body, d) ↔
      statements .katapusan (statement fuel) fuel c = .ok (body, d) ∧ d.ahead = [] := by
  constructor
  · intro h
    rw [program_of_plain plain] at h
    obtain ⟨_, c', hs, h⟩ := bind_eq_ok h
    rw [statements_dropNewlines] at hs
    have settles : Settles (statements .katapusan (statement fuel) fuel) c :=
      steady_statements (eager_statement hc) (Nat.le_of_lt hc) c (Nat.lt_succ_self _)
    unfold Settles at settles
    rw [hs] at settles
    have plain' : Plain c'.ahead := fun t ht => plain t (settles.subset ht)
    have empty : c'.ahead = [] :=
      plain'.next.2.2 ((statements_ends hs).resolve_left plain'.next.2.1)
    rw [program_end empty] at h
    cases h
    exact ⟨hs, empty⟩
  · rintro ⟨hs, empty⟩
    rw [program_of_plain plain, bind_of_ok ((statements_dropNewlines ..).trans hs)]
    exact program_end empty body

/-- Statements that are read behind others, as they are read alone. -/
theorem statements_behind {more : List Token} {n m fuel left : Nat} {c c' d e : Cursor}
    {body : List Stmt} (hn : n ≤ m) (enough : fuel ≤ left) (spent : Spent more e d)
    (tables : c.table = e.table) (alike : TokensAlike c.ahead more)
    (h : statements .katapusan (statement n) fuel c = .ok (body, c')) (empty : c'.ahead = []) :
    ∃ body' d', statements .katapusan (statement m) left d = .ok (body', d') ∧
      BodyAlike body body' ∧ d'.table = c'.table ∧ d'.ahead = [] := by
  have same : Same c.dropNewlines d.dropNewlines :=
    ⟨spent.table.trans tables.symm, by
      change TokensAlike _ (d.ahead.dropWhile isBreak)
      exact spent.rest ▸ alike.dropWhile⟩
  rw [← statements_dropNewlines] at h
  have meet := (abreast_statements (P := .alike) trivial (abreast_statement trivial hn) enough
    id).meet course_same (.inl same)
  rw [h] at meet
  obtain ⟨body', d', hd, bodies, after⟩ := meet.of_ok
  rw [statements_dropNewlines] at hd
  have none := after.ahead
  rw [empty] at none
  exact ⟨body', d', hd, bodies, after.table, List.forall₂_nil_left_iff.mp none⟩

theorem ofTokens_endMark (table : Table Ty) {tokens : List Token} (plain : Plain tokens)
    (stop : Position) :
    Cursor.ofTokens table (tokens ++ [.endMark stop]) = ⟨tokens, stop, table⟩ := by
  have inside : ∀ token ∈ tokens, token.kind ≠ .eof := fun t ht => (plain t ht).2.2
  have ahead : (tokens ++ [Token.endMark stop]).takeWhile (fun t => t.kind != .eof) = tokens := by
    rw [List.takeWhile_append_of_pos (by simpa using inside)]
    simp [Token.endMark]
  have mark : (tokens ++ [Token.endMark stop]).find? (fun t => t.kind == .eof) =
      some (.endMark stop) := by
    rw [List.find?_append, List.find?_eq_none.mpr (by simpa using inside)]
    rfl
  rw [Cursor.ofTokens, ahead, mark]
  rfl

end Grammar

namespace Program

open Grammar

/-- At the prompt, plain tokens are a program if they are statements up to their end. -/
theorem ofTokens_iff {table after : Table Ty} {tokens : List Token} {stop : Position}
    {program : Program} (plain : Plain tokens) :
    ofTokens .repl table (tokens ++ [.endMark stop]) = .ok (program, after) ↔
      ∃ d, statements .katapusan (statement (tokens.length + 3)) (tokens.length + 3)
        ⟨tokens, stop, table⟩ = .ok (program, d) ∧ d.ahead = [] ∧ d.table = after := by
  have cursor := ofTokens_endMark table plain stop
  have bound : (tokens ++ [Token.endMark stop]).length + 2 = tokens.length + 3 := by simp
  constructor
  · intro h
    obtain ⟨d, h, tables⟩ := ofTokens_eq_ok h
    rw [cursor, bound] at h
    obtain ⟨h, empty⟩ := (program_iff plain (by simp)).mp h
    exact ⟨d, h, empty, tables⟩
  · rintro ⟨d, h, empty, rfl⟩
    apply ofTokens_of_ok
    rw [cursor, bound]
    exact (program_iff plain (by simp)).mpr ⟨h, empty⟩

/-- At the prompt, a program that ends a line and a program behind it are one program,
and its names are declared one after the other. -/
theorem ofTokens_append {table between after : Table Ty} {front behind more : List Token}
    {stop stop' : Position} {first second : Program} (plain : Plain front)
    (plainBehind : Plain behind)
    (last : front = [] ∨ front.getLast?.map Token.kind = some .newline)
    (alike : TokensAlike behind more)
    (h : ofTokens .repl table (front ++ [.endMark stop]) = .ok (first, between))
    (h' : ofTokens .repl between (behind ++ [.endMark stop']) = .ok (second, after))
    (stop'' : Position) :
    ∃ first' second',
      ofTokens .repl table (front ++ more ++ [.endMark stop'']) = .ok (first' ++ second', after) ∧
      BodyAlike first first' ∧ BodyAlike second second' := by
  obtain ⟨c, hc, empty, rfl⟩ := (ofTokens_iff plain).mp h
  obtain ⟨c', hc', empty', rfl⟩ := (ofTokens_iff plainBehind).mp h'
  have few : first.length ≤ front.length :=
    length_statements_le (n := front.length + 1) (eager_statement (by omega))
      (Nat.lt_succ_self _) hc
  have lengths : behind.length = more.length := alike.length_eq
  have start : Front more ⟨front, stop, table⟩ ⟨front ++ more, stop'', table⟩ ∨
      Spent more ⟨front, stop, table⟩ ⟨front ++ more, stop'', table⟩ := by
    rcases last with rfl | newline
    · exact Or.inr ⟨rfl, rfl, rfl⟩
    · exact Or.inl ⟨rfl, newline, front, rfl, List.forall₂_same.mpr fun t _ => .refl t⟩
  -- What the bound leaves behind the first statements is enough for the others.
  obtain ⟨m, hm⟩ : ∃ m, (front ++ more).length + 3 = m := ⟨_, rfl⟩
  have total : front.length + more.length + 3 = m := by rw [← hm, List.length_append]
  have enough : behind.length + 3 ≤ m - first.length := by omega
  obtain ⟨first', second', d, hd, alike₁, alike₂, tables, ends⟩ :=
    statements_append (apart_of_statements alike hc') (by omega : front.length + 3 ≤ m) start hc
      empty fun d spent =>
        statements_behind (c := ⟨behind, stop', c.table⟩) (by omega : behind.length + 3 ≤ m)
          enough spent rfl alike hc' empty'
  rw [show first.length + (m - first.length) = m by omega, ← hm] at hd
  refine ⟨first', second', ?_, alike₁, alike₂⟩
  exact (ofTokens_iff (plain.append (plainBehind.of_alike alike))).mpr ⟨d, hd, ends, tables⟩

end Program

end Sulti
