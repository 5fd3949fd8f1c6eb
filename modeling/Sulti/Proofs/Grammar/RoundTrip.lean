import Sulti.Proofs.Grammar.Success
import Sulti.Proofs.Typing.Declared

/-!
Reading undoes writing. The tokens that are written for a program which follows
the static rules are read as that program, up to places, and leave behind the
names that it declares. Both for a part of a program and for the whole, what is
written is read in front of any tokens that cannot be taken into it.
-/

namespace Sulti

namespace Grammar

/-! Where a written statement ends. -/

/-- Tokens that are no part of the statement that ends before them. -/
def Fresh (c : Cursor) : Prop :=
  c.next.kind ≠ .newline ∧ (c.next.kind = .kung → c.second.kind ≠ .dili ∧ c.second.kind ≠ .wala)

/-- Tokens at which statements go on. -/
def GoesOn (kind : Token.Kind) : Prop :=
  kind ≠ .sugod ∧ kind ≠ .katapusan ∧ kind ≠ .rightBrace ∧ kind ≠ .eof

theorem write_begins {before after : Table Ty} {s : Stmt}
    (typed : Phrase.Typed before (.stmt s) after) (tokens : List Token) (stop : Position)
    (table : Table Ty) :
    Fresh ⟨s.write ++ tokens, stop, table⟩ ∧
      GoesOn (Cursor.next ⟨s.write ++ tokens, stop, table⟩).kind := by
  cases typed with
  | expr typed =>
      obtain ⟨token, rest, first, opens⟩ := write_opens typed 0
      obtain ⟨kind, lexeme, position⟩ := token
      rw [Stmt.write, first]
      cases kind with
      | newline => cases opens
      | kung => cases opens
      | sugod => cases opens
      | katapusan => cases opens
      | rightBrace => cases opens
      | eof => cases opens
      | _ => exact ⟨⟨nofun, nofun⟩, nofun, nofun, nofun, nofun⟩
  | branch =>
      rw [Stmt.write]
      exact ⟨⟨nofun, fun _ => ⟨nofun, nofun⟩⟩, nofun, nofun, nofun, nofun⟩
  | _ =>
      rw [Stmt.write]
      exact ⟨⟨nofun, nofun⟩, nofun, nofun, nofun, nofun⟩

/-- What closes statements is no part of the last one. -/
theorem fresh_of_closing {closing : Token.Kind} {c : Cursor}
    (closes : closing = .rightBrace ∨ closing = .katapusan)
    (ends : c.next.kind = closing ∨ c.next.kind = .eof) : Fresh c := by
  unfold Fresh
  rcases ends with h | h
  · rcases closes with rfl | rfl <;> simp [h]
  · simp [h]

/-- Behind a statement there is another one, or what closes the statements. -/
theorem fresh_writeAll {before after : Table Ty} {body : List Stmt}
    (typed : Phrase.Typed before (.stmts body) after) {tokens : List Token} {stop : Position}
    {table : Table Ty} (fresh : Fresh ⟨tokens, stop, table⟩) :
    Fresh ⟨Stmt.writeAll body ++ tokens, stop, table⟩ := by
  cases typed with
  | stmtsNil => exact fresh
  | stmtsCons head _ =>
      rw [Stmt.writeAll, List.append_assoc]
      exact (write_begins head _ stop table).1

/-! What is written for each part of a program is read as that part. -/

section

variable (before : Table Ty) (after : Table Ty)

/-- In front of tokens that are no part of it, a statement is read as it is written. -/
def StmtReturns (s : Stmt) : Prop :=
  ∀ k tokens stop, s.write.length ≤ k → Fresh ⟨tokens, stop, after⟩ →
    Gets (statement k) ⟨s.write ++ tokens, stop, before⟩
      (fun s' => Phrase.Alike (.stmt s) (.stmt s')) ⟨tokens, stop, after⟩

/-- In front of what closes them, statements are read as they are written. -/
def BodyReturns (body : List Stmt) : Prop :=
  ∀ k n closing tokens stop, closing = .rightBrace ∨ closing = .katapusan →
    (Stmt.writeAll body).length ≤ k → (Stmt.writeAll body).length < n →
    ((Cursor.next ⟨tokens, stop, after⟩).kind = closing ∨
      (Cursor.next ⟨tokens, stop, after⟩).kind = .eof) →
    Gets (statements closing (statement k) n) ⟨Stmt.writeAll body ++ tokens, stop, before⟩
      (fun body' => Phrase.Alike (.stmts body) (.stmts body')) ⟨tokens, stop, after⟩

/-- The last body of a condition, if there is one, is read in front of what follows, and
with any bound. -/
def OtherwiseReturns (last : Option (List Stmt)) : Prop :=
  ∀ k tokens stop, (Stmt.writeOtherwise last).length ≤ k → Fresh ⟨tokens, stop, after⟩ →
    ∃ last', Phrase.Alike (.otherwise last) (.otherwise last') ∧
      ∀ n, 0 < n → alternatives (block (statement k) k) true n
          ⟨Stmt.writeOtherwise last ++ tokens, stop, before⟩ =
        .ok (⟨[], last', true⟩, ⟨tokens, stop, after⟩)

/-- The alternatives are read in front of a last body, if there is one. -/
def ArmsReturn (others : List (Expr × List Stmt)) : Prop :=
  ∀ k n tokens stop last d, (Stmt.writeArms others).length ≤ k →
    (Stmt.writeArms others).length < n → (Cursor.next ⟨tokens, stop, after⟩).kind ≠ .newline →
    (∀ m, 0 < m → alternatives (block (statement k) k) true m ⟨tokens, stop, after⟩ =
      .ok (⟨[], last, true⟩, d)) →
    Gets (alternatives (block (statement k) k) true n)
      ⟨Stmt.writeArms others ++ tokens, stop, before⟩
      (fun more => Phrase.Alike (.arms others) (.arms more.others) ∧ more.otherwise = last ∧
        more.ended = true) d

end

section

variable {before after : Table Ty} {tokens : List Token} {stop : Position}

theorem gets_block {body : List Stmt} (h : BodyReturns before after body) {k : Nat}
    (enough : (Stmt.writeAll body).length < k) :
    Gets (block (statement k) k) ⟨Stmt.braced (Stmt.writeAll body) ++ tokens, stop, before⟩
      (fun body' => Phrase.Alike (.stmts body) (.stmts body')) ⟨tokens, stop, after⟩ := by
  let brace : Token := .unplaced .rightBrace "\x7d"
  have inner := h k k .rightBrace (brace :: tokens) stop (Or.inl rfl) (by omega) enough (Or.inl rfl)
  simp only [Stmt.braced, List.cons_append, List.append_assoc, List.nil_append]
  refine gets_expect rfl (gets_skip_token (by decide) (gets_expect rfl (inner.bind ?_)))
  intro body' alike
  exact gets_expect rfl (gets_pure alike)

theorem gets_condition {test : Expr} (typed : test.Typed before) (truth : test.ty = .tinuod)
    {n : Nat} (enough : (test.write 0).length ≤ n) {body : List Token} :
    Gets (condition n) ⟨Stmt.asked test ++ (Stmt.braced body ++ tokens), stop, before⟩
      (test.Alike ·) ⟨Stmt.braced body ++ tokens, stop, before⟩ := by
  simp only [Stmt.asked, List.cons_append, List.append_assoc, List.nil_append]
  refine gets_expect rfl ((gets_expression typed enough endsAt_rightParen).bind ?_)
  intro test' alike
  apply gets_demand
  · rw [alike.ty, truth]
    rfl
  · exact gets_expect rfl (gets_skip_token (by decide) (gets_pure alike))

/-- A statement is written with some token, so the bound is no less than one. -/
theorem StmtReturns.of_succ {s : Stmt}
    (h : ∀ k tokens stop, s.write.length ≤ k + 1 → Fresh ⟨tokens, stop, after⟩ →
      Gets (statement (k + 1)) ⟨s.write ++ tokens, stop, before⟩
        (fun s' => Phrase.Alike (.stmt s) (.stmt s')) ⟨tokens, stop, after⟩) :
    StmtReturns before after s := by
  intro k tokens stop enough fresh
  have positive := write_length_pos s
  cases k with
  | zero => omega
  | succ k => exact h k tokens stop enough fresh

theorem declaredType_of_declarable {ty : Ty} (h : ty.Declarable) :
    declaredType ⟨.unplaced .typeName ty.name :: tokens, stop, before⟩ =
      .ok (ty, ⟨tokens, stop, before⟩) := by
  cases ty with
  | text => cases h
  | empty => cases h
  | _ => rfl

theorem returns_declare {ty : Ty} {names : List (String × Option Expr)} (nonempty : names ≠ [])
    (typed : Phrase.Typed before (.bindings ty names) after) :
    StmtReturns before after (.declare ty names) := by
  apply StmtReturns.of_succ
  intro k tokens stop enough _
  simp only [Stmt.write, List.length_cons, List.length_append, List.length_nil] at enough
  have declarable : ty.Declarable := by
    cases typed with
    | bindingsNil => exact absurd rfl nonempty
    | bindingsPlain declarable => exact declarable
    | bindingsStart declarable => exact declarable
  simp only [Stmt.write, List.cons_append, List.append_assoc, List.nil_append]
  refine Gets.of_eq (q := declaration k) (gets_advance ?_) rfl
  apply gets_bind_of_ok (declaredType_of_declarable declarable)
  apply (gets_bindings nonempty typed (by omega) (by omega)).bind
  intro names' alike
  exact gets_endStatement (gets_pure (.declare alike))

theorem returns_read {position : Position} {targets : List String} (nonempty : targets ≠ [])
    (declared : ∀ name ∈ targets, before.contains name = true) :
    StmtReturns before before (.read position targets) := by
  apply StmtReturns.of_succ
  intro k tokens stop enough _
  simp only [Stmt.write, List.length_cons, List.length_append, List.length_nil] at enough
  simp only [Stmt.write, List.cons_append, List.append_assoc, List.nil_append]
  refine Gets.of_eq (q := input k) (gets_bind_of_ok (p := peek) rfl (gets_advance ?_)) rfl
  refine gets_expect rfl ((gets_targets nonempty declared (by omega)).bind ?_)
  rintro _ rfl
  exact gets_endStatement (gets_pure (.read trivial))

theorem returns_print {items : List Expr} (nonempty : items ≠ [])
    (typed : Phrase.Typed before (.items items) after) :
    StmtReturns before after (.print items) := by
  apply StmtReturns.of_succ
  intro k tokens stop enough _
  simp only [Stmt.write, List.length_cons, List.length_append, List.length_nil] at enough
  simp only [Stmt.write, List.cons_append, List.append_assoc, List.nil_append]
  refine Gets.of_eq (q := output k) (gets_advance (gets_expect rfl ?_)) rfl
  apply (gets_items nonempty typed (by omega) (by omega) (by omega)).bind
  intro items' alike
  exact gets_endStatement (gets_pure (.print alike))

theorem returns_expr {e : Expr} (typed : e.Typed before) :
    StmtReturns before before (.expr e) := by
  apply StmtReturns.of_succ
  intro k tokens stop enough _
  simp only [Stmt.write, List.length_cons, List.length_append, List.length_nil] at enough
  simp only [Stmt.write, List.append_assoc, List.cons_append, List.nil_append]
  have whole : Gets (do
        let e ← expression k
        endStatement
        return .expr e : Parse Stmt) ⟨e.write 0 ++ .lineBreak :: tokens, stop, before⟩
      (fun s' => Phrase.Alike (.stmt (.expr e)) (.stmt s')) ⟨tokens, stop, before⟩ :=
    (gets_expression typed (by omega) endsAt_lineBreak).bind fun e' alike =>
      gets_endStatement (gets_pure (.expr alike))
  -- An expression begins with none of the words that statements begin with.
  apply whole.of_eq
  obtain ⟨⟨kind, lexeme, position⟩, rest, first, opens⟩ := write_opens typed 0
  rw [first]
  cases kind with
  | mugna => cases opens
  | dawat => cases opens
  | ipakita => cases opens
  | kung => cases opens
  | alang => cases opens
  | pundok => cases opens
  | _ => rfl

theorem returns_block {body : List Stmt} (h : BodyReturns before after body) :
    StmtReturns before after (.block body) := by
  apply StmtReturns.of_succ
  intro k tokens stop enough _
  simp only [Stmt.write, Stmt.braced, List.length_cons, List.length_append, List.length_nil]
    at enough
  rw [Stmt.write, List.append_assoc]
  have whole : Gets (do
        let inner ← block (statement k) k
        endStatement
        return .block inner : Parse Stmt)
      ⟨Stmt.braced (Stmt.writeAll body) ++ .lineBreak :: tokens, stop, before⟩
      (fun s' => Phrase.Alike (.stmt (.block body)) (.stmt s')) ⟨tokens, stop, after⟩ :=
    (gets_block h (by omega)).bind fun body' alike =>
      gets_endStatement (gets_pure (.block alike))
  exact whole.of_eq rfl

theorem returns_loop {start test step : Expr} {body : List Stmt} (hs : start.Typed before)
    (ht : test.Typed before) (truth : test.ty = .tinuod) (hu : step.Typed before)
    (h : BodyReturns before after body) :
    StmtReturns before after (.loop start test step body) := by
  apply StmtReturns.of_succ
  intro k tokens stop enough _
  simp only [Stmt.write, Stmt.braced, List.length_cons, List.length_append, List.length_nil]
    at enough
  simp only [Stmt.write, List.cons_append, List.append_assoc, List.nil_append]
  refine Gets.of_eq (q := loop (block (statement k) k) k) (gets_advance ?_) rfl
  refine gets_expect rfl (gets_expect rfl ?_)
  apply (gets_expression hs (by omega) endsAt_comma).bind
  intro start' alikeStart
  refine gets_expect rfl ?_
  apply (gets_expression ht (by omega) endsAt_comma).bind
  intro test' alikeTest
  apply gets_demand
  · rw [alikeTest.ty, truth]
    rfl
  refine gets_expect rfl ?_
  apply (gets_expression hu (by omega) endsAt_rightParen).bind
  intro step' alikeStep
  refine gets_expect rfl (gets_skip_token (by decide) ?_)
  apply (gets_block h (by omega)).bind
  intro body' alikeBody
  exact gets_endStatement (gets_pure (.loop alikeStart alikeTest alikeStep alikeBody))

theorem returns_body_nil : BodyReturns before before [] := by
  intro k n closing tokens stop closes _ bound ends
  obtain ⟨n, rfl⟩ : ∃ j, n = j + 1 := ⟨n - 1, by omega⟩
  have same := dropNewlines_of_ne (fresh_of_closing closes ends).1
  have stopped : statements closing (statement k) (n + 1) ⟨tokens, stop, before⟩ =
      .ok ([], ⟨tokens, stop, before⟩) := by
    rw [← same] at ends
    rw [statements_of_end ends, same]
  exact ⟨[], stopped, .stmtsNil⟩

theorem gets_statements {closing : Token.Kind} {st : Parse Stmt} {n : Nat} {c d : Cursor}
    {Q : List Stmt → Prop} (single : c.next.kind ≠ .newline)
    (goesOn : ¬(c.next.kind = closing ∨ c.next.kind = .eof))
    (h : Gets (do
        let first ← st
        let others ← statements closing st n
        return first :: others : Parse (List Stmt)) c Q d) :
    Gets (statements closing st (n + 1)) c Q d := by
  have same := dropNewlines_of_ne single
  rw [← same] at goesOn
  apply h.of_eq
  rw [statements_of_ne goesOn, same]

theorem returns_body_cons {between : Table Ty} {first : Stmt} {rest : List Stmt}
    (head : Phrase.Typed before (.stmt first) between)
    (others : Phrase.Typed between (.stmts rest) after) (hf : StmtReturns before between first)
    (hr : BodyReturns between after rest) : BodyReturns before after (first :: rest) := by
  intro k n closing tokens stop closes enough bound ends
  simp only [Stmt.writeAll, List.length_append] at enough bound
  have nonempty := write_length_pos first
  obtain ⟨n, rfl⟩ : ∃ j, n = j + 1 := ⟨n - 1, by omega⟩
  obtain ⟨fresh, goesOn⟩ := write_begins head (Stmt.writeAll rest ++ tokens) stop before
  have behind : Fresh ⟨Stmt.writeAll rest ++ tokens, stop, between⟩ :=
    fresh_writeAll others (fresh_of_closing closes ends)
  have more : ¬((Cursor.next ⟨first.write ++ (Stmt.writeAll rest ++ tokens), stop, before⟩).kind =
      closing ∨ (Cursor.next ⟨first.write ++ (Stmt.writeAll rest ++ tokens), stop, before⟩).kind =
        .eof) := by
    obtain ⟨_, katapusan, rightBrace, eof⟩ := goesOn
    rcases closes with rfl | rfl
    · exact not_or.mpr ⟨rightBrace, eof⟩
    · exact not_or.mpr ⟨katapusan, eof⟩
  rw [Stmt.writeAll, List.append_assoc]
  apply gets_statements fresh.1 more
  apply (hf k _ stop (by omega) behind).bind
  intro first' alikeFirst
  apply (hr k n closing tokens stop closes (by omega) (by omega) ends).bind
  intro rest' alikeRest
  exact gets_pure (.stmtsCons alikeFirst alikeRest)

theorem returns_otherwise_none : OtherwiseReturns before before none := by
  intro k tokens stop _ fresh
  refine ⟨none, .otherwiseNone, fun n positive => ?_⟩
  obtain ⟨n, rfl⟩ : ∃ j, n = j + 1 := ⟨n - 1, by omega⟩
  exact alternatives_of_ne fresh.2

theorem returns_otherwise_some {body : List Stmt} (h : BodyReturns before after body) :
    OtherwiseReturns before after (some body) := by
  intro k tokens stop enough fresh
  simp only [Stmt.writeOtherwise, Stmt.braced, List.length_cons, List.length_append,
    List.length_nil] at enough
  have inner : Gets (block (statement k) k)
      ⟨Stmt.braced (Stmt.writeAll body) ++ .lineBreak :: tokens, stop, before⟩
      (fun body' => Phrase.Alike (.stmts body) (.stmts body'))
      ⟨.lineBreak :: tokens, stop, after⟩ :=
    gets_block h (by omega)
  obtain ⟨body', read, alike⟩ := inner
  refine ⟨some body', .otherwiseSome alike, fun n positive => ?_⟩
  obtain ⟨n, rfl⟩ : ∃ j, n = j + 1 := ⟨n - 1, by omega⟩
  have whole : Gets (alternatives (block (statement k) k) true (n + 1))
      ⟨Stmt.writeOtherwise (some body) ++ tokens, stop, before⟩ (· = ⟨[], some body', true⟩)
      ⟨tokens, stop, after⟩ := by
    simp only [Stmt.writeOtherwise, List.cons_append, List.append_assoc, List.nil_append]
    refine Gets.of_eq ?_ (alternatives_of_wala rfl rfl)
    refine gets_advance (gets_advance (gets_skip_token (by decide) ?_))
    exact gets_bind_of_ok read (gets_skip_one fresh.1 (gets_pure rfl))
  obtain ⟨_, read, rfl⟩ := whole
  exact read

theorem next_writeArms {others : List (Expr × List Stmt)} {table : Table Ty}
    (h : (Cursor.next ⟨tokens, stop, table⟩).kind ≠ .newline) :
    (Cursor.next ⟨Stmt.writeArms others ++ tokens, stop, table⟩).kind ≠ .newline := by
  cases others with
  | nil => exact h
  | cons => exact nofun

theorem next_writeOtherwise {last : Option (List Stmt)} {table : Table Ty}
    (h : (Cursor.next ⟨tokens, stop, table⟩).kind ≠ .newline) :
    (Cursor.next ⟨Stmt.writeOtherwise last ++ tokens, stop, table⟩).kind ≠ .newline := by
  cases last with
  | none => exact h
  | some => exact nofun

theorem returns_arms_nil : ArmsReturn before before [] := by
  intro k n tokens stop last d _ bound _ final
  exact ⟨⟨[], last, true⟩, final n (by omega), .armsNil, rfl, rfl⟩

theorem returns_arms_cons {between : Table Ty} {test : Expr} {body : List Stmt}
    {rest : List (Expr × List Stmt)} (typed : test.Typed before) (truth : test.ty = .tinuod)
    (hb : BodyReturns before between body) (hr : ArmsReturn between after rest) :
    ArmsReturn before after ((test, body) :: rest) := by
  intro k n tokens stop last d enough bound single final
  simp only [Stmt.writeArms, Stmt.asked, Stmt.braced, List.length_cons, List.length_append,
    List.length_nil] at enough bound
  obtain ⟨n, rfl⟩ : ∃ j, n = j + 1 := ⟨n - 1, by omega⟩
  simp only [Stmt.writeArms, List.cons_append, List.append_assoc]
  refine Gets.of_eq ?_ (alternatives_of_dili rfl rfl)
  refine gets_advance (gets_advance (gets_skip_token (by decide) ?_))
  refine (gets_condition typed truth (by omega)).bind ?_
  intro test' alikeTest
  refine (gets_block hb (by omega)).bind ?_
  intro body' alikeBody
  refine gets_skip_one (next_writeArms single) ?_
  refine (hr k n tokens stop last d (by omega) (by omega) single final).bind ?_
  rintro more ⟨alikeRest, otherwise, ended⟩
  exact gets_pure ⟨.armsCons alikeTest alikeBody alikeRest, otherwise, ended⟩

theorem returns_branch {first second : Table Ty} {test : Expr} {body : List Stmt}
    {others : List (Expr × List Stmt)} {last : Option (List Stmt)} (typed : test.Typed before)
    (truth : test.ty = .tinuod) (hb : BodyReturns before first body)
    (ho : ArmsReturn first second others) (hl : OtherwiseReturns second after last) :
    StmtReturns before after (.branch test body others last) := by
  apply StmtReturns.of_succ
  intro k tokens stop enough fresh
  simp only [Stmt.write, Stmt.asked, Stmt.braced, List.length_cons, List.length_append,
    List.length_nil] at enough
  -- The reader of the alternatives goes on into the last body, so what that comes to is
  -- needed before they are.
  obtain ⟨last', alikeLast, final⟩ := hl k tokens stop (by omega) fresh
  simp only [Stmt.write, List.cons_append, List.append_assoc]
  refine Gets.of_eq (q := branch (block (statement k) k) k) ?_ rfl
  refine gets_bind_of_ok (p := peek) rfl (gets_advance ?_)
  refine gets_bind_of_ok (p := noAlternative _) rfl ?_
  refine (gets_condition typed truth (by omega)).bind ?_
  intro test' alikeTest
  refine (gets_block hb (by omega)).bind ?_
  intro body' alikeBody
  have single : (Cursor.next ⟨Stmt.writeOtherwise last ++ tokens, stop, after⟩).kind ≠ .newline :=
    next_writeOtherwise fresh.1
  refine gets_skip_one (next_writeArms single) ?_
  refine (ho k k _ stop last' _ (by omega) (by omega) single final).bind ?_
  rintro ⟨others', last'', ended⟩ ⟨alikeOthers, rfl, rfl⟩
  exact gets_pure (.branch alikeTest alikeBody alikeOthers alikeLast)

end

/-- What is written for a phrase is read as that phrase. The parts that are read as lists
or expressions have lemmas of their own. -/
def Returns (before after : Table Ty) : Phrase → Prop
  | .condition e => e.Typed before ∧ e.ty = .tinuod
  | .stmt s => StmtReturns before after s
  | .stmts body => BodyReturns before after body
  | .arms others => ArmsReturn before after others
  | .otherwise last => OtherwiseReturns before after last
  | .passes test step body =>
      (test.Typed before ∧ test.ty = .tinuod) ∧ step.Typed before ∧ BodyReturns before after body
  | .bindings _ _ | .items _ | .expr _ => True

/-- One case for each rule: what follows the static rules is read as it is written. -/
theorem returns_of_typed {before after : Table Ty} {phrase : Phrase}
    (typed : Phrase.Typed before phrase after) : Returns before after phrase := by
  induction typed with
  | condition typed truth => exact ⟨typed, truth⟩
  | declare nonempty typed _ => exact returns_declare nonempty typed
  | read nonempty declared => exact returns_read nonempty declared
  | print nonempty typed _ => exact returns_print nonempty typed
  | branch _ _ _ _ head chosen alternatives final =>
      exact returns_branch head.1 head.2 chosen alternatives final
  | loop typed _ repeated =>
      obtain ⟨⟨test, truth⟩, step, body⟩ := repeated
      exact returns_loop typed test truth step body
  | block _ body => exact returns_block body
  | expr typed => exact returns_expr typed
  | stmtsNil => exact returns_body_nil
  | stmtsCons head others hf hr => exact returns_body_cons head others hf hr
  | armsNil => exact returns_arms_nil
  | armsCons _ _ _ head chosen others => exact returns_arms_cons head.1 head.2 chosen others
  | otherwiseNone => exact returns_otherwise_none
  | otherwiseSome _ body => exact returns_otherwise_some body
  | passes _ update _ head body => exact ⟨head, update, body⟩
  | _ => trivial

/-! Whole programs. -/

/-- An end mark may be there or not. -/
theorem ofTokens_inside (table : Table Ty) {tokens tail : List Token} (inside : Inside tokens)
    (ends : tail = [] ∨ ∃ stop, tail = [.endMark stop]) :
    ∃ stop, Cursor.ofTokens table (tokens ++ tail) = ⟨tokens, stop, table⟩ := by
  have ahead : (tokens ++ tail).takeWhile (fun t => t.kind != .eof) = tokens := by
    rw [List.takeWhile_append_of_pos (by simpa [Inside] using inside)]
    rcases ends with rfl | ⟨stop, rfl⟩ <;> simp [Token.endMark]
  exact ⟨(Cursor.ofTokens table (tokens ++ tail)).stop, by rw [Cursor.ofTokens, ahead]⟩

/-- Statements are not taken for the word that opens a program. -/
theorem next_writeAll_ne_sugod {before after : Table Ty} {body : List Stmt}
    (typed : Phrase.Typed before (.stmts body) after) (stop : Position) :
    (Cursor.next ⟨Stmt.writeAll body, stop, before⟩).kind ≠ .sugod := by
  cases typed with
  | stmtsNil =>
      rw [Stmt.writeAll]
      exact nofun
  | stmtsCons head _ =>
      rw [Stmt.writeAll]
      exact (write_begins head _ stop before).2.1

theorem gets_program (mode : Mode) {before after : Table Ty} {body : Program}
    (typed : body.Typed before after) {k : Nat} (enough : (Stmt.writeAll body).length < k)
    (stop : Position) :
    Gets (program mode k) ⟨body.write mode, stop, before⟩
      (fun body' => Phrase.Alike (.stmts body) (.stmts body')) ⟨[], stop, after⟩ := by
  have inner : BodyReturns before after body := returns_of_typed typed
  cases mode with
  | program =>
      refine gets_skip_token (by decide) (gets_bind_of_ok (p := opening .program) rfl ?_)
      apply (inner k k .katapusan _ stop (Or.inr rfl) (by omega) enough (Or.inl rfl)).bind
      intro body' alike
      exact ⟨body', rfl, alike⟩
  | repl =>
      have fresh : Fresh ⟨Stmt.writeAll body ++ [], stop, before⟩ :=
        fresh_writeAll typed ⟨nofun, nofun⟩
      have whole := inner k k .katapusan [] stop (Or.inr rfl) (by omega) enough (Or.inr rfl)
      rw [List.append_nil] at fresh whole
      refine gets_skip_none fresh.1 ?_
      refine gets_accept_other (next_writeAll_ne_sugod typed stop) (whole.bind ?_)
      intro body' alike
      exact ⟨body', rfl, alike⟩

end Grammar

/-- Reading undoes writing. A program that follows the static rules is written as tokens,
between its two words or, at the prompt, without them, and these tokens are read as the
same program up to places. The names that are declared behind it are those of the table
before it and those that the program declares. -/
theorem Program.ofTokens_write (mode : Mode) {table after : Table Ty} {program : Program}
    (typed : program.Typed table after) {tail : List Token}
    (ends : tail = [] ∨ ∃ stop, tail = [.endMark stop]) :
    ∃ program',
      Program.ofTokens mode table (program.write mode ++ tail) =
        .ok (program', table.insertAll (Stmt.declaredAll program)) ∧
      Phrase.Alike (.stmts program) (.stmts program') := by
  have inside := Grammar.inside_program program mode
  obtain ⟨stop, cursor⟩ := Grammar.ofTokens_inside table inside ends
  have bound : (Stmt.writeAll program).length < (program.write mode ++ tail).length + 2 := by
    cases mode <;> simp [Program.write] <;> omega
  obtain ⟨program', read, alike⟩ := Grammar.gets_program mode typed bound stop
  rw [← cursor] at read
  have names : after = table.insertAll (Stmt.declaredAll program) := Phrase.Typed.table_eq typed
  rw [← names]
  exact ⟨program', Program.ofTokens_of_ok read, alike⟩

/-- A declaration and a condition with two more bodies, in which differences and assignments
are nested to the right and nothing is printed last. -/
theorem Program.ofTokens_write_nested :
    let number : Note := ⟨.numero, .nowhere⟩
    let truth : Note := ⟨.tinuod, .nowhere⟩
    let x : Expr := .var number "x"
    let one : Expr := .ofLiteral (.numero .one) .nowhere
    let program : Program :=
      [.declare .numero [("x", some one), ("y", none)],
        .branch (.binary truth (.order .gt) x one)
          [.expr (.assign number "y" (.assign number "x"
            (.binary number (.arith .sub) x (.binary number (.arith .sub) one x))))]
          [(.not truth (.binary truth .eq x one), [.read .nowhere ["x", "y"]])]
          (some [.print [x, .blank ⟨.empty, .nowhere⟩]])]
    ∃ program',
      Program.ofTokens .program .empty (program.write .program ++ [.endMark .start]) =
        .ok (program', (Table.empty.insert "x" .numero).insert "y" .numero) ∧
      Phrase.Alike (.stmts program) (.stmts program') := by
  intro number truth x one program
  let table : Table Ty := (Table.empty.insert "x" .numero).insert "y" .numero
  have hx : x.Typed table := .var rfl
  have hone {table : Table Ty} : one.Typed table := .literal rfl
  have inner : (Expr.binary number (.arith .sub) one x).Typed table :=
    .binary hone hx (.integers .sub)
  have difference : (Expr.binary number (.arith .sub) x
      (.binary number (.arith .sub) one x)).Typed table := .binary hx inner (.integers .sub)
  have body : Phrase.Typed table (.stmts [.expr (.assign number "y" (.assign number "x"
      (.binary number (.arith .sub) x (.binary number (.arith .sub) one x))))]) table :=
    .stmtsCons (.expr (.assign rfl (.assign rfl difference rfl) rfl)) .stmtsNil
  have typed : program.Typed .empty table :=
    .stmtsCons
      (.declare nofun
        (.bindingsStart trivial rfl hone rfl (.bindingsPlain trivial rfl .bindingsNil)))
      (.stmtsCons
        (.branch (.condition (.binary hx hone (.numbers .gt rfl rfl)) rfl) body
          (.armsCons (.condition (.not (.binary hx hone (.eq rfl)) rfl rfl) rfl)
            (.stmtsCons (.read nofun (by decide)) .stmtsNil) .armsNil)
          (.otherwiseSome (.stmtsCons (.print nofun (.itemsCons hx .itemsBlank)) .stmtsNil)))
        .stmtsNil)
  exact Program.ofTokens_write .program typed (Or.inr ⟨.start, rfl⟩)

end Sulti
