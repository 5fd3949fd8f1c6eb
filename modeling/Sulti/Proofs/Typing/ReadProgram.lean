import Sulti.Proofs.Typing.ReadExpr

/-!
Every program that is read is well typed, and the table behind it is the one
that its own declarations make. Nothing but the end of a statement can follow
a blank, and no rule for a condition or a start value takes it; that is why a
blank is never anywhere but at the end of what is printed.
-/

namespace Sulti.Grammar

theorem yields_endStatement (c : Cursor) :
    Yields endStatement c fun _ d => d.table = c.table := by
  refine yields_peek_bind ?_
  split
  · rintro a d ha
    cases ha
    rfl
  · exact yields_pure rfl
  · exact yields_pure rfl
  · exact yields_pure rfl
  · exact yields_unexpected

theorem yields_declaredType (c : Cursor) :
    Yields declaredType c fun ty d => ty.Declarable ∧ d.table = c.table := by
  refine yields_peek_bind ?_
  split
  case h_3 => exact yields_unexpected
  all_goals
    refine yields_advance_bind ?_
    split
    · rename_i ty hty
      exact yields_pure ⟨Ty.declarable_of_ofWord? hty, rfl⟩
    · exact yields_reject

theorem yields_freshName (c : Cursor) :
    Yields freshName c fun name d => c.table.find? name = none ∧ d.table = c.table := by
  refine Yields.bind (yields_identifier fun name _ => yields_names_bind ?_)
  split
  · exact yields_reject
  · rename_i fresh
    exact yields_pure ⟨Table.contains_eq_false_iff.mp (eq_false_of_ne_true fresh), rfl⟩

theorem yields_start {c : Cursor} (hc : c.table.AllDeclarable) {ty : Ty} (hty : ty.Declarable)
    (fuel : Nat) :
    Yields (start ty fuel) c fun value d => d.table = c.table ∧
      ∀ e, value = some e → e.Typed c.table ∧ ty.compatible e.ty = true := by
  have declared : ty ≠ .empty := by
    rintro rfl
    exact hty
  refine Yields.bind (yields_accept (fun _ => ?_) fun _ => yields_pure ⟨rfl, nofun⟩)
  refine Yields.bind ((reader_expression fuel c.forward hc).mono fun e d he => ?_)
  refine Yields.bind (yields_demand fun fits => yields_pure ?_)
  obtain ⟨typed, inline⟩ := he.of_compatible declared fits
  refine ⟨inline.table, ?_⟩
  rintro e' h
  cases h
  exact ⟨typed, fits⟩

/-- One name of a declaration, behind which it is in the table. -/
def ReadsBinding (ty : Ty) (c : Cursor) (binding : String × Option Expr) (d : Cursor) : Prop :=
  c.table.find? binding.1 = none ∧ d.table = c.table.insert binding.1 ty ∧
    ∀ e, binding.2 = some e → e.Typed c.table ∧ ty.compatible e.ty = true

theorem yields_binding {c : Cursor} (hc : c.table.AllDeclarable) {ty : Ty} (hty : ty.Declarable)
    (fuel : Nat) : Yields (binding ty fuel) c (ReadsBinding ty c) := by
  refine Yields.bind ((yields_freshName c).mono ?_)
  rintro name d ⟨fresh, hd⟩
  have declarable : d.table.AllDeclarable := by rwa [hd]
  refine Yields.bind ((yields_start declarable hty fuel).mono ?_)
  rintro value e ⟨he, typed⟩
  rw [hd] at he typed
  rintro named last h
  cases h
  rw [declare_of_fresh (by rwa [he, Table.contains_eq_false_iff]) ty]
  exact ⟨fresh, by rw [he], typed⟩

/-- What a binding adds in front of bindings that follow the rules. -/
theorem ReadsBinding.cons {ty : Ty} (hty : ty.Declarable) {c d : Cursor}
    {binding : String × Option Expr} (h : ReadsBinding ty c binding d) {after : Table Ty}
    {rest : List (String × Option Expr)} (others : Phrase.Typed d.table (.bindings ty rest) after) :
    Phrase.Typed c.table (.bindings ty (binding :: rest)) after := by
  obtain ⟨name, value⟩ := binding
  obtain ⟨fresh, table, typed⟩ := h
  rw [table] at others
  cases value with
  | none => exact .bindingsPlain hty fresh others
  | some e => exact .bindingsStart hty fresh (typed e rfl).1 (typed e rfl).2 others

theorem yields_bindings {c : Cursor} (hc : c.table.AllDeclarable) {ty : Ty} (hty : ty.Declarable)
    (fuel bound : Nat) :
    Yields (separated .comma (binding ty fuel) bound) c fun bindings d =>
      bindings ≠ [] ∧ Phrase.Typed c.table (.bindings ty bindings) d.table := by
  refine yields_separated (P := fun c => c.table.AllDeclarable) (S := ReadsBinding ty)
    (L := fun c bindings d => bindings ≠ [] ∧ Phrase.Typed c.table (.bindings ty bindings) d.table)
    (fun c hc => yields_binding hc hty fuel) ?_ ?_ bound c hc
  · intro c one d _ hone _
    exact ⟨by simp, hone.cons hty .bindingsNil⟩
  · intro c one d hc hone _
    refine ⟨?_, fun others e hothers => ⟨by simp, hone.cons hty hothers.2⟩⟩
    change d.table.AllDeclarable
    rw [hone.2.1]
    exact hc.insert _ hty

/-- What a statement does to the table. -/
def ReadsStmt (c : Cursor) (s : Stmt) (d : Cursor) : Prop := Phrase.Typed c.table (.stmt s) d.table

theorem yields_declaration {c : Cursor} (hc : c.table.AllDeclarable) (fuel : Nat) :
    Yields (declaration fuel) c (ReadsStmt c) := by
  refine yields_advance_bind (Yields.bind ((yields_declaredType c.forward).mono ?_))
  rintro ty d ⟨hty, hd⟩
  have declarable : d.table.AllDeclarable := by
    rw [hd]
    exact hc
  refine Yields.bind ((yields_bindings declarable hty fuel fuel).mono ?_)
  rintro bindings e ⟨nonempty, typed⟩
  refine Yields.bind ((yields_endStatement e).mono fun _ last hlast => yields_pure ?_)
  rw [hd] at typed
  unfold ReadsStmt
  rw [hlast]
  exact .declare nonempty typed

theorem yields_target (c : Cursor) :
    Yields target c fun name d => c.table.contains name = true ∧ d.table = c.table := by
  refine Yields.bind (yields_identifier fun name _ => yields_names_bind ?_)
  split
  · rename_i declared
    exact yields_pure ⟨declared, rfl⟩
  · exact yields_reject

theorem yields_targets (c : Cursor) (bound : Nat) :
    Yields (separated .comma target bound) c fun targets d =>
      d.table = c.table ∧ targets ≠ [] ∧ ∀ name ∈ targets, c.table.contains name = true := by
  refine yields_separated (P := fun _ => True)
    (S := fun c name d => c.table.contains name = true ∧ d.table = c.table)
    (L := fun c targets d => d.table = c.table ∧ targets ≠ [] ∧
      ∀ name ∈ targets, c.table.contains name = true)
    (fun c _ => yields_target c) ?_ ?_ bound c trivial
  · rintro c name d _ ⟨declared, hd⟩ _
    exact ⟨hd, by simp, by simpa using declared⟩
  · rintro c name d _ ⟨declared, hd⟩ _
    refine ⟨trivial, ?_⟩
    rintro others e ⟨he, _, hothers⟩
    change e.table = d.table at he
    change ∀ name ∈ others, d.table.contains name = true at hothers
    rw [hd] at he hothers
    refine ⟨he, by simp, ?_⟩
    simpa [declared] using hothers

theorem yields_input (c : Cursor) (fuel : Nat) : Yields (input fuel) c (ReadsStmt c) := by
  refine yields_peek_bind (yields_advance_bind (Yields.bind (yields_expect fun _ => ?_)))
  refine Yields.bind ((yields_targets c.forward.forward fuel).mono ?_)
  rintro targets d ⟨hd, nonempty, declared⟩
  refine Yields.bind ((yields_endStatement d).mono fun _ last hlast => yields_pure ?_)
  have same : last.table = c.table := hlast.trans hd
  unfold ReadsStmt
  rw [same]
  exact .read nonempty declared

/-- What is printed: a blank can only be the last item, because the line ends there. -/
theorem yields_items {c : Cursor} (hc : c.table.AllDeclarable) (fuel bound : Nat) :
    Yields (separated .ampersand (expression fuel) bound) c fun items d =>
      d.table = c.table ∧ items ≠ [] ∧ Phrase.Typed c.table (.items items) c.table := by
  refine yields_separated (P := fun c => c.table.AllDeclarable) (S := ReadsExpr)
    (L := fun c items d => d.table = c.table ∧ items ≠ [] ∧
      Phrase.Typed c.table (.items items) c.table)
    (fun c hc => reader_expression fuel c hc) ?_ ?_ bound c hc
  · intro c item d _ hitem _
    cases hitem with
    | typed typed inline => exact ⟨inline.table, by simp, .itemsCons typed .itemsNil⟩
    | blank _ => exact ⟨rfl, by simp, .itemsBlank⟩
  · intro c item d hc hitem hd
    obtain ⟨typed, inline⟩ := hitem.of_next (by simp [hd])
    refine ⟨inline.allDeclarable hc, ?_⟩
    rintro others e ⟨he, _, hothers⟩
    change e.table = d.table at he
    change Phrase.Typed d.table (.items others) d.table at hothers
    rw [inline.table] at he hothers
    exact ⟨he, by simp, .itemsCons typed hothers⟩

theorem yields_output {c : Cursor} (hc : c.table.AllDeclarable) (fuel : Nat) :
    Yields (output fuel) c (ReadsStmt c) := by
  refine yields_advance_bind (Yields.bind (yields_expect fun _ => ?_))
  refine Yields.bind ((yields_items (c := c.forward.forward) hc fuel fuel).mono ?_)
  rintro items d ⟨hd, nonempty, typed⟩
  refine Yields.bind ((yields_endStatement d).mono fun _ last hlast => yields_pure ?_)
  have same : last.table = c.table := hlast.trans hd
  unfold ReadsStmt
  rw [same]
  exact .print nonempty typed

/-- A reader of statements that follow the rules, wherever no line break is next. -/
def StmtReader (p : Parse Stmt) : Prop :=
  ∀ c : Cursor, c.table.AllDeclarable → c.next.kind ≠ .newline → Yields p c (ReadsStmt c)

/-- A reader of lists of statements that follow the rules. -/
def BodyReader (p : Parse (List Stmt)) : Prop :=
  ∀ c : Cursor, c.table.AllDeclarable →
    Yields p c fun body d => Phrase.Typed c.table (.stmts body) d.table

theorem bodyReader_statements {closing : Token.Kind} {statement : Parse Stmt}
    (hs : StmtReader statement) (fuel : Nat) :
    BodyReader (statements closing statement fuel) := by
  induction fuel with
  | zero => exact fun c _ => yields_starve
  | succ fuel ih =>
      intro c hc
      refine yields_skipNewlines_bind (yields_peek_bind ?_)
      split
      · exact yields_pure .stmtsNil
      · -- Behind skipped line breaks there is none, so no statement here is a blank.
        have next : c.dropNewlines.next.kind ≠ .newline :=
          next_ne_newline_of_skipNewlines (c := c) rfl
        refine Yields.bind (yields_member ((hs c.dropNewlines hc next).mono fun first d hf => ?_))
        refine Yields.bind ((ih d (hf.allDeclarable hc)).mono fun others e ho => ?_)
        exact yields_pure (.stmtsCons hf ho)

theorem bodyReader_block {statement : Parse Stmt} (hs : StmtReader statement) (fuel : Nat) :
    BodyReader (block statement fuel) := by
  intro c hc
  refine Yields.bind (yields_expect fun _ => yields_skipNewlines_bind ?_)
  refine Yields.bind (yields_expect fun _ => Yields.bind ?_)
  refine (bodyReader_statements hs fuel c.forward.dropNewlines.forward hc).mono fun body d h => ?_
  exact Yields.bind (yields_expect fun _ => yields_pure h)

theorem yields_condition {c : Cursor} (hc : c.table.AllDeclarable) (fuel : Nat) :
    Yields (condition fuel) c fun e d =>
      Phrase.Typed c.table (.condition e) c.table ∧ d.table = c.table := by
  refine Yields.bind (yields_expect fun _ => ?_)
  refine Yields.bind ((reader_expression fuel c.forward hc).mono fun e d he => ?_)
  refine Yields.bind (yields_demand fun fits => Yields.bind (yields_expect fun _ => ?_))
  obtain ⟨typed, inline⟩ := he.of_compatible (nofun : Ty.tinuod ≠ .empty) fits
  refine yields_skipNewlines_bind (yields_pure ⟨?_, inline.table⟩)
  exact .condition typed (Ty.eq_tinuod_of_compatible fits)

/-- The alternatives of a condition thread the table through all of their bodies. -/
theorem yields_alternatives {body : Parse (List Stmt)} (hb : BodyReader body) (fuel : Nat)
    {c : Cursor} (hc : c.table.AllDeclarable) (ended : Bool) :
    Yields (alternatives body ended fuel) c fun more d =>
      ∃ between, Phrase.Typed c.table (.arms more.others) between ∧
        Phrase.Typed between (.otherwise more.otherwise) d.table := by
  induction fuel generalizing c ended with
  | zero => exact yields_starve
  | succ fuel ih =>
      refine yields_behindKung_bind fun word => ?_
      split
      · refine yields_advance_bind (yields_advance_bind (yields_skipNewlines_bind ?_))
        have asked := yields_condition (c := c.forward.forward.dropNewlines) hc fuel
        refine Yields.bind (asked.mono ?_)
        rintro test d ⟨htest, hd⟩
        have declarable : d.table.AllDeclarable := by
          rw [hd]
          exact hc
        refine Yields.bind ((hb d declarable).mono fun chosen e hchosen => ?_)
        refine yields_skipNewlines_bind (Yields.bind ?_)
        refine (ih (c := e.dropNewlines) (hchosen.allDeclarable declarable) _).mono ?_
        rintro more last ⟨between, arms, otherwise⟩
        rw [hd] at hchosen
        exact yields_pure ⟨between, .armsCons htest hchosen arms, otherwise⟩
      · refine yields_advance_bind (yields_advance_bind (yields_skipNewlines_bind ?_))
        refine Yields.bind ((hb c.forward.forward.dropNewlines hc).mono fun chosen d hchosen => ?_)
        exact yields_skipNewlines_bind (yields_pure ⟨_, .armsNil, .otherwiseSome hchosen⟩)
      · exact yields_pure ⟨_, .armsNil, .otherwiseNone⟩

theorem yields_endUnless (ended : Bool) (c : Cursor) :
    Yields (endUnless ended) c fun _ d => d.table = c.table := by
  unfold endUnless
  split
  · exact yields_pure rfl
  · exact yields_endStatement c

theorem yields_noAlternative (position : Position) (c : Cursor) :
    Yields (noAlternative position) c fun _ d => d = c := by
  refine yields_peek_bind ?_
  split
  · exact yields_reject
  · exact yields_pure rfl

theorem yields_branch {body : Parse (List Stmt)} (hb : BodyReader body) (fuel : Nat) {c : Cursor}
    (hc : c.table.AllDeclarable) : Yields (branch body fuel) c (ReadsStmt c) := by
  refine yields_peek_bind (yields_advance_bind (Yields.bind ?_))
  refine (yields_noAlternative _ c.forward).mono ?_
  rintro _ _ rfl
  refine Yields.bind ((yields_condition (c := c.forward) hc fuel).mono ?_)
  rintro test d ⟨htest, hd⟩
  have declarable : d.table.AllDeclarable := by
    rw [hd]
    exact hc
  refine Yields.bind ((hb d declarable).mono fun chosen e hchosen => ?_)
  refine yields_skipNewlines_bind (Yields.bind ?_)
  refine (yields_alternatives hb fuel (c := e.dropNewlines)
    (hchosen.allDeclarable declarable) _).mono ?_
  rintro more last ⟨between, arms, otherwise⟩
  refine Yields.bind ((yields_endUnless _ last).mono fun _ finish hend => yields_pure ?_)
  rw [hd] at hchosen
  unfold ReadsStmt
  rw [hend]
  exact .branch htest hchosen arms otherwise

theorem yields_loop {body : Parse (List Stmt)} (hb : BodyReader body) (fuel : Nat) {c : Cursor}
    (hc : c.table.AllDeclarable) : Yields (loop body fuel) c (ReadsStmt c) := by
  refine yields_advance_bind (Yields.bind (yields_expect fun _ => ?_))
  refine Yields.bind (yields_expect fun _ => ?_)
  refine Yields.bind ((reader_expression fuel c.forward.forward.forward hc).mono ?_)
  intro first d hfirst
  refine Yields.bind (yields_expect fun hcomma => ?_)
  obtain ⟨tfirst, toFirst⟩ := hfirst.of_next (by simp [hcomma])
  have hd : d.forward.table = c.table := toFirst.table
  refine Yields.bind ((reader_expression fuel d.forward (hd ▸ hc)).mono fun test e htest => ?_)
  refine Yields.bind (yields_demand fun fits => Yields.bind (yields_expect fun _ => ?_))
  obtain ⟨ttest, toTest⟩ := htest.of_compatible (nofun : Ty.tinuod ≠ .empty) fits
  have he : e.forward.table = c.table := toTest.table.trans hd
  refine Yields.bind ((reader_expression fuel e.forward (he ▸ hc)).mono fun step l hstep => ?_)
  refine Yields.bind (yields_expect fun hparen => yields_skipNewlines_bind ?_)
  obtain ⟨tstep, toStep⟩ := hstep.of_next (by simp [hparen])
  have hl : l.forward.dropNewlines.table = c.table := toStep.table.trans he
  refine Yields.bind ((hb l.forward.dropNewlines (hl ▸ hc)).mono fun repeated k hbody => ?_)
  refine Yields.bind ((yields_endStatement k).mono fun _ last hlast => yields_pure ?_)
  have truth := Ty.eq_tinuod_of_compatible fits
  rw [hl] at hbody
  rw [hd] at ttest
  rw [he] at tstep
  unfold ReadsStmt
  rw [hlast]
  exact .loop tfirst (.passes (.condition ttest truth) tstep hbody)

theorem stmtReader_statement (fuel : Nat) : StmtReader (statement fuel) := by
  induction fuel with
  | zero => exact fun c _ _ => yields_starve
  | succ fuel ih =>
      intro c hc hn
      have body : BodyReader (block (statement fuel) fuel) := bodyReader_block ih fuel
      refine yields_peek_bind ?_
      split
      · exact yields_declaration hc fuel
      · exact yields_input c fuel
      · exact yields_output hc fuel
      · exact yields_branch body fuel hc
      · exact yields_loop body fuel hc
      · refine Yields.bind ((body c hc).mono fun inner d hinner => ?_)
        refine Yields.bind ((yields_endStatement d).mono fun _ last hlast => yields_pure ?_)
        unfold ReadsStmt
        rw [hlast]
        exact .block hinner
      · refine Yields.bind ((reader_expression fuel c hc).mono fun e d he => ?_)
        refine Yields.bind ((yields_endStatement d).mono fun _ last hlast => yields_pure ?_)
        cases he with
        | typed typed inline =>
            unfold ReadsStmt
            rw [hlast, inline.table]
            exact .expr typed
        | blank newline => exact absurd newline hn

theorem yields_opening (mode : Mode) (c : Cursor) :
    Yields (opening mode) c fun _ d => d.table = c.table := by
  cases mode with
  | program => exact Yields.bind (yields_expect fun _ => yields_pure rfl)
  | repl => exact yields_accept (fun _ => rfl) fun _ => rfl

theorem yields_closing (framed : Bool) (c : Cursor) :
    Yields (closing framed) c fun _ d => d.table = c.table := by
  cases framed with
  | true => exact yields_expect fun _ => rfl
  | false => exact Yields.bind (yields_accept (fun _ => yields_pure rfl) fun _ => yields_pure rfl)

theorem yields_ending (c : Cursor) : Yields ending c fun _ d => d.table = c.table := by
  refine yields_skipNewlines_bind (yields_peek_bind ?_)
  split
  · exact yields_pure rfl
  · exact yields_unexpected

theorem yields_program (mode : Mode) (fuel : Nat) {c : Cursor} (hc : c.table.AllDeclarable) :
    Yields (program mode fuel) c fun body d => Program.Typed c.table body d.table := by
  refine yields_skipNewlines_bind (Yields.bind ((yields_opening mode c.dropNewlines).mono ?_))
  intro framed d hd
  have declarable : d.table.AllDeclarable := by
    rw [hd]
    exact hc
  refine Yields.bind ?_
  refine (bodyReader_statements (stmtReader_statement fuel) fuel d declarable).mono ?_
  intro body e hbody
  refine Yields.bind ((yields_closing framed e).mono fun _ f hf => ?_)
  refine Yields.bind ((yields_ending f).mono fun _ last hlast => yields_pure ?_)
  rw [hd] at hbody
  rw [hlast, hf]
  exact hbody

end Sulti.Grammar

namespace Sulti

/-- Reading accepts only programs that follow the rules: every name is declared
before it is used and declared once, every node has operands that its operator
takes and carries the type of its result, and blanks are only printed. The
table behind the program is the one that its declarations make. -/
theorem Program.typed_of_ofTokens (mode : Mode) (table : Table Ty) (tokens : List Token)
    (declarable : table.AllDeclarable) (program : Program) (after : Table Ty)
    (h : Program.ofTokens mode table tokens = .ok (program, after)) :
    program.Typed table after := by
  obtain ⟨d, hd, rfl⟩ := Program.ofTokens_eq_ok h
  exact Grammar.yields_program mode _ declarable program d hd

/-- A declaration from a signed number, an increment, and a line of output that ends
in a blank. -/
theorem Program.typed_of_ofTokens_increment :
    let token (kind : Token.Kind) (lexeme : String) : Token := ⟨kind, lexeme, .start⟩
    let tokens := [token .sugod "SUGOD", token .mugna "MUGNA", token .typeName "NUMERO",
      token (.identifier "x") "x", token .equal "=", token .minus "-", token (.int .one) "1",
      token .newline "", token (.identifier "x") "x", token .plusPlus "++", token .newline "",
      token .ipakita "IPAKITA", token .colon ":", token (.identifier "x") "x",
      token .ampersand "&", token .newline "", token .katapusan "KATAPUSAN"]
    ∃ program after, Program.ofTokens .program .empty tokens = .ok (program, after) ∧
      program.Typed .empty after ∧ after.find? "x" = some .numero := by
  intro token tokens
  let after := Table.empty.insert "x" Ty.numero
  obtain ⟨program, read⟩ : ∃ program, Program.ofTokens .program .empty tokens =
      .ok (program, after) := by
    dsimp only [tokens, token]
    exact ⟨_, rfl⟩
  have typed := Program.typed_of_ofTokens .program .empty tokens Table.allDeclarable_empty
    program after read
  exact ⟨program, after, read, typed, rfl⟩

end Sulti
