import Sulti.Proofs.Grammar.AbreastExpr

/-!
Statements and programs side by side. Behind a statement the first text may have
ended, and the line breaks ahead may differ, which the next statement skips. A
list of statements ends alike where the closing word of the program ends it;
inside of a block that word is no end but a failure, as the end of the text is.
-/

namespace Sulti.Grammar

variable {α : Type} {P : Pairing} {R : α → α → Prop} {after : α → Stage}

/-- The same statements, at places that are side by side. -/
abbrev Pairing.SameBody (P : Pairing) (body body' : List Stmt) : Prop :=
  Phrase.Related P.place (.stmts body) (.stmts body')

/-- The same name, with the same start at places that are side by side. -/
inductive Pairing.SameBinding (P : Pairing) :
    String × Option Expr → String × Option Expr → Prop where
  | plain (name : String) : SameBinding P (name, none) (name, none)
  | start (name : String) {e e' : Expr} (h : P.SameExpr e e') :
      SameBinding P (name, some e) (name, some e')

/-- The same alternatives of a condition, at places that are side by side. -/
structure Pairing.SameAlternatives (P : Pairing) (a b : Alternatives) : Prop where
  others : Phrase.Related P.place (.arms a.others) (.arms b.others)
  otherwise : Phrase.Related P.place (.otherwise a.otherwise) (.otherwise b.otherwise)
  ended : b.ended = a.ended

theorem alongside_declaredType :
    Alongside P (fun a b => b = a) declaredType declaredType := by
  apply abreast_peek_bind
  · intro kind lexeme position position' placed
    cases kind with
    | typeName | identifier name =>
        apply abreast_advance_bind (by simp [Inner, Final])
        dsimp only
        cases Ty.ofWord? lexeme with
        | some ty => exact .done rfl rfl
        | none => exact .reject placed (by simp)
    | _ => exact .weaken rfl (.unexpected _)
  · intro _ first second h h'
    have halts {final : Token.Kind} (h : Final final) : Halts final declaredType := by
      apply halts_peek_bind
      intro t ht
      rw [ht]
      rcases h with rfl | rfl <;> exact .unexpected
    exact .failed (halts h) (halts h')

theorem alongside_freshName : Alongside P (fun a b => b = a) freshName freshName := by
  apply alongside_identifier.bind
  rintro ⟨name, position⟩ ⟨_, position'⟩ ⟨rfl, placed⟩
  apply abreast_names_bind
  intro table
  dsimp only
  split
  · exact .reject placed (by simp)
  · exact .done rfl rfl

theorem alongside_target : Alongside P (fun a b => b = a) target target := by
  apply alongside_identifier.bind
  rintro ⟨name, position⟩ ⟨_, position'⟩ ⟨rfl, placed⟩
  apply abreast_names_bind
  intro table
  dsimp only
  split
  · exact .done rfl rfl
  · exact .reject placed (by simp)

theorem alongside_start (ty : Ty) {n m : Nat} (hn : n ≤ m) (name : String) :
    Alongside P (fun a b => P.SameBinding (name, a) (name, b)) (start ty n) (start ty m) := by
  apply (alongside_accept (by simp [Inner, Final])).bind
  rintro _ found rfl
  cases found with
  | true =>
      apply (alongside_expression P hn).bind
      intro value value' same
      apply (alongside_demand same ty).bind
      intro _ _ _
      exact .done (.start name same) rfl
  | false => exact .done (.plain name) rfl

theorem alongside_binding (ty : Ty) {n m : Nat} (hn : n ≤ m) :
    Alongside P P.SameBinding (binding ty n) (binding ty m) := by
  apply alongside_freshName.bind
  rintro _ name rfl
  apply (alongside_start ty hn name).bind
  intro value value' same
  exact .declare (.done same rfl)

theorem alongside_noAlternative {position position' : Position}
    (placed : P.place position position') :
    Alongside P (fun _ _ => True) (noAlternative position) (noAlternative position') := by
  apply abreast_peek_bind
  · intro kind _ _ _ _
    dsimp only
    split
    · exact .reject placed (by simp)
    · exact .done trivial rfl
  · intro _ first second h h'
    apply abreast_peek_ended
    intro t u ht hu
    have other {kind : Token.Kind} (final : Final kind) : ¬(kind = .dili ∨ kind = .wala) := by
      rcases final with rfl | rfl <;> simp
    rw [if_neg (ht ▸ other h), if_neg (hu ▸ other h')]
    exact .done trivial rfl

/-! The alternatives of a condition. -/

/-- What stands behind a `KUNG` begins no alternative. -/
def NoAlternative (word : Option Token.Kind) : Prop := word ≠ some .dili ∧ word ≠ some .wala

/-- Where an alternative begins, both of its words are known. -/
def wordStage : Option Token.Kind → Stage
  | some .dili => .words .kung .dili
  | some .wala => .words .kung .wala
  | _ => .inline

theorem wordStage_eq {word : Option Token.Kind} (h : NoAlternative word) :
    wordStage word = .inline := by
  unfold wordStage
  split
  · exact absurd rfl h.1
  · exact absurd rfl h.2
  · rfl

theorem abreast_behindKung :
    Abreast P (fun a b => b = a ∨ NoAlternative a ∧ NoAlternative b) wordStage .inline
      behindKung behindKung := by
  apply abreast_peek_bind
  · intro kind _ _ _ _
    dsimp only
    split
    · rename_i kung
      rw [kung]
      apply Abreast.second (by simp [Inner, Final])
      · rintro ⟨kind, _, _⟩ ⟨kind', _, _⟩ ⟨⟨kinds, _⟩, _⟩
        cases kinds
        cases kind <;> exact .done (.inl rfl) rfl
      · rintro _ ⟨kind, _, _⟩ ⟨kind', _, _⟩ (rfl | rfl) (rfl | rfl) <;>
          exact .done (.inr (by simp [NoAlternative])) rfl
    · exact .done (.inl rfl) rfl
  · intro _ first second h h'
    apply abreast_peek_ended
    intro t u ht hu
    have other {kind : Token.Kind} (final : Final kind) : kind ≠ .kung := by
      rcases final with rfl | rfl <;> simp
    rw [if_neg (ht ▸ other h), if_neg (hu ▸ other h')]
    exact .done (.inl rfl) rfl

theorem past_behindKung :
    Abreast P (fun a b => NoAlternative a ∧ NoAlternative b) (fun _ => .past) .past
      behindKung behindKung := by
  apply Abreast.passed
  rintro ⟨_, _, _⟩ ⟨kind, _, _⟩ rfl
  have nothing : NoAlternative none := by simp [NoAlternative]
  change Abreast P _ _ _ (pure none)
    (if kind = .kung then .second fun following => .done (some following.kind) else pure none)
  split
  · rename_i kung
    rw [kung]
    apply Abreast.apart
    intro u dili wala
    exact .done ⟨nothing, by simpa [NoAlternative] using ⟨dili, wala⟩⟩ rfl
  · exact .done ⟨nothing, nothing⟩ rfl

/-- Behind line breaks the first text may have ended. -/
def behind (ended : Bool) : Stage := if ended then .loose else .inline

theorem le_behind (ended : Bool) : Stage.inline.le (behind ended) = true := by
  cases ended <;> rfl

section

variable (lines : P.lines)

include lines

theorem abreast_skip_bind {f f' : Bool → Parse α}
    (none : Abreast P R after .inline (f false) (f' false))
    (some : Abreast P R after .loose (f true) (f' true)) :
    Abreast P R after .inline (skipNewlines >>= f) (skipNewlines >>= f') := .skip lines none some

/-- Line breaks that may be there or not. -/
theorem abreast_skip_any {s t : Parse α} (h : Abreast P R after .loose s t) :
    Abreast P R after .inline (skipNewlines >>= fun _ => s) (skipNewlines >>= fun _ => t) :=
  abreast_skip_bind lines (.weaken rfl h) h

theorem abreast_endStatement :
    Abreast P (fun _ _ => True) (fun _ => .broken) .inline endStatement endStatement := by
  apply abreast_peek_bind
  · intro kind _ _ _ _
    cases kind with
    | newline => exact .newline lines (.done trivial rfl)
    | rightBrace | katapusan | eof => exact .done trivial rfl
    | _ => exact .weaken rfl (.unexpected _)
  · intro _ first second h h'
    apply abreast_peek_ended
    rintro ⟨kind, _, _⟩ ⟨kind', _, _⟩ rfl rfl
    rcases h with rfl | rfl <;> rcases h' with rfl | rfl <;> exact .done trivial rfl

theorem abreast_declaration {n m : Nat} (hn : n ≤ m) :
    Abreast P P.SameStmt (fun _ => .broken) (.seen .mugna) (declaration n) (declaration m) := by
  apply abreast_advance_bind (by simp [Inner, Final])
  apply alongside_declaredType.bind
  rintro _ ty rfl
  apply (alongside_separated (W := fun l l' =>
    Phrase.Related P.place (.bindings ty l) (.bindings ty l')) (by simp [Inner, Final])
    (alongside_binding ty hn) ?_ ?_ hn).bind
  · intro bindings bindings' same
    apply (abreast_endStatement lines).bind
    intro _ _ _
    exact .done (.declare same) rfl
  · rintro _ _ (⟨name⟩ | ⟨name, h⟩)
    · exact .bindingsPlain .bindingsNil
    · exact .bindingsStart h .bindingsNil
  · rintro _ _ l l' (⟨name⟩ | ⟨name, h⟩) others
    · exact .bindingsPlain others
    · exact .bindingsStart h others

theorem abreast_input {n m : Nat} (hn : n ≤ m) :
    Abreast P P.SameStmt (fun _ => .broken) (.seen .dawat) (input n) (input m) := by
  apply abreast_peek_again
  intro _ position position' placed
  apply abreast_advance_bind (by simp [Inner, Final])
  apply (alongside_expect (by simp [Inner, Final]) _).bind
  intro _ _ _
  apply (alongside_separated (W := fun l l' => l' = l) (by simp [Inner, Final]) alongside_target
    ?_ ?_ hn).bind
  · rintro _ targets rfl
    apply (abreast_endStatement lines).bind
    intro _ _ _
    exact .done (.read placed) rfl
  · rintro a b rfl
    rfl
  · rintro a b l l' rfl rfl
    rfl

theorem abreast_output {n m : Nat} (hn : n ≤ m) :
    Abreast P P.SameStmt (fun _ => .broken) (.seen .ipakita) (output n) (output m) := by
  apply abreast_advance_bind (by simp [Inner, Final])
  apply (alongside_expect (by simp [Inner, Final]) _).bind
  intro _ _ _
  apply (alongside_separated (W := fun l l' => Phrase.Related P.place (.items l) (.items l'))
    (by simp [Inner, Final]) (alongside_expression P hn) ?_ ?_ hn).bind
  · intro items items' same
    apply (abreast_endStatement lines).bind
    intro _ _ _
    exact .done (.print same) rfl
  · exact fun e e' h => .itemsCons h .itemsNil
  · exact fun e e' l l' h others => .itemsCons h others

theorem abreast_condition {n m : Nat} (hn : n ≤ m) :
    Abreast P P.SameExpr (fun _ => .loose) .loose (condition n) (condition m) := by
  apply (abreast_expect (by simp [Inner, Final]) _).bind
  intro _ _ _
  apply (alongside_expression P hn).bind
  intro e e' same
  apply (alongside_demand same .tinuod).bind
  intro _ _ _
  apply (alongside_expect (by simp [Inner, Final]) _).bind
  intro _ _ _
  exact abreast_skip_any lines (.done same rfl)

/-! Lists of statements. -/

omit lines in
theorem halts_statement {final : Token.Kind} (h : Final final) (n : Nat) :
    Halts final (statement n) := by
  cases n with
  | zero => exact .starve
  | succ n =>
      apply halts_peek_bind
      intro t ht
      rw [ht]
      rcases h with rfl | rfl
      · exact (halts_expression (.inl rfl) n).bind _
      · exact (halts_expression (.inr rfl) n).bind _

section

variable {a b n m : Nat} (hst : ∀ kind, Abreast P P.SameStmt (fun _ => .broken) (.seen kind)
  (statement a) (statement b)) (hn : n ≤ m)

include hst hn

/-- The statements of a program, which the closing word ends as the end of the text does. -/
theorem abreast_statements (unspent : ¬P.spent) :
    Abreast P P.SameBody (fun _ => .inline) .broken (statements .katapusan (statement a) n)
      (statements .katapusan (statement b) m) := by
  induction n generalizing m with
  | zero => exact .starve
  | succ n ih =>
      cases m with
      | zero => cases hn
      | succ m =>
          apply Abreast.skipAll lines
          · apply abreast_peek_clear
            · intro kind _ _ _ _ inner
              dsimp only
              split
              · exact .done .stmtsNil rfl
              · apply Abreast.item inner (hst kind)
                intro first first' head
                apply (ih (Nat.le_of_succ_le_succ hn)).bind
                intro others others' same
                exact .done (.stmtsCons head same) rfl
            · intro _ first second h h'
              apply abreast_peek_ended
              intro t u ht hu
              rw [if_pos (ht ▸ h.symm), if_pos (hu ▸ h'.symm)]
              exact .done .stmtsNil rfl
          · exact fun spent => absurd spent unspent

/-- Inside of a block the closing word of the program begins a statement, and there is none;
the end of the text ends the statements, but what has to follow is missing. -/
theorem abreast_statements_bind {f f' : List Stmt → Parse α}
    (rest : ∀ body body', P.SameBody body body' → Abreast P R after .inline (f body) (f' body'))
    (halts : ∀ final body, Final final → Halts final (f body))
    (halts' : ∀ final body, Final final → Halts final (f' body)) :
    Abreast P R after .broken (statements .rightBrace (statement a) n >>= f)
      (statements .rightBrace (statement b) m >>= f') := by
  induction n generalizing m f f' with
  | zero => exact .starve
  | succ n ih =>
      cases m with
      | zero => cases hn
      | succ m =>
          have stuck {f : List Stmt → Parse α} {st : Parse Stmt} {fuel : Nat}
              {final : Token.Kind} (h : Final final) (hs : Halts final st)
              (halts : ∀ final body, Final final → Halts final (f body)) :
              Halts final (peek >>= fun token : Token =>
                (if token.kind = .rightBrace ∨ token.kind = .eof then pure [] else do
                  let first ← member st
                  let others ← statements .rightBrace st fuel
                  return first :: others) >>= f) := by
            apply halts_peek_bind
            intro t _
            split
            · exact halts final [] h
            · exact .item hs
          apply Abreast.skipAll lines
          · apply abreast_peek_clear
            · intro kind _ _ _ _ inner
              simp only [Parse.bind]
              split
              · exact .weaken rfl (rest [] [] .stmtsNil)
              · apply Abreast.item inner (hst kind)
                intro first first' head
                change Abreast P R after .broken ((statements .rightBrace (statement a) n >>=
                  fun others => pure (first :: others)) >>= f)
                  ((statements .rightBrace (statement b) m >>=
                  fun others => pure (first' :: others)) >>= f')
                rw [Parse.bind_assoc, Parse.bind_assoc]
                apply ih (Nat.le_of_succ_le_succ hn)
                · exact fun body body' same => rest _ _ (.stmtsCons head same)
                · exact fun final body => halts final (first :: body)
                · exact fun final body => halts' final (first' :: body)
            · intro _ first second h h'
              exact .failed (stuck h (halts_statement h a) halts)
                (stuck h' (halts_statement h' b) halts')
          · intro _
            exact .lost (stuck (.inl rfl) (halts_statement (.inl rfl) a) halts)

theorem abreast_block :
    Abreast P P.SameBody (fun _ => .inline) .loose (block (statement a) n)
      (block (statement b) m) := by
  have brace : Inner .rightBrace := by simp [Inner, Final]
  apply (abreast_expect (by simp [Inner, Final]) _).bind
  intro _ _ _
  apply abreast_skip_any lines
  apply (abreast_expect (by simp [Inner, Final]) _).bind
  intro _ _ _
  apply Abreast.weaken (show Stage.inline.le .broken = true from rfl)
  apply abreast_statements_bind lines hst hn
  · intro body body' same
    apply (alongside_expect brace _).bind
    intro _ _ _
    exact .done same rfl
  · exact fun final body h => (halts_expect brace h _).bind _
  · exact fun final body h => (halts_expect brace h _).bind _

end

/-! Compound statements. -/

theorem abreast_endUnless (ended : Bool) :
    Abreast P (fun _ _ => True) (fun _ => .broken) (behind ended) (endUnless ended)
      (endUnless ended) := by
  cases ended with
  | true => exact .done trivial rfl
  | false => exact abreast_endStatement lines

section

variable {body body' : Parse (List Stmt)}
  (hb : Abreast P P.SameBody (fun _ => .inline) .loose body body')

include hb

theorem abreast_alternatives {n m : Nat} (hn : n ≤ m) (ended : Bool) :
    Abreast P P.SameAlternatives (fun a => behind a.ended) (behind ended)
      (alternatives body ended n) (alternatives body' ended m) := by
  induction n generalizing m ended with
  | zero => exact .starve
  | succ n ih =>
      cases m with
      | zero => cases hn
      | succ m =>
          have hn := Nat.le_of_succ_le_succ hn
          have nothing : P.SameAlternatives ⟨[], none, ended⟩ ⟨[], none, ended⟩ :=
            ⟨.armsNil, .otherwiseNone, rfl⟩
          have near : Abreast P P.SameAlternatives (fun a => behind a.ended) .inline
              (alternatives body ended (n + 1)) (alternatives body' ended (m + 1)) := by
            apply abreast_behindKung.bind
            rintro word word' (rfl | ⟨hw, hw'⟩)
            · cases word' with
              | none => exact .done nothing (le_behind ended)
              | some kind =>
                  cases kind with
                  | dili =>
                      apply Abreast.word (by simp [Inner, Final])
                      apply abreast_advance_bind (by simp [Inner, Final])
                      apply abreast_skip_any lines
                      apply (abreast_condition lines hn).bind
                      intro test test' ht
                      apply hb.bind
                      intro chosen chosen' hc
                      have more (ended : Bool) : Abreast P P.SameAlternatives
                          (fun a => behind a.ended) (behind ended)
                          (alternatives body ended n >>= fun more =>
                            pure { more with others := (test, chosen) :: more.others })
                          (alternatives body' ended m >>= fun more =>
                            pure { more with others := (test', chosen') :: more.others }) := by
                        apply (ih hn ended).bind
                        intro more more' same
                        exact .done ⟨.armsCons ht hc same.others, same.otherwise, same.ended⟩
                          (Stage.le_refl _)
                      exact abreast_skip_bind lines (more false) (more true)
                  | wala =>
                      apply Abreast.word (by simp [Inner, Final])
                      apply abreast_advance_bind (by simp [Inner, Final])
                      apply abreast_skip_any lines
                      apply hb.bind
                      intro chosen chosen' hc
                      have same (ended : Bool) : P.SameAlternatives ⟨[], some chosen, ended⟩
                          ⟨[], some chosen', ended⟩ := ⟨.armsNil, .otherwiseSome hc, rfl⟩
                      exact abreast_skip_bind lines (.done (same false) rfl) (.done (same true) rfl)
                  | _ => exact .done nothing (le_behind ended)
            · rw [wordStage_eq hw]
              split
              · exact absurd rfl hw.1
              · exact absurd rfl hw.2
              · split
                · exact absurd rfl hw'.1
                · exact absurd rfl hw'.2
                · exact .done nothing (le_behind ended)
          cases ended with
          | false => exact near
          | true =>
              apply Abreast.onward near
              intro _
              apply past_behindKung.bind
              rintro word word' ⟨hw, hw'⟩
              split
              · exact absurd rfl hw.1
              · exact absurd rfl hw.2
              · split
                · exact absurd rfl hw'.1
                · exact absurd rfl hw'.2
                · exact .done nothing rfl

theorem abreast_branch {n m : Nat} (hn : n ≤ m) :
    Abreast P P.SameStmt (fun _ => .broken) (.seen .kung) (branch body n) (branch body' m) := by
  apply abreast_peek_again
  intro _ position position' placed
  apply abreast_advance_bind (by simp [Inner, Final])
  apply (alongside_noAlternative placed).bind
  intro _ _ _
  apply Abreast.weaken (show Stage.inline.le .loose = true from rfl)
  apply (abreast_condition lines hn).bind
  intro test test' ht
  apply hb.bind
  intro chosen chosen' hc
  have rest (ended : Bool) : Abreast P P.SameStmt (fun _ => .broken) (behind ended)
      (alternatives body ended n >>= fun more => endUnless more.ended >>= fun _ =>
        pure (.branch test chosen more.others more.otherwise))
      (alternatives body' ended m >>= fun more => endUnless more.ended >>= fun _ =>
        pure (.branch test' chosen' more.others more.otherwise)) := by
    apply (abreast_alternatives lines hb hn ended).bind
    intro more more' same
    rw [same.ended]
    apply (abreast_endUnless lines more.ended).bind
    intro _ _ _
    exact .done (.branch ht hc same.others same.otherwise) rfl
  exact abreast_skip_bind lines (rest false) (rest true)

theorem abreast_loop {n m : Nat} (hn : n ≤ m) :
    Abreast P P.SameStmt (fun _ => .broken) (.seen .alang) (loop body n) (loop body' m) := by
  apply abreast_advance_bind (by simp [Inner, Final])
  apply (alongside_expect (by simp [Inner, Final]) _).bind
  intro _ _ _
  apply (alongside_expect (by simp [Inner, Final]) _).bind
  intro _ _ _
  apply (alongside_expression P hn).bind
  intro first first' hs
  apply (alongside_expect (by simp [Inner, Final]) _).bind
  intro _ _ _
  apply (alongside_expression P hn).bind
  intro test test' ht
  apply (alongside_demand ht _).bind
  intro _ _ _
  apply (alongside_expect (by simp [Inner, Final]) _).bind
  intro _ _ _
  apply (alongside_expression P hn).bind
  intro step step' hu
  apply (alongside_expect (by simp [Inner, Final]) _).bind
  intro _ _ _
  apply abreast_skip_any lines
  apply hb.bind
  intro repeated repeated' hr
  apply (abreast_endStatement lines).bind
  intro _ _ _
  exact .done (.loop hs ht hu hr) rfl

end

/-- A larger bound reads the same statement. -/
theorem abreast_statement {n m : Nat} (hn : n ≤ m) (kind : Token.Kind) :
    Abreast P P.SameStmt (fun _ => .broken) (.seen kind) (statement n) (statement m) := by
  induction n generalizing m kind with
  | zero => exact .starve
  | succ n ih =>
      cases m with
      | zero => cases hn
      | succ m =>
          have hn := Nat.le_of_succ_le_succ hn
          have body := abreast_block lines (ih hn) hn
          apply abreast_peek_again
          intro _ _ _ _
          cases kind with
          | mugna => exact abreast_declaration lines hn
          | dawat => exact abreast_input lines hn
          | ipakita => exact abreast_output lines hn
          | kung => exact abreast_branch lines body hn
          | alang => exact abreast_loop lines body hn
          | pundok =>
              apply (Abreast.weaken rfl body).bind
              intro inner inner' same
              apply (abreast_endStatement lines).bind
              intro _ _ _
              exact .done (.block same) rfl
          | _ =>
              apply (Abreast.weaken rfl (alongside_expression P hn)).bind
              intro e e' same
              apply (abreast_endStatement lines).bind
              intro _ _ _
              exact .done (.expr same) rfl

/-! Whole programs, for texts that end and are closed together. -/

omit lines in
theorem alongside_opening (mode : Mode) :
    Alongside P (fun a b => b = a) (opening mode) (opening mode) := by
  cases mode with
  | program =>
      apply (alongside_expect (by simp [Inner, Final]) _).bind
      intro _ _ _
      exact .done rfl rfl
  | repl => exact alongside_accept (by simp [Inner, Final])

omit lines in
theorem alongside_closing (unframed : ¬P.framed) (framed : Bool) :
    Alongside P (fun _ _ => True) (closing framed) (closing framed) := by
  cases framed with
  | true =>
      apply abreast_peek_bind
      · intro kind _ _ _ _
        dsimp only
        split
        · rename_i closes
          rw [closes]
          exact .forward (by simp) (by simp) (.done trivial rfl)
        · exact .weaken rfl (.unexpected _)
      · exact fun framed => absurd framed unframed
  | false =>
      apply abreast_peek_bind
      · intro kind _ _ _ _
        simp only [Parse.bind]
        split
        · rename_i closes
          rw [closes]
          exact .forward (by simp) (by simp) (.done trivial rfl)
        · exact .done trivial rfl
      · exact fun framed => absurd framed unframed

theorem alongside_ending (unframed : ¬P.framed) (unspent : ¬P.spent) :
    Alongside P (fun _ _ => True) ending ending := by
  apply abreast_skip_any lines
  apply Abreast.onward
  · apply abreast_peek_bind
    · intro kind _ _ _ _
      dsimp only
      split
      · exact .done trivial rfl
      · exact .weaken rfl (.unexpected _)
    · exact fun framed => absurd framed unframed
  · exact fun spent => absurd spent unspent

/-- A larger bound reads the same program. -/
theorem abreast_program (unframed : ¬P.framed) (unspent : ¬P.spent) (mode : Mode) {n m : Nat}
    (hn : n ≤ m) : Alongside P P.SameBody (program mode n) (program mode m) := by
  apply abreast_skip_any lines
  apply Abreast.onward
  · apply (alongside_opening mode).bind
    rintro _ framed rfl
    apply Abreast.weaken (show Stage.inline.le .broken = true from rfl)
    apply (abreast_statements lines (abreast_statement lines hn) hn unspent).bind
    intro body body' same
    apply (alongside_closing unframed framed).bind
    intro _ _ _
    apply (alongside_ending lines unframed unspent).bind
    intro _ _ _
    exact .done same rfl
  · exact fun spent => absurd spent unspent

end

end Sulti.Grammar
