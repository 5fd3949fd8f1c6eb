import Sulti.Proofs.Grammar.Abreast

/-!
Expressions side by side. An expression stays on its line, needs a token to begin
with, and has no operator that ends a program. A larger bound on repetition and
nesting reads the same expression.
-/

namespace Sulti.Grammar

variable {P : Pairing}

theorem alongside_demand {e e' : Expr} (h : P.SameExpr e e') (expected : Ty) :
    Alongside P (fun a b => b = a) (demand expected e) (demand expected e') := by
  unfold demand
  rw [h.ty]
  exact alongside_checked h.position _

theorem alongside_demandNumeric {e e' : Expr} (h : P.SameExpr e e') :
    Alongside P (fun a b => b = a) (demandNumeric e) (demandNumeric e') := by
  unfold demandNumeric
  rw [h.ty]
  exact alongside_checked h.position _

theorem alongside_bareName (single : Bool) {target target' : Expr}
    (h : P.SameExpr target target') {position position' : Position}
    (placed : P.place position position') :
    Alongside P (fun a b => b = a) (bareName single target position)
      (bareName single target' position') := by
  have other : Alongside P (fun a b : String => b = a) (reject position .invalidTarget)
      (reject position' .invalidTarget) := .reject placed (by simp)
  cases single with
  | false => exact other
  | true =>
      cases h with
      | var own => exact .done rfl rfl
      | _ => exact other

theorem alongside_increment (single : Bool) {target target' : Expr}
    (h : P.SameExpr target target') (a : Arith) {position position' : Position}
    (placed : P.place position position') :
    Alongside P P.SameExpr (increment single target a position)
      (increment single target' a position') := by
  apply (alongside_bareName single h placed).bind
  rintro _ name rfl
  apply (alongside_demandNumeric h).bind
  intro _ _ _
  exact .done (.assign h.note (.binary h.note h (Expr.related_ofLiteral _ placed))) rfl

theorem alongside_signed (a : Arith) {operand operand' : Expr} (h : P.SameExpr operand operand')
    {position position' : Position} (placed : P.place position position') :
    Alongside P P.SameExpr (signed a operand position) (signed a operand' position') := by
  apply (alongside_demandNumeric h).bind
  intro _ _ _
  rw [h.ty]
  exact .done (.binary ⟨rfl, placed⟩ (Expr.related_ofLiteral _ placed) h) rfl

theorem halts_primary {final : Token.Kind} (h : Final final) (ex : Parse Expr) :
    Halts final (primary ex) := by
  apply halts_peek_bind
  intro t ht
  rcases h with rfl | rfl
  · rw [ht]
    exact .unexpected
  · rw [ht]
    exact .unexpected

theorem alongside_primary {ex ex' : Parse Expr} (h : Alongside P P.SameExpr ex ex') :
    Alongside P P.SameExpr (primary ex) (primary ex') := by
  apply abreast_peek_bind
  · intro kind lexeme position position' placed
    have literal (l : Literal) (inner : Inner kind) : Abreast P P.SameExpr (fun _ => .inline)
        (.seen kind) (advance >>= fun _ => pure (Expr.ofLiteral l position))
        (advance >>= fun _ => pure (Expr.ofLiteral l position')) :=
      abreast_advance_bind inner (.done (Expr.related_ofLiteral l placed) rfl)
    cases kind with
    | identifier name =>
        apply abreast_advance_bind (by simp [Inner, Final])
        apply abreast_names_bind
        intro table
        cases hv : table.find? name with
        | some ty => exact .done (.var ⟨rfl, placed⟩) rfl
        | none => exact .reject placed (by simp)
    | leftParen =>
        apply abreast_advance_bind (by simp [Inner, Final])
        apply h.bind
        intro e e' same
        apply (alongside_expect (by simp [Inner, Final]) _).bind
        intro _ _ _
        exact .done same rfl
    | newline => exact .done (.blank ⟨rfl, placed⟩) rfl
    | int n => exact literal (.numero n) (by simp [Inner, Final])
    | real x => exact literal (.tipik x) (by simp [Inner, Final])
    | char c => exact literal (.letra c) (by simp [Inner, Final])
    | escaped c => exact literal (.letra c) (by simp [Inner, Final])
    | carriageReturn => exact literal (.letra '\n') (by simp [Inner, Final])
    | string text => exact literal (.text text) (by simp [Inner, Final])
    | bool b => exact literal (.tinuod b) (by simp [Inner, Final])
    | _ => exact .weaken rfl (.unexpected _)
  · intro _ first second hf hs
    exact .failed (halts_primary hf ex) (halts_primary hs ex')

theorem alongside_postfixed {ex ex' : Parse Expr} (h : Alongside P.inline P.SameExpr ex ex') :
    Alongside P P.SameExpr (postfixed ex) (postfixed ex') := by
  apply abreast_measured_bind (alongside_primary h)
  intro e e' single same
  apply abreast_peek_bind
  · intro kind lexeme position position' placed
    cases kind with
    | plusPlus =>
        apply abreast_advance_bind (by simp [Inner, Final])
        exact alongside_increment single same .add placed
    | minusMinus =>
        apply abreast_advance_bind (by simp [Inner, Final])
        exact alongside_increment single same .sub placed
    | _ => exact .done same rfl
  · intro _ first second h h'
    apply abreast_peek_ended
    rintro ⟨kind, lexeme, position⟩ ⟨kind', lexeme', position'⟩ rfl rfl
    rcases h with rfl | rfl <;> rcases h' with rfl | rfl <;> exact .done same rfl

theorem Op.inner_of_ofKind? {kind : Token.Kind} {op : Op} (h : Op.ofKind? kind = some op) :
    Inner kind := by
  constructor
  · rintro rfl
    cases h
  · rintro (rfl | rfl) <;> cases h

theorem alongside_chain {level : Op.Level} {operand operand' : Parse Expr}
    (h : Alongside P P.SameExpr operand operand') {n m : Nat} (hn : n ≤ m) {left left' : Expr}
    (same : P.SameExpr left left') :
    Alongside P P.SameExpr (chain level operand n left) (chain level operand' m left') := by
  induction n generalizing m left left' with
  | zero => exact .starve
  | succ n ih =>
      cases m with
      | zero => cases hn
      | succ m =>
          apply abreast_peek_bind
          · intro kind _ position position' placed
            dsimp only
            cases hop : Op.ofKind? kind with
            | none => exact .done same rfl
            | some op =>
                dsimp only
                split
                · apply abreast_advance_bind (Op.inner_of_ofKind? hop)
                  apply h.bind
                  intro right right' hr
                  rw [same.ty, hr.ty]
                  apply (alongside_checked placed _).bind
                  rintro _ ty rfl
                  exact ih (Nat.le_of_succ_le_succ hn) (.binary ⟨rfl, same.position⟩ same hr)
                · exact .done same rfl
          · intro _ first second hf hs
            apply abreast_peek_ended
            intro t u ht hu
            have none {kind : Token.Kind} (final : Final kind) : Op.ofKind? kind = none := by
              rcases final with rfl | rfl <;> rfl
            rw [ht, hu, none hf, none hs]
            exact .done same rfl

theorem alongside_operation {operand operand' : Parse Expr}
    (h : Alongside P P.SameExpr operand operand') {n m : Nat} (hn : n ≤ m) :
    Alongside P P.SameExpr (operation operand n) (operation operand' m) := by
  have level {l : Op.Level} {p q : Parse Expr} (h : Alongside P P.SameExpr p q) :
      Alongside P P.SameExpr (leftAssociative l p n) (leftAssociative l q m) :=
    h.bind fun _ _ same => alongside_chain h hn same
  exact level (level (level (level h)))

theorem alongside_assignment {operand operand' : Parse Expr}
    (h : Alongside P.inline P.SameExpr operand operand') {n m : Nat} (hn : n ≤ m) :
    Alongside P P.SameExpr (assignment operand n) (assignment operand' m) := by
  induction n generalizing m with
  | zero => exact .starve
  | succ n ih =>
      cases m with
      | zero => cases hn
      | succ m =>
          apply abreast_measured_bind (alongside_operation h hn)
          intro target target' single same
          apply abreast_peek_bind
          · intro kind _ position position' placed
            dsimp only
            split
            · rename_i found
              rw [found]
              apply abreast_advance_bind (by simp [Inner, Final])
              apply (alongside_bareName single same placed).bind
              rintro _ name rfl
              apply (ih (Nat.le_of_succ_le_succ hn)).bind
              intro value value' hv
              rw [same.ty]
              apply (alongside_demand hv _).bind
              intro _ _ _
              exact .done (.assign same.note hv) rfl
            · exact .done same rfl
          · intro _ first second hf hs
            apply abreast_peek_ended
            intro t u ht hu
            have other {kind : Token.Kind} (final : Final kind) : kind ≠ .equal := by
              rintro rfl
              rcases final with h | h <;> cases h
            rw [if_neg (ht ▸ other hf), if_neg (hu ▸ other hs)]
            exact .done same rfl

theorem halts_postfixed {final : Token.Kind} (h : Final final) (ex : Parse Expr) :
    Halts final (postfixed ex) := .measure (halts_primary h ex)

theorem halts_unary {final : Token.Kind} (h : Final final) (n : Nat) : Halts final (unary n) := by
  cases n with
  | zero => exact .starve
  | succ n =>
      apply halts_peek_bind
      intro t ht
      rw [ht]
      rcases h with rfl | rfl
      · exact halts_postfixed (.inl rfl) _
      · exact halts_postfixed (.inr rfl) _

theorem alongside_unary (P : Pairing) {n m : Nat} (hn : n ≤ m) :
    Alongside P P.SameExpr (unary n) (unary m) := by
  induction n generalizing m P with
  | zero => exact .starve
  | succ n ih =>
      cases m with
      | zero => cases hn
      | succ m =>
          have hn := Nat.le_of_succ_le_succ hn
          have operand := ih P hn
          apply abreast_peek_bind
          · intro kind lexeme position position' placed
            cases kind with
            | dili =>
                apply abreast_advance_bind (by simp [Inner, Final])
                apply operand.bind
                intro e e' same
                apply (alongside_demand same _).bind
                intro _ _ _
                exact .done (.not ⟨same.ty, placed⟩ same) rfl
            | plus =>
                apply abreast_advance_bind (by simp [Inner, Final])
                exact operand.bind fun e e' same => alongside_signed .add same placed
            | minus =>
                apply abreast_advance_bind (by simp [Inner, Final])
                exact operand.bind fun e e' same => alongside_signed .sub same placed
            | plusPlus =>
                apply abreast_advance_bind (by simp [Inner, Final])
                apply abreast_measured_bind (ih P.inline hn)
                intro e e' single same
                exact alongside_increment single same .add placed
            | _ =>
                have inner := alongside_assignment (P := P.inline) (ih P.inline hn) hn
                exact .weaken rfl (alongside_postfixed inner)
          · intro _ first second hf hs
            exact .failed (halts_unary hf (n + 1)) (halts_unary hs (m + 1))

/-- A larger bound reads the same expression. -/
theorem alongside_expression (P : Pairing) {n m : Nat} (hn : n ≤ m) :
    Alongside P P.SameExpr (expression n) (expression m) :=
  alongside_assignment (alongside_unary P.inline hn) hn

theorem halts_expression {final : Token.Kind} (h : Final final) (n : Nat) :
    Halts final (expression n) := by
  cases n with
  | zero => exact .starve
  | succ n =>
      have operand := halts_unary h (n + 1)
      exact .measure ((((operand.bind _).bind _).bind _).bind _)

end Sulti.Grammar
