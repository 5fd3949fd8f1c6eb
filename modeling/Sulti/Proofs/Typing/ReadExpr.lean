import Sulti.Proofs.Grammar.Outcome
import Sulti.Proofs.Typing.Rules

/-!
Every expression that is read is typed and from one line, or it is the blank
that stands for the rest of a line. A blank leaves the line break where it is,
so that no operator and no parenthesis can follow it, and no operator takes it
on its right.
-/

namespace Sulti.Grammar

/-- From `c` to `d` no line break is used up and no name is declared. -/
structure Cursor.Inline (c d : Cursor) : Prop where
  table : d.table = c.table
  used : ∃ used, c.ahead = used ++ d.ahead ∧ ∀ token ∈ used, token.kind ≠ .newline

namespace Cursor.Inline

theorem refl (c : Cursor) : c.Inline c := ⟨rfl, [], rfl, by simp⟩

theorem trans {c d e : Cursor} (first : c.Inline d) (second : d.Inline e) : c.Inline e := by
  obtain ⟨used, hc, hused⟩ := first.used
  obtain ⟨more, hd, hmore⟩ := second.used
  refine ⟨second.table.trans first.table, used ++ more, ?_, ?_⟩
  · rw [hc, hd, List.append_assoc]
  · intro token member
    rcases List.mem_append.mp member with h | h
    · exact hused token h
    · exact hmore token h

theorem forward {c : Cursor} (h : c.next.kind ≠ .newline) : c.Inline c.forward := by
  refine ⟨rfl, ?_⟩
  match ha : c.ahead with
  | [] => exact ⟨[], by simp [Cursor.forward, ha], by simp⟩
  | token :: rest =>
      refine ⟨[token], by simp [Cursor.forward, ha], ?_⟩
      simpa [Cursor.next, ha] using h

theorem typed_iff {c d : Cursor} (h : c.Inline d) {e : Expr} :
    e.Typed d.table ↔ e.Typed c.table := by
  rw [h.table]

theorem allDeclarable {c d : Cursor} (h : c.Inline d) (hc : c.table.AllDeclarable) :
    d.table.AllDeclarable := by
  rw [h.table]
  exact hc

end Cursor.Inline

/-- What an expression that is read is: typed and from one line, or blank. -/
inductive ReadsExpr (c : Cursor) : Expr → Cursor → Prop where
  | typed {e : Expr} {d : Cursor} (typed : e.Typed c.table) (inline : c.Inline d) : ReadsExpr c e d
  | blank (newline : c.next.kind = .newline) : ReadsExpr c (.blank ⟨.empty, c.next.position⟩) c

/-- A reader of expressions that follow the rules. -/
def Reader (p : Parse Expr) : Prop :=
  ∀ c : Cursor, c.table.AllDeclarable → Yields p c (ReadsExpr c)

/-- An expression with a type is no blank. -/
theorem ReadsExpr.of_ne_empty {c d : Cursor} {e : Expr} (h : ReadsExpr c e d)
    (hty : e.ty ≠ .empty) : e.Typed c.table ∧ c.Inline d := by
  cases h with
  | typed typed inline => exact ⟨typed, inline⟩
  | blank newline => exact absurd rfl hty

/-- An expression is no blank if something else than a line break follows. -/
theorem ReadsExpr.of_next {c d : Cursor} {e : Expr} (h : ReadsExpr c e d)
    (hd : d.next.kind ≠ .newline) : e.Typed c.table ∧ c.Inline d := by
  cases h with
  | typed typed inline => exact ⟨typed, inline⟩
  | blank newline => exact absurd newline hd

/-- An expression that may stand for something declared is no blank. -/
theorem ReadsExpr.of_compatible {c d : Cursor} {e : Expr} (h : ReadsExpr c e d) {ty : Ty}
    (hty : ty ≠ .empty) (fits : ty.compatible e.ty = true) : e.Typed c.table ∧ c.Inline d := by
  refine h.of_ne_empty fun he => ?_
  rw [he, Ty.not_compatible_empty hty] at fits
  cases fits

theorem ne_empty_of_isNumeric {ty : Ty} (h : ty.isNumeric = true) : ty ≠ .empty := by
  rintro rfl
  cases h

theorem yields_bareName {c : Cursor} {single : Bool} {target : Expr} {position : Position}
    {Q : String → Cursor → Prop} (h : ∀ note name, target = .var note name → Q name c) :
    Yields (bareName single target position) c Q := by
  unfold bareName
  split
  · exact yields_pure (h _ _ rfl)
  · exact yields_reject

/-- The node that a numeric variable makes with the integer one has the type of
the variable. -/
theorem types_increment {ty : Ty} (h : ty.isNumeric = true) (a : Arith) :
    (Op.arith a).Types ty .numero ty := by
  cases ty with
  | numero => exact .integers a
  | tipik => exact .realLeft a rfl
  | _ => cases h

theorem yields_increment {c : Cursor} {single : Bool} {target : Expr} {a : Arith}
    {position : Position} (typed : target.ty.isNumeric = true → target.Typed c.table) :
    Yields (increment single target a position) c fun e d =>
      target.ty.isNumeric = true ∧ e.Typed c.table ∧ d = c := by
  refine Yields.bind (yields_bareName fun note name ht => ?_)
  subst ht
  refine Yields.bind (yields_demandNumeric fun numeric => yields_pure ⟨numeric, ?_, rfl⟩)
  have found : c.table.find? name = some note.ty := by
    cases typed numeric with
    | var found => exact found
  have one : (Expr.ofLiteral (.numero .one) position).Typed c.table := .literal rfl
  refine .assign found (.binary (typed numeric) one (types_increment numeric a)) ?_
  simp [Expr.ty, Expr.note, Ty.compatible]

theorem yields_signed {c : Cursor} {a : Arith} {operand : Expr} {position : Position}
    (typed : operand.ty.isNumeric = true → operand.Typed c.table) :
    Yields (signed a operand position) c fun e d =>
      operand.ty.isNumeric = true ∧ e.Typed c.table ∧ d = c := by
  refine Yields.bind (yields_demandNumeric fun numeric => yields_pure ⟨numeric, ?_, rfl⟩)
  refine .binary (.literal rfl) (typed numeric) ?_
  change (Op.arith a).Types (Literal.ty _) operand.ty operand.ty
  cases hty : operand.ty with
  | numero => exact .integers a
  | tipik => exact .realLeft a rfl
  | _ =>
      rw [hty] at numeric
      cases numeric

/-- Behind a sign or an increment sign only a number goes on, so a blank does not. -/
theorem ReadsExpr.yields_numeric {b c d : Cursor} {operand : Expr} {p : Parse Expr}
    (h : ReadsExpr c operand d) (passed : b.Inline c)
    (hp : (operand.ty.isNumeric = true → operand.Typed d.table) →
      Yields p d fun e d' => operand.ty.isNumeric = true ∧ e.Typed d.table ∧ d' = d) :
    Yields p d (ReadsExpr b) := by
  have number (numeric : operand.ty.isNumeric = true) : operand.Typed c.table ∧ c.Inline d :=
    h.of_ne_empty (ne_empty_of_isNumeric numeric)
  have typed (numeric : operand.ty.isNumeric = true) : operand.Typed d.table :=
    (number numeric).2.typed_iff.mpr (number numeric).1
  refine (hp typed).mono ?_
  rintro e d' ⟨numeric, he, rfl⟩
  have whole : b.Inline d' := passed.trans (number numeric).2
  exact .typed (whole.typed_iff.mp he) whole

theorem reader_primary {expression : Parse Expr} (h : Reader expression) :
    Reader (primary expression) := by
  intro c hc
  refine yields_peek_bind ?_
  split
  · rename_i name hk
    refine yields_advance_bind (yields_names_bind ?_)
    split
    · rename_i ty found
      exact yields_pure (.typed (.var found) (.forward (by simp [hk])))
    · exact yields_reject
  · rename_i hk
    refine yields_advance_bind (Yields.bind ((h c.forward hc).mono fun e d he => ?_))
    refine Yields.bind (yields_expect fun hr => yields_pure ?_)
    -- A blank in parentheses would have a line break where the closing one is.
    obtain ⟨typed, inline⟩ := he.of_next (by simp [hr])
    have opened : c.Inline c.forward := .forward (by simp [hk])
    exact .typed typed ((opened.trans inline).trans (.forward (by simp [hr])))
  · rename_i hk
    exact yields_pure (.blank hk)
  · rename_i kind hi hp hn
    split
    · exact yields_advance_bind (yields_pure (.typed (.literal rfl) (.forward hn)))
    · exact yields_unexpected

/-- An operator behind a blank is never met. -/
theorem reader_postfixed {expression : Parse Expr} (h : Reader expression) :
    Reader (postfixed expression) := by
  intro c hc
  refine yields_measured_bind ((reader_primary h c hc).mono fun e d he => ?_)
  refine yields_peek_bind ?_
  have step (a : Arith) (hk : d.next.kind ≠ .newline) (position : Position) :
      Yields (increment (d.isOnePast c) e a position) d.forward (ReadsExpr c) := by
    obtain ⟨typed, inline⟩ := he.of_next hk
    have passed : c.Inline d.forward := inline.trans (.forward hk)
    refine (yields_increment fun _ => passed.typed_iff.mpr typed).mono ?_
    rintro e' d' ⟨_, ht, rfl⟩
    exact .typed (passed.typed_iff.mp ht) passed
  split
  · rename_i hk
    exact yields_advance_bind (step .add (by simp [hk]) _)
  · rename_i hk
    exact yields_advance_bind (step .sub (by simp [hk]) _)
  · exact yields_pure he

/-- Between typed operands only typed operations arise. -/
theorem yields_chain {level : Op.Level} {operand : Parse Expr} (ho : Reader operand) (fuel : Nat)
    (c : Cursor) (hc : c.table.AllDeclarable) (left : Expr) (hl : left.Typed c.table) :
    Yields (chain level operand fuel left) c fun e d => e.Typed c.table ∧ c.Inline d := by
  induction fuel generalizing c left with
  | zero => exact yields_starve
  | succ fuel ih =>
      refine yields_peek_bind ?_
      split
      · rename_i op hop
        split
        · have hk : c.next.kind ≠ .newline := by
            intro hn
            rw [hn] at hop
            cases hop
          refine yields_advance_bind (Yields.bind ((ho c.forward hc).mono fun right d hr => ?_))
          refine Yields.bind (yields_checked fun ty hty => ?_)
          have types := Op.types_of_result hty
          obtain ⟨typed, inline⟩ := hr.of_ne_empty (types.right_ne_empty (hl.ty_ne_empty hc))
          have passed : c.Inline d := (Cursor.Inline.forward hk).trans inline
          have whole : (Expr.binary ⟨ty, left.position⟩ op left right).Typed c.table :=
            .binary hl typed types
          refine (ih d (passed.allDeclarable hc) _ (passed.typed_iff.mpr whole)).mono ?_
          rintro e d' ⟨he, rest⟩
          exact ⟨passed.typed_iff.mp he, passed.trans rest⟩
        · exact yields_pure ⟨hl, .refl c⟩
      · exact yields_pure ⟨hl, .refl c⟩

theorem yields_chain_newline {level : Op.Level} {operand : Parse Expr} (fuel : Nat) {c : Cursor}
    (hn : c.next.kind = .newline) (left : Expr) :
    Yields (chain level operand fuel left) c fun e d => e = left ∧ d = c := by
  cases fuel with
  | zero => exact yields_starve
  | succ fuel =>
      refine yields_peek_bind ?_
      rw [hn]
      exact yields_pure ⟨rfl, rfl⟩

theorem reader_leftAssociative {level : Op.Level} {operand : Parse Expr} (ho : Reader operand)
    (fuel : Nat) : Reader (leftAssociative level operand fuel) := by
  intro c hc
  refine Yields.bind ((ho c hc).mono fun first d hf => ?_)
  cases hf with
  | typed typed inline =>
      refine (yields_chain ho fuel d (inline.allDeclarable hc) first
        (inline.typed_iff.mpr typed)).mono ?_
      rintro e d' ⟨he, rest⟩
      exact .typed (inline.typed_iff.mp he) (inline.trans rest)
  | blank newline =>
      refine (yields_chain_newline fuel newline _).mono ?_
      rintro e d' ⟨rfl, rfl⟩
      exact .blank newline

theorem reader_operation {unary : Parse Expr} (hu : Reader unary) (fuel : Nat) :
    Reader (operation unary fuel) :=
  reader_leftAssociative (reader_leftAssociative (reader_leftAssociative
    (reader_leftAssociative hu fuel) fuel) fuel) fuel

theorem reader_assignment {unary : Parse Expr} (hu : Reader unary) (fuel : Nat) :
    Reader (assignment unary fuel) := by
  induction fuel with
  | zero => exact fun c _ => yields_starve
  | succ fuel ih =>
      intro c hc
      refine yields_measured_bind ((reader_operation hu (fuel + 1) c hc).mono ?_)
      intro target d ht
      refine yields_peek_bind ?_
      split
      · rename_i hk
        have hn : d.next.kind ≠ .newline := by simp [hk]
        obtain ⟨typed, inline⟩ := ht.of_next hn
        have passed : c.Inline d.forward := inline.trans (.forward hn)
        refine yields_advance_bind (Yields.bind (yields_bareName fun note name hv => ?_))
        subst hv
        have found : c.table.find? name = some note.ty := by
          cases typed with
          | var found => exact found
        refine Yields.bind ((ih d.forward (passed.allDeclarable hc)).mono fun value d' hvalue => ?_)
        refine Yields.bind (yields_demand fun fits => yields_pure ?_)
        obtain ⟨tvalue, rest⟩ := hvalue.of_compatible (typed.ty_ne_empty hc) fits
        exact .typed (.assign found (passed.typed_iff.mp tvalue) fits) (passed.trans rest)
      · exact yields_pure ht

theorem reader_unary (fuel : Nat) : Reader (unary fuel) := by
  induction fuel with
  | zero => exact fun c _ => yields_starve
  | succ fuel ih =>
      intro c hc
      refine yields_peek_bind ?_
      split
      · rename_i hk
        refine yields_advance_bind (Yields.bind ((ih c.forward hc).mono fun operand d ho => ?_))
        refine Yields.bind (yields_demand fun fits => yields_pure ?_)
        obtain ⟨typed, inline⟩ := ho.of_compatible (nofun : Ty.tinuod ≠ .empty) fits
        have truth := Ty.eq_tinuod_of_compatible fits
        have passed : c.Inline d := (Cursor.Inline.forward (by simp [hk])).trans inline
        exact .typed (.not typed truth truth) passed
      · rename_i hk
        refine yields_advance_bind (Yields.bind ((ih c.forward hc).mono fun operand d ho => ?_))
        exact ho.yields_numeric (.forward (by simp [hk])) yields_signed
      · rename_i hk
        refine yields_advance_bind (Yields.bind ((ih c.forward hc).mono fun operand d ho => ?_))
        exact ho.yields_numeric (.forward (by simp [hk])) yields_signed
      · rename_i hk
        refine yields_advance_bind ?_
        refine yields_measured_bind ((ih c.forward hc).mono fun target d ht => ?_)
        exact ht.yields_numeric (.forward (by simp [hk])) yields_increment
      · exact reader_postfixed (reader_assignment ih fuel) c hc

theorem reader_expression (fuel : Nat) : Reader (expression fuel) :=
  reader_assignment (reader_unary fuel) fuel

end Sulti.Grammar
