import Sulti.Proofs.Table
import Sulti.Stmt

/-!
The static rules of Bisaya++, for trees and without reference to how a tree is
read. One flat table goes through a program in the order of its text: a name
has to be in it where it is used and must not be in it where it is declared,
and a declaration adds its names one by one, each behind the expression it
starts from. An expression carries the type that the rules give it.

A blank has no rule of its own. It may only be the last thing that is printed.
-/

namespace Sulti

/-- What an operator takes and what it gives. Arithmetic on two integers gives
an integer and a real as soon as one side is real. -/
inductive Op.Types : Op → Ty → Ty → Ty → Prop where
  | integers (a : Arith) : Types (.arith a) .numero .numero .numero
  | realLeft (a : Arith) {right : Ty} (hr : right.isNumeric = true) :
      Types (.arith a) .tipik right .tipik
  | realRight (a : Arith) {left : Ty} (hl : left.isNumeric = true) :
      Types (.arith a) left .tipik .tipik
  | numbers (o : Order) {left right : Ty} (hl : left.isNumeric = true)
      (hr : right.isNumeric = true) : Types (.order o) left right .tinuod
  | letters (o : Order) : Types (.order o) .letra .letra .tinuod
  | eq {left right : Ty} (h : left.compatible right = true) : Types .eq left right .tinuod
  | ne {left right : Ty} (h : left.compatible right = true) : Types .ne left right .tinuod
  | and : Types .and .tinuod .tinuod .tinuod
  | or : Types .or .tinuod .tinuod .tinuod

/-- The rules for an expression that is really there. -/
inductive Expr.Typed (table : Table Ty) : Expr → Prop where
  | assign {note : Note} {name : String} {value : Expr}
      (found : table.find? name = some note.ty) (typed : value.Typed table)
      (fits : note.ty.compatible value.ty = true) : Typed table (.assign note name value)
  | binary {note : Note} {op : Op} {left right : Expr} (hl : left.Typed table)
      (hr : right.Typed table) (types : op.Types left.ty right.ty note.ty) :
      Typed table (.binary note op left right)
  | not {note : Note} {operand : Expr} (typed : operand.Typed table)
      (truth : operand.ty = .tinuod) (own : note.ty = .tinuod) : Typed table (.not note operand)
  | var {note : Note} {name : String} (found : table.find? name = some note.ty) :
      Typed table (.var note name)
  | literal {note : Note} {value : Literal} (own : note.ty = value.ty) :
      Typed table (.literal note value)

/-- What statements are made of, as far as it is run or typed in one go. -/
inductive Phrase where
  | expr (e : Expr)
  /-- An expression that decides what is run next. -/
  | condition (e : Expr)
  /-- Variables of one type that are declared one after another. -/
  | bindings (ty : Ty) (bindings : List (String × Option Expr))
  /-- What is printed one after another. -/
  | items (items : List Expr)
  | stmt (s : Stmt)
  | stmts (body : List Stmt)
  /-- The alternatives of a condition, of which the first that holds is run. -/
  | arms (others : List (Expr × List Stmt))
  | otherwise (body : Option (List Stmt))
  /-- The passes of a loop whose start is behind it. -/
  | passes (condition step : Expr) (body : List Stmt)

/-- The rules for everything but a lone expression: the table `before` the phrase
becomes the table behind it. -/
inductive Phrase.Typed : Table Ty → Phrase → Table Ty → Prop where
  | condition {table : Table Ty} {e : Expr} (typed : e.Typed table) (truth : e.ty = .tinuod) :
      Typed table (.condition e) table
  | bindingsNil {table : Table Ty} {ty : Ty} : Typed table (.bindings ty []) table
  | bindingsPlain {before after : Table Ty} {ty : Ty} {name : String}
      {rest : List (String × Option Expr)} (declarable : ty.Declarable)
      (fresh : before.find? name = none)
      (others : Typed (before.insert name ty) (.bindings ty rest) after) :
      Typed before (.bindings ty ((name, none) :: rest)) after
  | bindingsStart {before after : Table Ty} {ty : Ty} {name : String} {start : Expr}
      {rest : List (String × Option Expr)} (declarable : ty.Declarable)
      (fresh : before.find? name = none) (typed : start.Typed before)
      (fits : ty.compatible start.ty = true)
      (others : Typed (before.insert name ty) (.bindings ty rest) after) :
      Typed before (.bindings ty ((name, some start) :: rest)) after
  | itemsNil {table : Table Ty} : Typed table (.items []) table
  | itemsBlank {table : Table Ty} {position : Position} :
      Typed table (.items [.blank ⟨.empty, position⟩]) table
  | itemsCons {table : Table Ty} {item : Expr} {rest : List Expr} (typed : item.Typed table)
      (others : Typed table (.items rest) table) : Typed table (.items (item :: rest)) table
  | declare {before after : Table Ty} {ty : Ty} {bindings : List (String × Option Expr)}
      (nonempty : bindings ≠ [])
      (typed : Typed before (.bindings ty bindings) after) :
      Typed before (.stmt (.declare ty bindings)) after
  | read {table : Table Ty} {position : Position} {targets : List String} (nonempty : targets ≠ [])
      (declared : ∀ name ∈ targets, table.contains name = true) :
      Typed table (.stmt (.read position targets)) table
  | print {table : Table Ty} {items : List Expr} (nonempty : items ≠ [])
      (typed : Typed table (.items items) table) : Typed table (.stmt (.print items)) table
  | branch {before first second after : Table Ty} {test : Expr} {body : List Stmt}
      {others : List (Expr × List Stmt)} {last : Option (List Stmt)}
      (head : Typed before (.condition test) before) (chosen : Typed before (.stmts body) first)
      (alternatives : Typed first (.arms others) second)
      (final : Typed second (.otherwise last) after) :
      Typed before (.stmt (.branch test body others last)) after
  | loop {before after : Table Ty} {start test step : Expr} {body : List Stmt}
      (typed : start.Typed before) (repeated : Typed before (.passes test step body) after) :
      Typed before (.stmt (.loop start test step body)) after
  | block {before after : Table Ty} {body : List Stmt} (typed : Typed before (.stmts body) after) :
      Typed before (.stmt (.block body)) after
  | expr {table : Table Ty} {e : Expr} (typed : e.Typed table) :
      Typed table (.stmt (.expr e)) table
  | stmtsNil {table : Table Ty} : Typed table (.stmts []) table
  | stmtsCons {before between after : Table Ty} {first : Stmt} {rest : List Stmt}
      (head : Typed before (.stmt first) between) (others : Typed between (.stmts rest) after) :
      Typed before (.stmts (first :: rest)) after
  | armsNil {table : Table Ty} : Typed table (.arms []) table
  | armsCons {before between after : Table Ty} {test : Expr} {body : List Stmt}
      {rest : List (Expr × List Stmt)} (head : Typed before (.condition test) before)
      (chosen : Typed before (.stmts body) between) (others : Typed between (.arms rest) after) :
      Typed before (.arms ((test, body) :: rest)) after
  | otherwiseNone {table : Table Ty} : Typed table (.otherwise none) table
  | otherwiseSome {before after : Table Ty} {body : List Stmt}
      (typed : Typed before (.stmts body) after) : Typed before (.otherwise (some body)) after
  -- The header of a loop stands before its body, so nothing the body declares is known in it.
  | passes {before after : Table Ty} {test step : Expr} {body : List Stmt}
      (head : Typed before (.condition test) before) (update : step.Typed before)
      (repeated : Typed before (.stmts body) after) :
      Typed before (.passes test step body) after

/-- A program that is well typed behind the names of `before`, and the names that
are declared behind it. -/
def Program.Typed (before : Table Ty) (program : Program) (after : Table Ty) : Prop :=
  Phrase.Typed before (.stmts program) after

/-! The operator rules, as they are computed where a node is made. -/

theorem Op.types_of_result {op : Op} {left right ty : Ty} (h : op.result left right = .ok ty) :
    op.Types left right ty := by
  cases op with
  | arith a =>
      cases left <;> cases right <;> cases h
      · exact .integers a
      · exact .realRight a rfl
      · exact .realLeft a rfl
      · exact .realLeft a rfl
  | order o =>
      cases left <;> cases right <;> cases h
      · exact .numbers o rfl rfl
      · exact .numbers o rfl rfl
      · exact .numbers o rfl rfl
      · exact .numbers o rfl rfl
      · exact .letters o
  | eq => cases left <;> cases right <;> cases h <;> exact .eq rfl
  | ne => cases left <;> cases right <;> cases h <;> exact .ne rfl
  | and =>
      cases left <;> cases right <;> cases h
      exact .and
  | or =>
      cases left <;> cases right <;> cases h
      exact .or

/-- No operator gives a blank. -/
theorem Op.Types.ne_empty {op : Op} {left right ty : Ty} (h : op.Types left right ty) :
    ty ≠ .empty := by
  cases h <;> exact nofun

/-- No operator takes a blank, except that two blanks can be compared. -/
theorem Op.Types.right_ne_empty {op : Op} {left right ty : Ty} (h : op.Types left right ty)
    (hl : left ≠ .empty) : right ≠ .empty := by
  rintro rfl
  cases h with
  | realLeft a hr => cases hr
  | numbers o _ hr => cases hr
  | eq h => exact absurd h (by simp [Ty.not_compatible_empty hl])
  | ne h => exact absurd h (by simp [Ty.not_compatible_empty hl])

namespace Expr.Typed

theorem mono {table larger : Table Ty} (h : table.Extends larger) {e : Expr}
    (typed : e.Typed table) : e.Typed larger := by
  induction typed with
  | assign found _ fits ih => exact .assign (h _ _ found) ih fits
  | binary _ _ types ihl ihr => exact .binary ihl ihr types
  | not _ truth own ih => exact .not ih truth own
  | var found => exact .var (h _ _ found)
  | literal own => exact .literal own

theorem ty_ne_empty {table : Table Ty} (h : table.AllDeclarable) {e : Expr}
    (typed : e.Typed table) : e.ty ≠ .empty := by
  have declared {name : String} {ty : Ty} (found : table.find? name = some ty) :
      ty ≠ .empty := by
    rintro rfl
    exact h _ _ found
  cases typed with
  | assign found _ _ => exact declared found
  | binary _ _ types => exact types.ne_empty
  | not _ _ own =>
      change _ = Ty.tinuod at own
      simp [Expr.ty, Expr.note, own]
  | var found => exact declared found
  | @literal note value own =>
      change note.ty ≠ .empty
      rw [own]
      cases value <;> exact nofun

end Expr.Typed

namespace Phrase.Typed

/-- Behind a phrase every name still has the type it had before. -/
theorem table_extends {before after : Table Ty} {phrase : Phrase}
    (typed : Phrase.Typed before phrase after) : before.Extends after := by
  induction typed with
  | bindingsPlain _ fresh _ ih => exact (Table.extends_insert fresh _).trans ih
  | bindingsStart _ fresh _ _ _ ih => exact (Table.extends_insert fresh _).trans ih
  | branch _ _ _ _ _ chosen alternatives final => exact (chosen.trans alternatives).trans final
  | stmtsCons _ _ head others => exact head.trans others
  | armsCons _ _ _ _ chosen others => exact chosen.trans others
  | declare _ _ ih => exact ih
  | loop _ _ ih => exact ih
  | block _ ih => exact ih
  | otherwiseSome _ ih => exact ih
  | passes _ _ _ _ ih => exact ih
  | _ => exact .refl _

/-- A program declares names of declarable types only. -/
theorem allDeclarable {before after : Table Ty} {phrase : Phrase}
    (typed : Phrase.Typed before phrase after) (h : before.AllDeclarable) :
    after.AllDeclarable := by
  induction typed with
  | bindingsPlain declarable _ _ ih => exact ih (h.insert _ declarable)
  | bindingsStart declarable _ _ _ _ ih => exact ih (h.insert _ declarable)
  | branch _ _ _ _ _ chosen alternatives final => exact final (alternatives (chosen h))
  | stmtsCons _ _ head others => exact others (head h)
  | armsCons _ _ _ _ chosen others => exact others (chosen h)
  | declare _ _ ih => exact ih h
  | loop _ _ ih => exact ih h
  | block _ ih => exact ih h
  | otherwiseSome _ ih => exact ih h
  | passes _ _ _ _ ih => exact ih h
  | _ => exact h

end Phrase.Typed

end Sulti
