import Sulti.Proofs.Typing.Rules
import Sulti.Token.Basic

/-!
Tokens and trees that differ at most in the places they carry. A place is told
in messages only, so what is alike reads and runs alike. How far the places may
differ is left open where trees are related; alike are those of which nothing is
asked, and if the places are the same, so are the trees.
-/

namespace Sulti

structure Token.Alike (t u : Token) : Prop where
  kind : u.kind = t.kind
  lexeme : u.lexeme = t.lexeme

theorem Token.Alike.refl (t : Token) : t.Alike t := ⟨rfl, rfl⟩

/-- The same type, at places in the relation `place`. -/
structure Note.Related (place : Position → Position → Prop) (note note' : Note) : Prop where
  ty : note'.ty = note.ty
  position : place note.position note'.position

/-- The same expression, up to the places of its nodes. -/
inductive Expr.Related (place : Position → Position → Prop) : Expr → Expr → Prop where
  | assign {note note' : Note} {name : String} {value value' : Expr}
      (own : note.Related place note') (hv : value.Related place value') :
      Related place (.assign note name value) (.assign note' name value')
  | binary {note note' : Note} {op : Op} {left right left' right' : Expr}
      (own : note.Related place note') (hl : left.Related place left')
      (hr : right.Related place right') :
      Related place (.binary note op left right) (.binary note' op left' right')
  | not {note note' : Note} {operand operand' : Expr} (own : note.Related place note')
      (ho : operand.Related place operand') :
      Related place (.not note operand) (.not note' operand')
  | var {note note' : Note} {name : String} (own : note.Related place note') :
      Related place (.var note name) (.var note' name)
  | literal {note note' : Note} {value : Literal} (own : note.Related place note') :
      Related place (.literal note value) (.literal note' value)
  | blank {note note' : Note} (own : note.Related place note') :
      Related place (.blank note) (.blank note')

abbrev Expr.Alike : Expr → Expr → Prop := Expr.Related fun _ _ => True

section

variable {place : Position → Position → Prop} {e e' : Expr}

theorem Expr.Related.note (h : e.Related place e') : e.note.Related place e'.note := by
  cases h <;> assumption

theorem Expr.Related.ty (h : e.Related place e') : e'.ty = e.ty := h.note.ty

theorem Expr.Related.position (h : e.Related place e') : place e.position e'.position :=
  h.note.position

theorem Expr.related_ofLiteral (l : Literal) {position position' : Position}
    (h : place position position') :
    (Expr.ofLiteral l position).Related place (Expr.ofLiteral l position') := .literal ⟨rfl, h⟩

theorem Note.Related.eq {note note' : Note} (h : note.Related Eq note') : note = note' := by
  cases note
  cases note'
  cases h.ty
  cases h.position
  rfl

theorem Expr.Related.eq (h : e.Related Eq e') : e = e' := by
  induction h with
  | assign own _ value => rw [own.eq, value]
  | binary own _ _ left right => rw [own.eq, left, right]
  | not own _ operand => rw [own.eq, operand]
  | var own | literal own | blank own => rw [own.eq]

end

/-- The same statements, or the same part of one, up to places. -/
inductive Phrase.Related (place : Position → Position → Prop) : Phrase → Phrase → Prop where
  | bindingsNil {ty : Ty} : Related place (.bindings ty []) (.bindings ty [])
  | bindingsPlain {ty : Ty} {name : String} {rest rest' : List (String × Option Expr)}
      (others : Related place (.bindings ty rest) (.bindings ty rest')) :
      Related place (.bindings ty ((name, none) :: rest)) (.bindings ty ((name, none) :: rest'))
  | bindingsStart {ty : Ty} {name : String} {start start' : Expr}
      {rest rest' : List (String × Option Expr)} (hs : start.Related place start')
      (others : Related place (.bindings ty rest) (.bindings ty rest')) :
      Related place (.bindings ty ((name, some start) :: rest))
        (.bindings ty ((name, some start') :: rest'))
  | itemsNil : Related place (.items []) (.items [])
  | itemsCons {item item' : Expr} {rest rest' : List Expr} (hi : item.Related place item')
      (others : Related place (.items rest) (.items rest')) :
      Related place (.items (item :: rest)) (.items (item' :: rest'))
  | declare {ty : Ty} {bindings bindings' : List (String × Option Expr)}
      (h : Related place (.bindings ty bindings) (.bindings ty bindings')) :
      Related place (.stmt (.declare ty bindings)) (.stmt (.declare ty bindings'))
  | read {position position' : Position} {targets : List String}
      (h : place position position') :
      Related place (.stmt (.read position targets)) (.stmt (.read position' targets))
  | print {items items' : List Expr} (h : Related place (.items items) (.items items')) :
      Related place (.stmt (.print items)) (.stmt (.print items'))
  | branch {test test' : Expr} {body body' : List Stmt} {others others' : List (Expr × List Stmt)}
      {last last' : Option (List Stmt)} (ht : test.Related place test')
      (hb : Related place (.stmts body) (.stmts body'))
      (ho : Related place (.arms others) (.arms others'))
      (hl : Related place (.otherwise last) (.otherwise last')) :
      Related place (.stmt (.branch test body others last))
        (.stmt (.branch test' body' others' last'))
  | loop {start start' test test' step step' : Expr} {body body' : List Stmt}
      (hs : start.Related place start') (ht : test.Related place test')
      (hu : step.Related place step')
      (hb : Related place (.stmts body) (.stmts body')) :
      Related place (.stmt (.loop start test step body)) (.stmt (.loop start' test' step' body'))
  | block {body body' : List Stmt} (h : Related place (.stmts body) (.stmts body')) :
      Related place (.stmt (.block body)) (.stmt (.block body'))
  | expr {e e' : Expr} (h : e.Related place e') : Related place (.stmt (.expr e)) (.stmt (.expr e'))
  | stmtsNil : Related place (.stmts []) (.stmts [])
  | stmtsCons {first first' : Stmt} {rest rest' : List Stmt}
      (head : Related place (.stmt first) (.stmt first'))
      (others : Related place (.stmts rest) (.stmts rest')) :
      Related place (.stmts (first :: rest)) (.stmts (first' :: rest'))
  | armsNil : Related place (.arms []) (.arms [])
  | armsCons {test test' : Expr} {body body' : List Stmt} {rest rest' : List (Expr × List Stmt)}
      (ht : test.Related place test') (hb : Related place (.stmts body) (.stmts body'))
      (others : Related place (.arms rest) (.arms rest')) :
      Related place (.arms ((test, body) :: rest)) (.arms ((test', body') :: rest'))
  | otherwiseNone : Related place (.otherwise none) (.otherwise none)
  | otherwiseSome {body body' : List Stmt} (h : Related place (.stmts body) (.stmts body')) :
      Related place (.otherwise (some body)) (.otherwise (some body'))

abbrev Phrase.Alike : Phrase → Phrase → Prop := Phrase.Related fun _ _ => True

theorem Phrase.Related.eq {p q : Phrase} (h : p.Related Eq q) : p = q := by
  induction h with
  | bindingsNil | itemsNil | stmtsNil | armsNil | otherwiseNone => rfl
  | read same => rw [same]
  | expr h => rw [h.eq]
  | bindingsPlain _ others =>
      cases others
      rfl
  | bindingsStart hs _ others =>
      cases others
      rw [hs.eq]
  | itemsCons hi _ others =>
      cases others
      rw [hi.eq]
  | declare _ ih | print _ ih | block _ ih | otherwiseSome _ ih =>
      cases ih
      rfl
  | branch ht _ _ _ body others last =>
      cases body
      cases others
      cases last
      rw [ht.eq]
  | loop hs ht hu _ body =>
      cases body
      rw [hs.eq, ht.eq, hu.eq]
  | stmtsCons _ _ head others =>
      cases head
      cases others
      rfl
  | armsCons ht _ _ body others =>
      cases body
      cases others
      rw [ht.eq]

/-- The static rules do not look at places. -/
theorem Expr.Typed.alike {place : Position → Position → Prop} {table : Table Ty} {e e' : Expr}
    (typed : e.Typed table) (h : e.Related place e') : e'.Typed table := by
  induction typed generalizing e' with
  | assign found _ fits ih =>
      cases h with
      | assign own hv =>
          rw [← own.ty] at found fits
          rw [← hv.ty] at fits
          exact .assign found (ih hv) fits
  | binary _ _ types ihl ihr =>
      cases h with
      | binary own hl hr =>
          rw [← own.ty, ← hl.ty, ← hr.ty] at types
          exact .binary (ihl hl) (ihr hr) types
  | not _ truth own' ih =>
      cases h with
      | not own ho => exact .not (ih ho) (ho.ty.trans truth) (own.ty.trans own')
  | var found =>
      cases h with
      | var own => exact .var (own.ty.symm ▸ found)
  | literal own' =>
      cases h with
      | literal own => exact .literal (own.ty.trans own')

end Sulti
