import Sulti.Expr
import Sulti.Grammar.Cursor

/-!
Expressions in a list of tokens. Assignment binds loosest and to the right.
Then come four levels of operators that bind to the left, then signs, `DILI`
and `++` in front of an operand, then `++` and `--` behind one. Types are
checked where a node is made, so a tree that comes out is well typed.
-/

namespace Sulti

/-- How tightly an operator binds, the loosest first. -/
inductive Op.Level where
  | logical
  | relational
  | additive
  | multiplicative
  deriving DecidableEq, Repr

namespace Op

def level : Op → Level
  | .and | .or => .logical
  | .eq | .ne | .order _ => .relational
  | .arith .add | .arith .sub => .additive
  | .arith .mul | .arith .div | .arith .mod => .multiplicative

/-- The operator that a token stands for between two operands. -/
def ofKind? : Token.Kind → Option Op
  | .plus => some (.arith .add)
  | .minus => some (.arith .sub)
  | .star => some (.arith .mul)
  | .slash => some (.arith .div)
  | .percent => some (.arith .mod)
  | .greater => some (.order .gt)
  | .greaterEqual => some (.order .ge)
  | .less => some (.order .lt)
  | .lessEqual => some (.order .le)
  | .equalEqual => some .eq
  | .notEqual => some .ne
  | .ug => some .and
  | .o => some .or
  | _ => none

end Op

/-- The literal that a token stands for. -/
def Literal.ofKind? : Token.Kind → Option Literal
  | .int n => some (.numero n)
  | .real x => some (.tipik x)
  | .char c | .escaped c => some (.letra c)
  | .carriageReturn => some (.letra '\n')
  | .string s => some (.text s)
  | .bool b => some (.tinuod b)
  | _ => none

namespace Grammar

/-- Asks that an expression may stand for a value of the given type. -/
def demand (expected : Ty) (e : Expr) : Parse Unit :=
  checked e.position (expected.demand e.ty)

def demandNumeric (e : Expr) : Parse Unit :=
  checked e.position e.ty.demandNumeric

/-- The variable that an expression is, for storing into it. The expression
has to be that name alone, so it must not have more than one token; `(x)` has. -/
def bareName (single : Bool) (target : Expr) (position : Position) : Parse String :=
  match single, target with
  | true, .var _ name => pure name
  | _, _ => reject position .invalidTarget

/-- The assignment that `++` or `--` at a place stands for. -/
def increment (single : Bool) (target : Expr) (a : Arith) (position : Position) :
    Parse Expr := do
  let name ← bareName single target position
  demandNumeric target
  let one := Expr.ofLiteral (.numero .one) position
  return .assign target.note name (.binary target.note (.arith a) target one)

/-- The sum or difference that a sign at a place stands for. -/
def signed (a : Arith) (operand : Expr) (position : Position) : Parse Expr := do
  demandNumeric operand
  let zero : Literal := if operand.ty = .tipik then .tipik 0.0 else .numero .zero
  return .binary ⟨operand.ty, position⟩ (.arith a) (.ofLiteral zero position) operand

/-- A literal, a variable or an expression in parentheses. At the end of a
line the expression is blank, and the line break stays. -/
def primary (expression : Parse Expr) : Parse Expr := do
  let token ← peek
  match token.kind with
  | .identifier name => do
      advance
      match (← names).find? name with
      | some ty => return .var ⟨ty, token.position⟩ name
      | none => reject token.position (.unresolved name)
  | .leftParen => do
      advance
      let e ← expression
      expect .rightParen "')' after the expression"
      return e
  | .newline => return .blank ⟨.empty, token.position⟩
  | kind =>
      match Literal.ofKind? kind with
      | some l => do
          advance
          return .ofLiteral l token.position
      | none => unexpected "an expression"

/-- An operand with what may stand behind it. -/
def postfixed (expression : Parse Expr) : Parse Expr := do
  let (e, single) ← measured (primary expression)
  let token ← peek
  match token.kind with
  | .plusPlus => do
      advance
      increment single e .add token.position
  | .minusMinus => do
      advance
      increment single e .sub token.position
  | _ => return e

/-- Operators of one level and their right operands, applied from the left. -/
def chain (level : Op.Level) (operand : Parse Expr) : Nat → Expr → Parse Expr
  | 0, _ => starve
  | fuel + 1, left => do
      let token ← peek
      match Op.ofKind? token.kind with
      | some op =>
          if op.level = level then do
            advance
            let right ← operand
            let ty ← checked token.position (op.result left.ty right.ty)
            chain level operand fuel (.binary ⟨ty, left.position⟩ op left right)
          else
            return left
      | none => return left

def leftAssociative (level : Op.Level) (operand : Parse Expr) (fuel : Nat) : Parse Expr := do
  let first ← operand
  chain level operand fuel first

/-- The four levels of operators around operands with prefixes. -/
def operation (unary : Parse Expr) (fuel : Nat) : Parse Expr :=
  let product := leftAssociative .multiplicative unary fuel
  let sum := leftAssociative .additive product fuel
  let relation := leftAssociative .relational sum fuel
  leftAssociative .logical relation fuel

def assignment (unary : Parse Expr) : Nat → Parse Expr
  | 0 => starve
  | fuel + 1 => do
      let (target, single) ← measured (operation unary (fuel + 1))
      let equal ← peek
      if equal.kind = .equal then do
        advance
        let name ← bareName single target equal.position
        let value ← assignment unary fuel
        demand target.ty value
        return .assign target.note name value
      else
        return target

/-- An operand with the signs and operators in front of it. -/
def unary : Nat → Parse Expr
  | 0 => starve
  | fuel + 1 => do
      let token ← peek
      match token.kind with
      | .dili => do
          advance
          let operand ← unary fuel
          demand .tinuod operand
          return .not ⟨operand.ty, token.position⟩ operand
      | .plus => do
          advance
          let operand ← unary fuel
          signed .add operand token.position
      | .minus => do
          advance
          let operand ← unary fuel
          signed .sub operand token.position
      | .plusPlus => do
          advance
          let (target, single) ← measured (unary fuel)
          increment single target .add token.position
      | _ => postfixed (assignment (unary fuel) fuel)

def expression (fuel : Nat) : Parse Expr := assignment (unary fuel) fuel

end Grammar

end Sulti
