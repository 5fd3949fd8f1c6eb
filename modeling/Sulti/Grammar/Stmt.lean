import Sulti.Grammar.Expr

/-!
Statements in a list of tokens. A statement ends at a line break or before
what closes the block or program around it; line breaks may also stand
between the parts of a condition and its blocks.
-/

namespace Sulti.Grammar

def endStatement : Parse Unit := do
  let token ← peek
  match token.kind with
  | .newline => advance
  | .rightBrace | .katapusan | .eof => return ()
  | _ => unexpected "a newline"

/-- The type that is declared. A name in its place is one that names no type. -/
def declaredType : Parse Ty := do
  let token ← peek
  match token.kind with
  | .typeName | .identifier _ => do
      advance
      match Ty.ofWord? token.lexeme with
      | some ty => return ty
      | none => reject token.position (.unknownType token.lexeme)
  | _ => unexpected "a data type after MUGNA"

/-- A name that is not declared yet. -/
def freshName : Parse String := do
  let (name, position) ← identifier
  if (← names).contains name then
    reject position (.duplicate name)
  else
    return name

/-- The expression that a variable of the given type starts from, if any. -/
def start (ty : Ty) (fuel : Nat) : Parse (Option Expr) := do
  if ← accept .equal then
    let value ← expression fuel
    demand ty value
    return some value
  else
    return none

/-- A new name and the expression it starts from. The name counts as declared
only behind that expression. -/
def binding (ty : Ty) (fuel : Nat) : Parse (String × Option Expr) := do
  let name ← freshName
  let value ← start ty fuel
  declareName name ty
  return (name, value)

def declaration (fuel : Nat) : Parse Stmt := do
  advance
  let ty ← declaredType
  let bindings ← separated .comma (binding ty fuel) fuel
  endStatement
  return .declare ty bindings

/-- A declared name to read into. -/
def target : Parse String := do
  let (name, position) ← identifier
  if (← names).contains name then
    return name
  else
    reject position (.unresolved name)

def input (fuel : Nat) : Parse Stmt := do
  let dawat ← peek
  advance
  expect .colon "':' after DAWAT"
  let targets ← separated .comma target fuel
  endStatement
  return .read dawat.position targets

def output (fuel : Nat) : Parse Stmt := do
  advance
  expect .colon "':' after IPAKITA"
  let items ← separated .ampersand (expression fuel) fuel
  endStatement
  return .print items

/-- A statement that stands in a list of them. -/
def member (statement : Parse Stmt) : Parse Stmt := .item statement .done

/-- Statements up to a token of the closing kind or the end of the text. -/
def statements (closing : Token.Kind) (statement : Parse Stmt) : Nat → Parse (List Stmt)
  | 0 => starve
  | fuel + 1 => do
      let _ ← skipNewlines
      let token ← peek
      if token.kind = closing ∨ token.kind = .eof then
        return []
      else
        let first ← member statement
        let others ← statements closing statement fuel
        return first :: others

def block (statement : Parse Stmt) (fuel : Nat) : Parse (List Stmt) := do
  expect .pundok "PUNDOK"
  let _ ← skipNewlines
  expect .leftBrace "'\x7b' after PUNDOK"
  let body ← statements .rightBrace statement fuel
  expect .rightBrace "'\x7d' to close the block"
  return body

def condition (fuel : Nat) : Parse Expr := do
  expect .leftParen "'(' before the condition"
  let e ← expression fuel
  demand .tinuod e
  expect .rightParen "')' after the condition"
  let _ ← skipNewlines
  return e

/-- What may follow the first body of a condition. -/
structure Alternatives where
  others : List (Expr × List Stmt)
  otherwise : Option (List Stmt)
  /-- Whether line breaks were read behind the last body. -/
  ended : Bool

/-- The kind of the token behind a `KUNG`, if that is next. -/
def behindKung : Parse (Option Token.Kind) := do
  let token ← peek
  if token.kind = .kung then
    .second fun following => .done (some following.kind)
  else
    return none

/-- The bodies behind `KUNG DILI`, and the one behind `KUNG WALA`. `ended` tells
whether line breaks were read behind the body before. -/
def alternatives (body : Parse (List Stmt)) (ended : Bool) : Nat → Parse Alternatives
  | 0 => starve
  | fuel + 1 => do
      match ← behindKung with
      | some .dili => do
          advance
          advance
          let _ ← skipNewlines
          let test ← condition fuel
          let chosen ← body
          let ended ← skipNewlines
          let more ← alternatives body ended fuel
          return { more with others := (test, chosen) :: more.others }
      | some .wala => do
          advance
          advance
          let _ ← skipNewlines
          let chosen ← body
          let ended ← skipNewlines
          return ⟨[], some chosen, ended⟩
      | _ => return ⟨[], none, ended⟩

/-- The end of a statement, unless it was read before. -/
def endUnless (ended : Bool) : Parse Unit :=
  if ended then pure () else endStatement

/-- A condition has to follow here, and not the start of an alternative. -/
def noAlternative (position : Position) : Parse Unit := do
  let token ← peek
  if token.kind = .dili ∨ token.kind = .wala then
    reject position .danglingElse
  else
    return ()

def branch (body : Parse (List Stmt)) (fuel : Nat) : Parse Stmt := do
  let kung ← peek
  advance
  noAlternative kung.position
  let test ← condition fuel
  let chosen ← body
  let ended ← skipNewlines
  let more ← alternatives body ended fuel
  endUnless more.ended
  return .branch test chosen more.others more.otherwise

def loop (body : Parse (List Stmt)) (fuel : Nat) : Parse Stmt := do
  advance
  expect .sa "SA after ALANG"
  expect .leftParen "'(' after ALANG SA"
  let first ← expression fuel
  expect .comma "',' after the loop initializer"
  let test ← expression fuel
  demand .tinuod test
  expect .comma "',' after the loop condition"
  let step ← expression fuel
  expect .rightParen "')' after the loop update"
  let _ ← skipNewlines
  let repeated ← body
  endStatement
  return .loop first test step repeated

def statement : Nat → Parse Stmt
  | 0 => starve
  | fuel + 1 => do
      let body := block (statement fuel) fuel
      let token ← peek
      match token.kind with
      | .mugna => declaration fuel
      | .dawat => input fuel
      | .ipakita => output fuel
      | .kung => branch body fuel
      | .alang => loop body fuel
      | .pundok => do
          let inner ← body
          endStatement
          return .block inner
      | _ => do
          let e ← expression fuel
          endStatement
          return .expr e

end Sulti.Grammar
