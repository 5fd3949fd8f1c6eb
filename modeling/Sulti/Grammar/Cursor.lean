import Sulti.Grammar.Rejection
import Sulti.Stmt
import Sulti.Table

/-!
The state in which a list of tokens is read, and readers as trees of the steps
they take. Each step asks for a token, moves on or takes down a name, and what
comes next depends on the answer. Taking the steps at a cursor gives what the
reader comes to there. Reading never moves past the end mark. Repetition and
nesting are bounded by a number that is counted down; running out of it is an
outcome of its own, apart from the rejection of a program.
-/

namespace Sulti.Grammar

/-- What is still to be read, and the names declared so far. -/
structure Cursor where
  /-- The tokens before the end mark. -/
  ahead : List Token
  /-- The place of the end mark. -/
  stop : Position
  table : Table Ty

namespace Cursor

/-- A list of tokens ends at its first end mark. A list without one ends at the
place of its last token. -/
def ofTokens (table : Table Ty) (tokens : List Token) : Cursor where
  ahead := tokens.takeWhile fun token => token.kind != .eof
  stop := match tokens.find? fun token => token.kind == .eof with
    | some mark => mark.position
    | none => (tokens.getLast?.map Token.position).getD .nowhere
  table := table

/-- The next token, which is the end mark if no other is left. -/
def next (c : Cursor) : Token := c.ahead.headD (.endMark c.stop)

/-- The token behind the next one. -/
def second (c : Cursor) : Token := c.ahead.tail.headD (.endMark c.stop)

/-- One token further, except at the end mark. -/
def forward (c : Cursor) : Cursor := { c with ahead := c.ahead.tail }

def dropNewlines (c : Cursor) : Cursor :=
  { c with ahead := c.ahead.dropWhile fun token => token.kind == .newline }

/-- Adds a name that is not declared yet. -/
def declare (c : Cursor) (name : String) (ty : Ty) : Cursor :=
  { c with table := (c.table.declare? name ty).getD c.table }

/-- Whether the cursor is one token further on than another one. -/
def isOnePast (d c : Cursor) : Bool := d.ahead.length + 1 == c.ahead.length

end Cursor

inductive Halt where
  | rejected (r : Rejection)
  /-- The bound on repetition and nesting was too small. -/
  | starved

/-- The steps of a reader. -/
inductive Parse : Type → Type 1 where
  | done {α : Type} (a : α) : Parse α
  | starve {α : Type} : Parse α
  /-- Something that was read before is at fault. -/
  | reject {α : Type} (position : Position) (cause : Rejection.Cause) : Parse α
  /-- The next token is at fault. -/
  | unexpected {α : Type} (expected : String) : Parse α
  | next {α : Type} (go : Token → Parse α) : Parse α
  /-- The token behind the next one. -/
  | second {α : Type} (go : Token → Parse α) : Parse α
  | forward {α : Type} (go : Parse α) : Parse α
  /-- Moves over line breaks and tells whether there were any. -/
  | skip {α : Type} (go : Bool → Parse α) : Parse α
  | names {α : Type} (go : Table Ty → Parse α) : Parse α
  | declare {α : Type} (name : String) (ty : Ty) (go : Parse α) : Parse α
  /-- Reads an operand and tells whether the reader has moved on by one token. -/
  | measure {α : Type} (operand : Parse Expr) (go : Expr → Bool → Parse α) : Parse α
  /-- Reads a statement of a list. -/
  | item {α : Type} (statement : Parse Stmt) (go : Stmt → Parse α) : Parse α

namespace Parse

variable {α β : Type}

protected def bind : Parse α → (α → Parse β) → Parse β
  | .done a, f => f a
  | .starve, _ => .starve
  | .reject position cause, _ => .reject position cause
  | .unexpected expected, _ => .unexpected expected
  | .next go, f => .next fun token => (go token).bind f
  | .second go, f => .second fun token => (go token).bind f
  | .forward go, f => .forward (go.bind f)
  | .skip go, f => .skip fun skipped => (go skipped).bind f
  | .names go, f => .names fun table => (go table).bind f
  | .declare name ty go, f => .declare name ty (go.bind f)
  | .measure operand go, f => .measure operand fun e single => (go e single).bind f
  | .item statement go, f => .item statement fun s => (go s).bind f

instance : Monad Parse where
  pure := .done
  bind := .bind

/-- What the steps come to at a cursor. A name that is declared already stays as it is. -/
def run : {α : Type} → Parse α → Cursor → Except Halt (α × Cursor)
  | _, .done a, c => .ok (a, c)
  | _, .starve, _ => .error .starved
  | _, .reject position cause, _ => .error (.rejected ⟨position, cause⟩)
  | _, .unexpected expected, c => .error (.rejected (.unexpected c.next expected))
  | _, .next go, c => (go c.next).run c
  | _, .second go, c => (go c.second).run c
  | _, .forward go, c => go.run c.forward
  | _, .skip go, c => (go (c.next.kind == .newline)).run c.dropNewlines
  | _, .names go, c => (go c.table).run c
  | _, .declare name ty go, c => go.run (c.declare name ty)
  | _, .measure operand go, c =>
      (operand.run c).bind fun read => (go read.1 (read.2.isOnePast c)).run read.2
  | _, .item statement go, c =>
      (statement.run c).bind fun read => (go read.1).run read.2

instance : CoeFun (Parse α) fun _ => Cursor → Except Halt (α × Cursor) := ⟨run⟩

/-- The steps of a sequence are those of its first part and then those of the others. -/
theorem run_bind (p : Parse α) (f : α → Parse β) (c : Cursor) :
    (p >>= f) c = (p c).bind fun read => f read.1 read.2 := by
  change (p.bind f) c = _
  induction p generalizing c with
  | done | starve | reject | unexpected => rfl
  | next go ih | second go ih | skip go ih | names go ih => exact ih _ f _
  | forward go ih | declare name ty go ih => exact ih f _
  | measure operand go _ ih =>
      change (operand c).bind _ = ((operand c).bind _).bind _
      cases operand c with
      | ok read => exact ih _ _ f _
      | error halt => rfl
  | item statement go _ ih =>
      change (statement c).bind _ = ((statement c).bind _).bind _
      cases statement c with
      | ok read => exact ih _ f _
      | error halt => rfl

end Parse

export Parse (starve reject unexpected)

def peek : Parse Token := .next .done

def advance : Parse Unit := .forward (.done ())

def skipNewlines : Parse Bool := .skip .done

/-- The names that are declared. -/
def names : Parse (Table Ty) := .names .done

def declareName (name : String) (ty : Ty) : Parse Unit := .declare name ty (.done ())

/-- An operand, and whether it is a single token. -/
def measured (operand : Parse Expr) : Parse (Expr × Bool) :=
  .measure operand fun e single => .done (e, single)

/-- Moves over a token of the given kind, if one is next. -/
def accept (kind : Token.Kind) : Parse Bool := do
  let token ← peek
  if token.kind = kind then
    advance
    return true
  else
    return false

/-- Moves over a token of the given kind, which has to be next. -/
def expect (kind : Token.Kind) (expected : String) : Parse Unit := do
  let token ← peek
  if token.kind = kind then
    advance
  else
    unexpected expected

/-- A name and the place where it stands. -/
def identifier : Parse (String × Position) := do
  let token ← peek
  match token.kind with
  | .identifier name => do
      advance
      return (name, token.position)
  | _ => unexpected "an identifier"

/-- One item or more, with a separator between any two. -/
def separated {α : Type} (separator : Token.Kind) (item : Parse α) : Nat → Parse (List α)
  | 0 => starve
  | fuel + 1 => do
      let first ← item
      if ← accept separator then
        let others ← separated separator item fuel
        return first :: others
      else
        return [first]

/-- A type rule that is applied at a place. -/
def checked {α : Type} (position : Position) : Except Mismatch α → Parse α
  | .ok a => pure a
  | .error m => reject position (.mismatch m)

end Sulti.Grammar
