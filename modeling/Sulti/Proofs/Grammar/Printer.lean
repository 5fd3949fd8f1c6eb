import Sulti.Grammar.Program
import Sulti.Proofs.Alike
import Sulti.Proofs.Grammar.Derivation

/-!
Programs as tokens. Every statement is written in one way and ended by a line
break, also behind each body of a condition, and an expression has parentheses
only where its parent binds tighter than it does. The precedences are

    0  assignment, to the right
    1  UG O
    2  == <> > >= < <=
    3  + -
    4  * / %
    5  DILI
    6  literals and names

and the operators between operands bind to the left, so a right operand is
written one level higher. The tokens stand nowhere yet.

The grammar derives what is written for an expression: the tokens stand for the
same tree, up to places.
-/

namespace Sulti

namespace Token

/-- A token that stands nowhere. -/
def unplaced (kind : Kind) (lexeme : String) : Token := ⟨kind, lexeme, .nowhere⟩

def ofName (name : String) : Token := unplaced (.identifier name) name

def comma : Token := unplaced .comma ","

def ampersand : Token := unplaced .ampersand "&"

def colon : Token := unplaced .colon ":"

def equal : Token := unplaced .equal "="

def leftParen : Token := unplaced .leftParen "("

def rightParen : Token := unplaced .rightParen ")"

def kung : Token := unplaced .kung "KUNG"

def lineBreak : Token := unplaced .newline "\n"

end Token

def Op.token (op : Op) : Token := .unplaced op.kind op.symbol

def Op.precedence : Op → Nat
  | .and | .or => 1
  | .eq | .ne | .order _ => 2
  | .arith .add | .arith .sub => 3
  | .arith .mul | .arith .div | .arith .mod => 4

def Literal.kind : Literal → Token.Kind
  | .numero n => .int n
  | .tipik x => .real x
  | .letra c => .char c
  | .text s => .string s
  | .tinuod b => .bool b

def Literal.token (l : Literal) : Token := .unplaced l.kind l.render

namespace Expr

/-- Parentheses around the tokens of an expression, where its precedence is lower than
what stands around it asks for. -/
def enclosed (precedence context : Nat) (tokens : List Token) : List Token :=
  if precedence < context then .leftParen :: (tokens ++ [.rightParen]) else tokens

/-- The tokens of an expression where at least the given precedence is asked for. -/
def write (context : Nat) : Expr → List Token
  | .assign _ name value => enclosed 0 context (.ofName name :: .equal :: value.write 0)
  | .binary _ op left right =>
      enclosed op.precedence context
        (left.write op.precedence ++ op.token :: right.write (op.precedence + 1))
  | .not _ operand => enclosed 5 context (.unplaced .dili "DILI" :: operand.write 5)
  | .var _ name => [.ofName name]
  | .literal _ value => [value.token]
  | .blank _ => []

end Expr

namespace Stmt

/-- Lists of tokens with a separator between any two. -/
def listed (separator : Token) : List (List Token) → List Token
  | [] => []
  | [one] => one
  | one :: others => one ++ separator :: listed separator others

/-- A name that is declared, with what it starts from. -/
def writeBinding : String × Option Expr → List Token
  | (name, none) => [.ofName name]
  | (name, some start) => .ofName name :: .equal :: start.write 0

/-- A block around the tokens of statements. -/
def braced (body : List Token) : List Token :=
  .unplaced .pundok "PUNDOK" :: .unplaced .leftBrace "\x7b" ::
    (body ++ [.unplaced .rightBrace "\x7d"])

/-- A condition in parentheses. -/
def asked (test : Expr) : List Token := .leftParen :: (test.write 0 ++ [.rightParen])

mutual

def write : Stmt → List Token
  | .declare ty bindings =>
      .unplaced .mugna "MUGNA" :: .unplaced .typeName ty.name ::
        (listed .comma (bindings.map writeBinding) ++ [.lineBreak])
  | .read _ targets =>
      .unplaced .dawat "DAWAT" :: .colon ::
        (listed .comma (targets.map fun name => [.ofName name]) ++ [.lineBreak])
  | .print items =>
      .unplaced .ipakita "IPAKITA" :: .colon ::
        (listed .ampersand (items.map (Expr.write 0)) ++ [.lineBreak])
  | .branch test body others otherwise =>
      .kung :: (asked test ++ (braced (writeAll body) ++ .lineBreak ::
        (writeArms others ++ writeOtherwise otherwise)))
  | .loop start test step body =>
      .unplaced .alang "ALANG" :: .unplaced .sa "SA" :: .leftParen ::
        (start.write 0 ++ .comma :: (test.write 0 ++ .comma :: (step.write 0 ++ .rightParen ::
          (braced (writeAll body) ++ [.lineBreak]))))
  | .block body => braced (writeAll body) ++ [.lineBreak]
  | .expr e => e.write 0 ++ [.lineBreak]

def writeAll : List Stmt → List Token
  | [] => []
  | first :: rest => first.write ++ writeAll rest

def writeArms : List (Expr × List Stmt) → List Token
  | [] => []
  | (test, body) :: rest =>
      .kung :: .unplaced .dili "DILI" ::
        (asked test ++ (braced (writeAll body) ++ .lineBreak :: writeArms rest))

def writeOtherwise : Option (List Stmt) → List Token
  | none => []
  | some body =>
      .kung :: .unplaced .wala "WALA" :: (braced (writeAll body) ++ [.lineBreak])

end

end Stmt

/-- A whole program, between its two words or, at the prompt, without them. -/
def Program.write (program : Program) : Mode → List Token
  | .program =>
      .unplaced .sugod "SUGOD" ::
        (Stmt.writeAll program ++ [.unplaced .katapusan "KATAPUSAN"])
  | .repl => Stmt.writeAll program

namespace Grammar

/-! The tokens of an expression are derived. -/

/-- The symbol from which what has at least the given precedence is derived. -/
def Symbol.ofPrecedence : Nat → Symbol
  | 0 => .assignment
  | 1 => .level .logical
  | 2 => .level .relational
  | 3 => .level .additive
  | 4 => .level .multiplicative
  | 5 => .unary
  | _ => .primary

namespace Derives

variable {tokens others : List Token} {e left right : Expr}

theorem loosen_one {n : Nat} (h : Derives (.ofPrecedence (n + 1)) tokens e) :
    Derives (.ofPrecedence n) tokens e := by
  match n, h with
  | 0, h => exact .logical h
  | 1, h => exact single h
  | 2, h => exact single h
  | 3, h => exact single h
  | 4, h => exact single h
  | 5, h => exact .postfixed (.primary h)
  | _ + 6, h => exact h

/-- What binds tightly may stand where less is asked for. -/
theorem loosen {m n : Nat} (hn : m ≤ n) (h : Derives (.ofPrecedence n) tokens e) :
    Derives (.ofPrecedence m) tokens e := by
  induction hn with
  | refl => exact h
  | step _ ih => exact ih h.loosen_one

theorem enclosed {p : Nat} (h : Derives (.ofPrecedence p) tokens e) (n : Nat) :
    Derives (.ofPrecedence n) (Expr.enclosed p n tokens) e := by
  unfold Expr.enclosed
  split
  · have inner : Derives .assignment tokens e := loosen (Nat.zero_le p) h
    have primary : Derives (.ofPrecedence (n + 6)) (.leftParen :: (tokens ++ [.rightParen])) e :=
      .parentheses rfl rfl inner
    exact loosen (Nat.le_add_right n 6) primary
  · rename_i high
    exact loosen (Nat.le_of_not_lt high) h

/-- Behind operations of a level, one more operator of it takes them all as its left
operand. -/
theorem others_append {l : Op.Level} (h : Derives (.others l left) tokens e) {op : Op}
    (own : op ∈ l.operators) {token : Token} (ht : token.kind = op.kind) {ty : Ty}
    (hr : Derives (.operand l) others right) :
    Derives (.others l left) (tokens ++ token :: others)
      (.binary ⟨ty, e.position⟩ op e right) := by
  generalize hs : Symbol.others l left = s at h
  induction h generalizing left with
  | none =>
      cases hs
      rw [List.nil_append, ← List.append_nil others]
      exact .operator own ht hr .none
  | operator own' ht' ho _ _ ih =>
      cases hs
      rw [List.cons_append, List.append_assoc]
      exact .operator own' ht' ho (ih rfl)
  | _ => cases hs

theorem binary {l : Op.Level} (h : Derives (.level l) tokens e) {op : Op}
    (own : op ∈ l.operators) {token : Token} (ht : token.kind = op.kind) {ty : Ty}
    (hr : Derives (.operand l) others right) :
    Derives (.level l) (tokens ++ token :: others) (.binary ⟨ty, e.position⟩ op e right) := by
  cases h with
  | level hf hrest =>
      rw [List.append_assoc]
      exact .level hf (hrest.others_append own ht hr)

end Derives

theorem ofPrecedence_op (op : Op) :
    Symbol.ofPrecedence op.precedence = .level op.level ∧
      Symbol.ofPrecedence (op.precedence + 1) = .operand op.level := by
  cases op with
  | arith a => cases a <;> exact ⟨rfl, rfl⟩
  | _ => exact ⟨rfl, rfl⟩

theorem spelled_kind (l : Literal) : l.Spelled l.kind := by
  cases l <;> constructor

/-- What is written for an expression that follows the rules stands for it, up to places. -/
theorem derives_write {table : Table Ty} {e : Expr} (typed : e.Typed table) (context : Nat) :
    ∃ e', e.Alike e' ∧ Derives (.ofPrecedence context) (e.write context) e' := by
  induction typed generalizing context with
  | @assign note name value found _ fits ih =>
      obtain ⟨value', alike, derived⟩ := ih 0
      have body : Derives (.ofPrecedence 0) (.ofName name :: .equal :: value.write 0)
          (.assign ⟨note.ty, .nowhere⟩ name value') := .store rfl rfl derived
      exact ⟨.assign ⟨note.ty, .nowhere⟩ name value', .assign ⟨rfl, trivial⟩ alike,
        body.enclosed context⟩
  | @binary note op left right _ _ types ihl ihr =>
      obtain ⟨left', alikeLeft, derivedLeft⟩ := ihl op.precedence
      obtain ⟨right', alikeRight, derivedRight⟩ := ihr (op.precedence + 1)
      obtain ⟨whole, operand⟩ := ofPrecedence_op op
      rw [whole] at derivedLeft
      rw [operand] at derivedRight
      have body : Derives (.ofPrecedence op.precedence)
          (left.write op.precedence ++ op.token :: right.write (op.precedence + 1))
          (.binary ⟨note.ty, left'.position⟩ op left' right') := by
        rw [whole]
        exact derivedLeft.binary (mem_operators.mpr rfl) rfl derivedRight
      exact ⟨.binary ⟨note.ty, left'.position⟩ op left' right',
        .binary ⟨rfl, trivial⟩ alikeLeft alikeRight, body.enclosed context⟩
  | @not note operand _ _ _ ih =>
      obtain ⟨operand', alike, derived⟩ := ih 5
      have body : Derives (.ofPrecedence 5) (.unplaced .dili "DILI" :: operand.write 5)
          (.not ⟨note.ty, .nowhere⟩ operand') := .not rfl derived
      exact ⟨.not ⟨note.ty, .nowhere⟩ operand', .not ⟨rfl, trivial⟩ alike, body.enclosed context⟩
  | @var note name _ =>
      have primary : Derives (.ofPrecedence (context + 6)) [.ofName name]
          (.var ⟨note.ty, .nowhere⟩ name) := .var rfl
      exact ⟨.var ⟨note.ty, .nowhere⟩ name, .var ⟨rfl, trivial⟩,
        primary.loosen (Nat.le_add_right context 6)⟩
  | @literal note value own =>
      have primary : Derives (.ofPrecedence (context + 6)) [value.token]
          (.ofLiteral value .nowhere) := .literal (spelled_kind value)
      exact ⟨.ofLiteral value .nowhere, .literal ⟨own.symm, trivial⟩,
        primary.loosen (Nat.le_add_right context 6)⟩

/-- Of the parentheses in `(x - (x - x)) - x` those around the right operand stay. -/
example :
    let x : Expr := .var ⟨.numero, .nowhere⟩ "x"
    let minus := Expr.binary ⟨.numero, .nowhere⟩ (.arith .sub)
    ((minus (minus x (minus x x)) x).write 0).map Token.lexeme =
      ["x", "-", "(", "x", "-", "x", ")", "-", "x"] := by
  decide

/-! How written expressions and statements begin. -/

/-- The tokens that an expression is written with begin with one of these. -/
def opensExpr : Token.Kind → Bool
  | .identifier _ | .int _ | .real _ | .char _ | .string _ | .bool _ | .leftParen | .dili => true
  | _ => false

theorem opens_enclosed {p n : Nat} {first : Token} {rest : List Token}
    (h : opensExpr first.kind = true) :
    ∃ token tokens, Expr.enclosed p n (first :: rest) = token :: tokens ∧
      opensExpr token.kind = true := by
  unfold Expr.enclosed
  split
  · exact ⟨_, _, rfl, rfl⟩
  · exact ⟨_, _, rfl, h⟩

theorem write_opens {table : Table Ty} {e : Expr} (typed : e.Typed table) (n : Nat) :
    ∃ token tokens, e.write n = token :: tokens ∧ opensExpr token.kind = true := by
  induction typed generalizing n with
  | assign => exact opens_enclosed rfl
  | @binary note op left right _ _ _ ihl _ =>
      obtain ⟨token, tokens, first, opens⟩ := ihl op.precedence
      rw [Expr.write, first]
      exact opens_enclosed opens
  | not => exact opens_enclosed rfl
  | var => exact ⟨_, _, rfl, rfl⟩
  | @literal note value => exact ⟨value.token, [], rfl, by cases value <;> rfl⟩

theorem write_length_pos (s : Stmt) : 0 < s.write.length := by
  cases s <;> simp [Stmt.write, Stmt.braced]

/-! No end mark is written. -/

def Inside (tokens : List Token) : Prop := ∀ token ∈ tokens, token.kind ≠ .eof

theorem inside_nil : Inside [] := fun _ member => nomatch member

theorem inside_cons {token : Token} {tokens : List Token} :
    Inside (token :: tokens) ↔ token.kind ≠ .eof ∧ Inside tokens := List.forall_mem_cons

theorem inside_append {first second : List Token} :
    Inside (first ++ second) ↔ Inside first ∧ Inside second := List.forall_mem_append

theorem inside_enclosed {p n : Nat} {tokens : List Token} (h : Inside tokens) :
    Inside (Expr.enclosed p n tokens) := by
  unfold Expr.enclosed
  split
  · simp only [inside_cons, inside_append]
    exact ⟨nofun, h, nofun, inside_nil⟩
  · exact h

theorem kind_ne_eof (op : Op) : op.kind ≠ .eof := by
  intro same
  have none := ofKind?_kind op
  rw [same] at none
  cases none

theorem inside_expr (e : Expr) (n : Nat) : Inside (e.write n) := by
  induction e generalizing n with
  | assign note name value ih =>
      apply inside_enclosed
      simp only [inside_cons]
      exact ⟨nofun, nofun, ih 0⟩
  | binary note op left right ihl ihr =>
      apply inside_enclosed
      simp only [inside_cons, inside_append]
      exact ⟨ihl _, kind_ne_eof op, ihr _⟩
  | not note operand ih =>
      apply inside_enclosed
      simp only [inside_cons]
      exact ⟨nofun, ih 5⟩
  | var => exact inside_cons.mpr ⟨nofun, inside_nil⟩
  | literal note value =>
      apply inside_cons.mpr
      cases value <;> exact ⟨nofun, inside_nil⟩
  | blank => exact inside_nil

theorem inside_listed (separator : Token) (hs : separator.kind ≠ .eof) {β : Type}
    {write : β → List Token}
    (h : ∀ x, Inside (write x)) (xs : List β) : Inside (Stmt.listed separator (xs.map write)) := by
  induction xs with
  | nil => exact inside_nil
  | cons x rest ih =>
      cases rest with
      | nil => exact h x
      | cons =>
          simp only [List.map_cons, Stmt.listed, inside_append, inside_cons]
          exact ⟨h x, hs, ih⟩

theorem inside_binding : ∀ b : String × Option Expr, Inside (Stmt.writeBinding b)
  | (_, none) => inside_cons.mpr ⟨nofun, inside_nil⟩
  | (_, some start) => inside_cons.mpr ⟨nofun, inside_cons.mpr ⟨nofun, inside_expr start 0⟩⟩

theorem inside_asked (test : Expr) : Inside (Stmt.asked test) := by
  simp only [Stmt.asked, inside_cons, inside_append]
  exact ⟨nofun, inside_expr test 0, nofun, inside_nil⟩

theorem inside_braced {body : List Token} (h : Inside body) : Inside (Stmt.braced body) := by
  simp only [Stmt.braced, inside_cons, inside_append]
  exact ⟨nofun, nofun, h, nofun, inside_nil⟩

mutual

theorem inside_stmt : ∀ s : Stmt, Inside s.write
  | .declare ty names => by
      simp only [Stmt.write, inside_cons, inside_append]
      exact ⟨nofun, nofun, inside_listed .comma nofun inside_binding names, nofun, inside_nil⟩
  | .read _ targets => by
      have target (name : String) : Inside [.ofName name] := inside_cons.mpr ⟨nofun, inside_nil⟩
      simp only [Stmt.write, inside_cons, inside_append]
      exact ⟨nofun, nofun, inside_listed .comma nofun target targets, nofun, inside_nil⟩
  | .print items => by
      simp only [Stmt.write, inside_cons, inside_append]
      exact ⟨nofun, nofun, inside_listed .ampersand nofun (inside_expr · 0) items, nofun,
        inside_nil⟩
  | .branch test body others last => by
      simp only [Stmt.write, inside_cons, inside_append]
      exact ⟨nofun, inside_asked test, inside_braced (inside_body body), nofun,
        inside_arms others, inside_otherwise last⟩
  | .loop start test step body => by
      simp only [Stmt.write, inside_cons, inside_append]
      exact ⟨nofun, nofun, nofun, inside_expr start 0, nofun, inside_expr test 0, nofun,
        inside_expr step 0, nofun, inside_braced (inside_body body), nofun, inside_nil⟩
  | .block body => by
      simp only [Stmt.write, inside_cons, inside_append]
      exact ⟨inside_braced (inside_body body), nofun, inside_nil⟩
  | .expr e => by
      simp only [Stmt.write, inside_cons, inside_append]
      exact ⟨inside_expr e 0, nofun, inside_nil⟩

theorem inside_body : ∀ body : List Stmt, Inside (Stmt.writeAll body)
  | [] => by
      rw [Stmt.writeAll]
      exact inside_nil
  | first :: rest => by
      rw [Stmt.writeAll, inside_append]
      exact ⟨inside_stmt first, inside_body rest⟩

theorem inside_arms : ∀ others : List (Expr × List Stmt), Inside (Stmt.writeArms others)
  | [] => by
      rw [Stmt.writeArms]
      exact inside_nil
  | (test, body) :: rest => by
      simp only [Stmt.writeArms, inside_cons, inside_append]
      exact ⟨nofun, nofun, inside_asked test, inside_braced (inside_body body), nofun,
        inside_arms rest⟩

theorem inside_otherwise : ∀ last : Option (List Stmt), Inside (Stmt.writeOtherwise last)
  | none => by
      rw [Stmt.writeOtherwise]
      exact inside_nil
  | some body => by
      simp only [Stmt.writeOtherwise, inside_cons, inside_append]
      exact ⟨nofun, nofun, inside_braced (inside_body body), nofun, inside_nil⟩

end

theorem inside_program (program : Program) (mode : Mode) : Inside (program.write mode) := by
  cases mode with
  | program =>
      simp only [Program.write, inside_cons, inside_append]
      exact ⟨nofun, inside_body program, nofun, inside_nil⟩
  | repl => exact inside_body program

end Grammar

end Sulti
