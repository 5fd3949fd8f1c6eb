import Sulti.Grammar.Expr
import Sulti.Proofs.Typing.Rules

/-!
The grammar of expressions, as a relation between tokens and trees and without
reference to how tokens are read:

    expression     = assignment
    assignment     = IDENTIFIER "=" assignment | logical
    logical        = relational { ( "UG" | "O" ) relational }
    relational     = additive { ( "==" | "<>" | ">" | ">=" | "<" | "<=" ) additive }
    additive       = multiplicative { ( "+" | "-" ) multiplicative }
    multiplicative = unary { ( "*" | "/" | "%" ) unary }
    unary          = ( "DILI" | "+" | "-" | "++" ) unary | postfixed
    postfixed      = primary [ "++" | "--" ]
    primary        = NUMBER | CHAR | STRING | BOOL | "$" | IDENTIFIER | "(" expression ")"

What is stored into, by `=`, `++` or `--`, is one identifier and nothing else.
A derivation also says which tree the tokens stand for: operators of one level
are applied from the left, a sign is an operation on zero, an increment is an
assignment, and parentheses leave no trace. It leaves open what types the nodes
carry; for that there are the static rules.
-/

namespace Sulti

/-- The token of an operator. -/
def Op.kind : Op → Token.Kind
  | .arith .add => .plus
  | .arith .sub => .minus
  | .arith .mul => .star
  | .arith .div => .slash
  | .arith .mod => .percent
  | .order .gt => .greater
  | .order .ge => .greaterEqual
  | .order .lt => .less
  | .order .le => .lessEqual
  | .eq => .equalEqual
  | .ne => .notEqual
  | .and => .ug
  | .or => .o

/-- The operators of each level. -/
def Op.Level.operators : Op.Level → List Op
  | .logical => [.and, .or]
  | .relational => [.eq, .ne, .order .gt, .order .ge, .order .lt, .order .le]
  | .additive => [.arith .add, .arith .sub]
  | .multiplicative => [.arith .mul, .arith .div, .arith .mod]

/-- The tokens that are literals. A character can be written in two ways, and the
line break has a sign of its own. -/
inductive Literal.Spelled : Token.Kind → Literal → Prop where
  | int (n : Numero) : Spelled (.int n) (.numero n)
  | real (x : Float) : Spelled (.real x) (.tipik x)
  | char (c : Char) : Spelled (.char c) (.letra c)
  | escaped (c : Char) : Spelled (.escaped c) (.letra c)
  | carriageReturn : Spelled .carriageReturn (.letra '\n')
  | string (s : String) : Spelled (.string s) (.text s)
  | bool (b : Bool) : Spelled (.bool b) (.tinuod b)

namespace Grammar

/-- The nonterminals of expressions, from the loosest to the tightest. -/
inductive Symbol where
  | assignment
  | level (l : Op.Level)
  /-- The operators of a level and their right operands, behind the tree `left`. -/
  | others (l : Op.Level) (left : Expr)
  | unary
  | postfixed
  | primary

/-- What stands between the operators of a level. -/
def Symbol.operand : Op.Level → Symbol
  | .logical => .level .relational
  | .relational => .level .additive
  | .additive => .level .multiplicative
  | .multiplicative => .unary

/-- The zero that a sign stands behind: a real one in front of a real operand. -/
def zeroFor : Ty → Literal
  | .tipik => .tipik 0.0
  | _ => .numero .zero

/-- The assignment that an increment or decrement stands for. The name stands at
`place` and the sign at `position`. -/
def stepped (a : Arith) (ty : Ty) (name : String) (place position : Position) : Expr :=
  .assign ⟨ty, place⟩ name
    (.binary ⟨ty, place⟩ (.arith a) (.var ⟨ty, place⟩ name) (.ofLiteral (.numero .one) position))

/-- `Derives s tokens e`: the grammar derives the tokens from `s`, and they stand for
the tree `e`. -/
inductive Derives : Symbol → List Token → Expr → Prop where
  | store {name equal : Token} {x : String} {ty : Ty} {tokens : List Token} {value : Expr}
      (hn : name.kind = .identifier x) (he : equal.kind = .equal)
      (hv : Derives .assignment tokens value) :
      Derives .assignment (name :: equal :: tokens) (.assign ⟨ty, name.position⟩ x value)
  | logical {tokens : List Token} {e : Expr} (h : Derives (.level .logical) tokens e) :
      Derives .assignment tokens e
  | level {l : Op.Level} {first rest : List Token} {left e : Expr}
      (hf : Derives (.operand l) first left) (hr : Derives (.others l left) rest e) :
      Derives (.level l) (first ++ rest) e
  | none {l : Op.Level} {e : Expr} : Derives (.others l e) [] e
  | operator {l : Op.Level} {op : Op} {token : Token} {ty : Ty} {operand rest : List Token}
      {left right e : Expr} (own : op ∈ l.operators) (ht : token.kind = op.kind)
      (ho : Derives (.operand l) operand right)
      (hr : Derives (.others l (.binary ⟨ty, left.position⟩ op left right)) rest e) :
      Derives (.others l left) (token :: (operand ++ rest)) e
  | not {token : Token} {ty : Ty} {tokens : List Token} {operand : Expr}
      (ht : token.kind = .dili) (ho : Derives .unary tokens operand) :
      Derives .unary (token :: tokens) (.not ⟨ty, token.position⟩ operand)
  | sign {token : Token} {a : Arith} {ty : Ty} {tokens : List Token} {operand : Expr}
      (ht : token.kind = .plus ∧ a = .add ∨ token.kind = .minus ∧ a = .sub)
      (ho : Derives .unary tokens operand) :
      Derives .unary (token :: tokens)
        (.binary ⟨ty, token.position⟩ (.arith a) (.ofLiteral (zeroFor operand.ty) token.position)
          operand)
  | increment {token name : Token} {x : String} {ty : Ty} (ht : token.kind = .plusPlus)
      (hn : name.kind = .identifier x) :
      Derives .unary [token, name] (stepped .add ty x name.position token.position)
  | postfixed {tokens : List Token} {e : Expr} (h : Derives .postfixed tokens e) :
      Derives .unary tokens e
  | step {name token : Token} {x : String} {a : Arith} {ty : Ty}
      (hn : name.kind = .identifier x)
      (ht : token.kind = .plusPlus ∧ a = .add ∨ token.kind = .minusMinus ∧ a = .sub) :
      Derives .postfixed [name, token] (stepped a ty x name.position token.position)
  | primary {tokens : List Token} {e : Expr} (h : Derives .primary tokens e) :
      Derives .postfixed tokens e
  | literal {token : Token} {l : Literal} (h : l.Spelled token.kind) :
      Derives .primary [token] (.ofLiteral l token.position)
  | var {name : Token} {x : String} {ty : Ty} (hn : name.kind = .identifier x) :
      Derives .primary [name] (.var ⟨ty, name.position⟩ x)
  | parentheses {opening closing : Token} {tokens : List Token} {e : Expr}
      (ho : opening.kind = .leftParen) (hc : closing.kind = .rightParen)
      (h : Derives .assignment tokens e) :
      Derives .primary (opening :: (tokens ++ [closing])) e

/-! The tables of the grammar and those that reading goes by. -/

theorem ofKind?_kind (op : Op) : Op.ofKind? op.kind = some op := by
  cases op with
  | arith a => cases a <;> rfl
  | order o => cases o <;> rfl
  | _ => rfl

theorem kind_of_ofKind? {kind : Token.Kind} {op : Op} (h : Op.ofKind? kind = some op) :
    kind = op.kind := by
  unfold Op.ofKind? at h
  split at h <;> cases h <;> rfl

theorem mem_operators {op : Op} {l : Op.Level} : op ∈ l.operators ↔ op.level = l := by
  cases op with
  | arith a => cases a <;> cases l <;> decide
  | order o => cases o <;> cases l <;> decide
  | _ => cases l <;> decide

theorem literal_ofKind? {kind : Token.Kind} {l : Literal} :
    Literal.ofKind? kind = some l ↔ l.Spelled kind := by
  constructor
  · intro h
    cases kind with
    | int n =>
        cases h
        exact .int n
    | real x =>
        cases h
        exact .real x
    | char c =>
        cases h
        exact .char c
    | escaped c =>
        cases h
        exact .escaped c
    | carriageReturn =>
        cases h
        exact .carriageReturn
    | string s =>
        cases h
        exact .string s
    | bool b =>
        cases h
        exact .bool b
    | _ => cases h
  · intro h
    cases h <;> rfl

theorem zeroFor_eq (ty : Ty) :
    (if ty = .tipik then Literal.tipik 0.0 else .numero .zero) = zeroFor ty := by
  cases ty <;> rfl

/-! What derivations look like from outside. -/

namespace Derives

/-- An operand is an operation without operators. -/
theorem single {l : Op.Level} {tokens : List Token} {e : Expr}
    (h : Derives (.operand l) tokens e) : Derives (.level l) tokens e := by
  have whole : Derives (.level l) (tokens ++ []) e := .level h .none
  rwa [List.append_nil] at whole

/-- Behind a tree there is nothing more, or it becomes the left operand of an operation. -/
theorem others_cases {l : Op.Level} {left e : Expr} {tokens : List Token}
    (h : Derives (.others l left) tokens e) :
    tokens = [] ∧ e = left ∨
      (∃ (op : Op) (token : Token) (rest : List Token),
          tokens = token :: rest ∧ token.kind = op.kind ∧ op.level = l) ∧
        ∃ note op a b, e = .binary note op a b := by
  generalize hs : Symbol.others l left = s at h
  induction h generalizing left with
  | none =>
      cases hs
      exact Or.inl ⟨rfl, rfl⟩
  | operator own ht _ _ _ ih =>
      cases hs
      refine Or.inr ⟨⟨_, _, _, rfl, ht, mem_operators.mp own⟩, ?_⟩
      rcases ih rfl with ⟨_, rfl⟩ | ⟨_, binary⟩
      · exact ⟨_, _, _, _, rfl⟩
      · exact binary
  | _ => cases hs

/-- The left operand of an operation that follows the rules does so too. -/
theorem typed_left {table : Table Ty} {l : Op.Level} {left e : Expr} {tokens : List Token}
    (h : Derives (.others l left) tokens e) (typed : e.Typed table) : left.Typed table := by
  generalize hs : Symbol.others l left = s at h
  induction h generalizing left with
  | none =>
      cases hs
      exact typed
  | operator _ _ _ _ _ ih =>
      cases hs
      cases ih typed rfl with
      | binary hl _ _ => exact hl
  | _ => cases hs

/-- The tokens of a variable are its name, or they stand in parentheses. -/
theorem var_cases {s : Symbol} {tokens : List Token} {note : Note} {x : String}
    (h : Derives s tokens (.var note x)) (whole : ∀ l left, s ≠ .others l left) :
    (∃ name, tokens = [name] ∧ name.kind = .identifier x ∧ note.position = name.position) ∨
      ∃ opening inner closing, tokens = opening :: (inner ++ [closing]) ∧
        opening.kind = .leftParen := by
  generalize he : Expr.var note x = e at h
  induction h with
  | logical _ ih => exact ih nofun he
  | @level l front back left e hf hr ihf ihr =>
      subst he
      rcases others_cases hr with ⟨rfl, rfl⟩ | ⟨_, _, _, _, _, binary⟩
      · have inner : ∀ l' left, Symbol.operand l ≠ .others l' left := by
          cases l <;> exact nofun
        rw [List.append_nil]
        exact ihf inner rfl
      · cases binary
  | none => exact absurd rfl (whole _ _)
  | operator => exact absurd rfl (whole _ _)
  | postfixed _ ih => exact ih nofun he
  | primary _ ih => exact ih nofun he
  | var hn =>
      cases he
      exact Or.inl ⟨_, rfl, hn, rfl⟩
  | parentheses ho _ _ _ => exact Or.inr ⟨_, _, _, rfl, ho⟩
  | _ => cases he

/-- Nothing is derived from no tokens, but that nothing follows a tree. -/
theorem nonempty {s : Symbol} {tokens : List Token} {e : Expr} (h : Derives s tokens e)
    (whole : ∀ l left, s ≠ .others l left) : tokens ≠ [] := by
  induction h with
  | logical _ ih => exact ih nofun
  | @level l front back left e hf hr ihf ihr =>
      have front : front ≠ [] := by
        apply ihf
        cases l <;> exact nofun
      simp [front]
  | none => exact absurd rfl (whole _ _)
  | postfixed _ ih => exact ih nofun
  | primary _ ih => exact ih nofun
  | _ => simp

/-- An operand without prefix operators starts with none of their tokens. -/
theorem postfixed_head {s : Symbol} {tokens : List Token} {e : Expr} (h : Derives s tokens e)
    (hs : s = .postfixed ∨ s = .primary) :
    ∃ first rest, tokens = first :: rest ∧ first.kind ≠ .dili ∧ first.kind ≠ .plus ∧
      first.kind ≠ .minus ∧ first.kind ≠ .plusPlus := by
  induction h with
  | step hn _ => exact ⟨_, _, rfl, by simp [hn]⟩
  | primary _ ih => exact ih (Or.inr rfl)
  | @literal token l h =>
      refine ⟨token, [], rfl, ?_⟩
      generalize token.kind = kind at h
      cases h <;> simp
  | var hn => exact ⟨_, _, rfl, by simp [hn]⟩
  | parentheses ho _ _ _ => exact ⟨_, _, rfl, by simp [ho]⟩
  | _ => simp at hs

end Derives

end Grammar

end Sulti
