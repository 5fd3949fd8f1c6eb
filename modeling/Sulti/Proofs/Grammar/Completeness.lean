import Sulti.Proofs.Grammar.Soundness

/-!
What the grammar derives is read. If tokens stand for a tree that follows the
static rules, a reader that is given enough room makes that tree and stops
behind the tokens, wherever the token that follows them cannot be taken into
it. Together with the other direction this says which lists of tokens are
expressions, and that each of them is only one.
-/

namespace Sulti

/-- Where a level stands among the levels, the loosest first. -/
def Op.Level.rank : Op.Level → Nat
  | .logical => 0
  | .relational => 1
  | .additive => 2
  | .multiplicative => 3

theorem Op.result_of_types {op : Op} {left right ty : Ty} (h : op.Types left right ty) :
    op.result left right = .ok ty := by
  cases h with
  | integers a => rfl
  | realLeft a hr => cases right <;> cases hr <;> rfl
  | realRight a hl => cases left <;> cases hl <;> rfl
  | numbers o hl hr => cases left <;> cases hl <;> cases right <;> cases hr <;> rfl
  | letters o => rfl
  | eq h => cases left <;> cases right <;> cases h <;> rfl
  | ne h => cases left <;> cases right <;> cases h <;> rfl
  | and => rfl
  | or => rfl

namespace Grammar

/-- A token that is no increment or decrement, which would belong to an operand before it. -/
def NoStep (kind : Token.Kind) : Prop := kind ≠ .plusPlus ∧ kind ≠ .minusMinus

/-- The tokens that may follow what is derived from a symbol without being taken into it. -/
def Symbol.EndsAt : Symbol → Token.Kind → Prop
  | .assignment, kind => NoStep kind ∧ kind ≠ .equal ∧ Op.ofKind? kind = none
  | .level l, kind | .others l _, kind =>
      NoStep kind ∧ ∀ op, Op.ofKind? kind = some op → op.level.rank < l.rank
  | .unary, kind | .postfixed, kind => NoStep kind
  | .primary, _ => True

/-- In front of such a token the reader takes exactly the tokens and makes the tree. -/
def Accepts (table : Table Ty) (p : Parse Expr) (ends : Token.Kind → Prop) (tokens : List Token)
    (e : Expr) : Prop :=
  ∀ rest stop, ends (Cursor.next ⟨rest, stop, table⟩).kind →
    p ⟨tokens ++ rest, stop, table⟩ = .ok (e, ⟨rest, stop, table⟩)

section

variable {table : Table Ty} {ex : Parse Expr}

theorem demand_of_compatible {expected : Ty} {e : Expr} (h : expected.compatible e.ty = true)
    (c : Cursor) : demand expected e c = .ok ((), c) := by
  simp only [demand, Ty.demand, h]
  rfl

theorem demandNumeric_of_isNumeric {e : Expr} (h : e.ty.isNumeric = true) (c : Cursor) :
    demandNumeric e c = .ok ((), c) := by
  simp only [demandNumeric, Ty.demandNumeric, h]
  rfl

/-! One lemma for each production. -/

theorem accepts_literal {token : Token} {l : Literal} (h : l.Spelled token.kind) :
    Accepts table (primary ex) (fun _ => True) [token] (.ofLiteral l token.position) := by
  intro rest stop _
  obtain ⟨kind, lexeme, position⟩ := token
  cases h <;> rfl

theorem accepts_var {token : Token} {x : String} {ty : Ty} (hk : token.kind = .identifier x)
    (found : table.find? x = some ty) :
    Accepts table (primary ex) (fun _ => True) [token] (.var ⟨ty, token.position⟩ x) := by
  intro rest stop _
  obtain ⟨kind, lexeme, position⟩ := token
  cases hk
  refine (bind_of_ok (p := peek) rfl).trans ?_
  refine (bind_of_ok (p := advance) rfl).trans ((bind_of_ok (p := names) rfl).trans ?_)
  simp only [Cursor.forward, found]
  rfl

theorem accepts_parentheses {opening closing : Token} {tokens : List Token} {e : Expr}
    (ho : opening.kind = .leftParen) (hc : closing.kind = .rightParen)
    (h : Accepts table ex (Symbol.EndsAt .assignment) tokens e) :
    Accepts table (primary ex) (fun _ => True) (opening :: (tokens ++ [closing])) e := by
  intro rest stop _
  have inner := h (closing :: rest) stop
    (by simp [Symbol.EndsAt, NoStep, Cursor.next, hc, Op.ofKind?])
  obtain ⟨kind, lexeme, position⟩ := opening
  cases ho
  refine (bind_of_ok (p := peek) rfl).trans ((bind_of_ok (p := advance) rfl).trans ?_)
  simp only [Cursor.forward, List.cons_append, List.append_assoc, List.tail_cons, List.nil_append]
  rw [bind_of_ok inner]
  exact bind_of_ok (expect_of_kind (c := ⟨closing :: rest, stop, table⟩) hc)

/-- A single token was read. -/
theorem isOnePast_singleton (token : Token) (rest : List Token) (stop : Position)
    (table : Table Ty) :
    Cursor.isOnePast ⟨rest, stop, table⟩ ⟨[token] ++ rest, stop, table⟩ = true :=
  beq_self_eq_true _

theorem accepts_postfixed {tokens : List Token} {e : Expr}
    (h : Accepts table (primary ex) (fun _ => True) tokens e) :
    Accepts table (postfixed ex) NoStep tokens e := by
  intro rest stop follows
  refine (measured_bind_of_ok (h rest stop trivial)).trans ?_
  refine (bind_of_ok (p := peek) rfl).trans ?_
  generalize Cursor.next ⟨rest, stop, table⟩ = token at follows
  obtain ⟨kind, lexeme, position⟩ := token
  cases kind with
  | plusPlus => exact absurd rfl follows.1
  | minusMinus => exact absurd rfl follows.2
  | _ => rfl

/-- The assignment that `++` or `--` stands for is made of a numeric variable. -/
theorem increment_eq {x : String} {ty : Ty} (numeric : ty.isNumeric = true) (a : Arith)
    (place position : Position) (c : Cursor) :
    increment true (.var ⟨ty, place⟩ x) a position c =
      .ok (stepped a ty x place position, c) := by
  refine (bind_of_ok (p := bareName _ _ _) (a := x) (d := c) rfl).trans ?_
  exact bind_of_ok (demandNumeric_of_isNumeric (e := .var ⟨ty, place⟩ x) numeric c)

theorem accepts_step {name token : Token} {x : String} {a : Arith} {ty : Ty}
    (hn : name.kind = .identifier x)
    (ht : token.kind = .plusPlus ∧ a = .add ∨ token.kind = .minusMinus ∧ a = .sub)
    (found : table.find? x = some ty) (numeric : ty.isNumeric = true) :
    Accepts table (postfixed ex) NoStep [name, token]
      (stepped a ty x name.position token.position) := by
  intro rest stop _
  have inner : primary ex ⟨[name] ++ token :: rest, stop, table⟩ =
      .ok (.var ⟨ty, name.position⟩ x, ⟨token :: rest, stop, table⟩) :=
    accepts_var hn found (token :: rest) stop trivial
  refine (measured_bind_of_ok inner).trans ?_
  rw [isOnePast_singleton]
  obtain ⟨kind, lexeme, position⟩ := token
  rcases ht with ⟨ht, rfl⟩ | ⟨ht, rfl⟩
  · cases ht
    exact increment_eq numeric .add name.position position ⟨rest, stop, table⟩
  · cases ht
    exact increment_eq numeric .sub name.position position ⟨rest, stop, table⟩

theorem accepts_unary {k : Nat} {tokens : List Token} {e : Expr}
    (head : ∃ first rest, tokens = first :: rest ∧ first.kind ≠ .dili ∧ first.kind ≠ .plus ∧
      first.kind ≠ .minus ∧ first.kind ≠ .plusPlus)
    (h : Accepts table (postfixed (expression k)) NoStep tokens e) :
    Accepts table (unary (k + 1)) NoStep tokens e := by
  intro rest stop follows
  have read := h rest stop follows
  obtain ⟨⟨kind, lexeme, position⟩, others, rfl, dili, plus, minus, plusPlus⟩ := head
  cases kind with
  | dili => exact absurd rfl dili
  | plus => exact absurd rfl plus
  | minus => exact absurd rfl minus
  | plusPlus => exact absurd rfl plusPlus
  | _ => exact read

theorem accepts_not {k : Nat} {token : Token} {tokens : List Token} {operand : Expr}
    (ht : token.kind = .dili) (h : Accepts table (unary k) NoStep tokens operand)
    (truth : operand.ty = .tinuod) :
    Accepts table (unary (k + 1)) NoStep (token :: tokens)
      (.not ⟨.tinuod, token.position⟩ operand) := by
  intro rest stop follows
  obtain ⟨kind, lexeme, position⟩ := token
  cases ht
  have fits : Ty.compatible .tinuod operand.ty = true := by rw [truth]; rfl
  refine (bind_of_ok (p := peek) rfl).trans ((bind_of_ok (p := advance) rfl).trans ?_)
  refine (bind_of_ok (h rest stop follows)).trans ?_
  rw [bind_of_ok (demand_of_compatible fits _), truth]
  rfl

theorem accepts_sign {k : Nat} {token : Token} {a : Arith} {tokens : List Token} {operand : Expr}
    (ht : token.kind = .plus ∧ a = .add ∨ token.kind = .minus ∧ a = .sub)
    (h : Accepts table (unary k) NoStep tokens operand) (numeric : operand.ty.isNumeric = true) :
    Accepts table (unary (k + 1)) NoStep (token :: tokens)
      (.binary ⟨operand.ty, token.position⟩ (.arith a)
        (.ofLiteral (zeroFor operand.ty) token.position) operand) := by
  intro rest stop follows
  have signed_eq (position : Position) : signed a operand position ⟨rest, stop, table⟩ =
      .ok (.binary ⟨operand.ty, position⟩ (.arith a)
        (.ofLiteral (zeroFor operand.ty) position) operand, ⟨rest, stop, table⟩) := by
    rw [signed, bind_of_ok (demandNumeric_of_isNumeric numeric _), zeroFor_eq]
    rfl
  obtain ⟨kind, lexeme, position⟩ := token
  rcases ht with ⟨ht, rfl⟩ | ⟨ht, rfl⟩
  · cases ht
    refine (bind_of_ok (p := peek) rfl).trans ((bind_of_ok (p := advance) rfl).trans ?_)
    exact (bind_of_ok (h rest stop follows)).trans (signed_eq position)
  · cases ht
    refine (bind_of_ok (p := peek) rfl).trans ((bind_of_ok (p := advance) rfl).trans ?_)
    exact (bind_of_ok (h rest stop follows)).trans (signed_eq position)

theorem accepts_increment {k : Nat} {token name : Token} {x : String} {ty : Ty}
    (ht : token.kind = .plusPlus)
    (h : Accepts table (unary k) NoStep [name] (.var ⟨ty, name.position⟩ x))
    (numeric : ty.isNumeric = true) :
    Accepts table (unary (k + 1)) NoStep [token, name]
      (stepped .add ty x name.position token.position) := by
  intro rest stop follows
  obtain ⟨kind, lexeme, position⟩ := token
  cases ht
  refine (bind_of_ok (p := peek) rfl).trans ((bind_of_ok (p := advance) rfl).trans ?_)
  refine (measured_bind_of_ok (h rest stop follows)).trans ?_
  rw [isOnePast_singleton]
  exact increment_eq numeric .add name.position position _

/-- Operators of a level end at a token that is none of them. -/
theorem accepts_none {l : Op.Level} {operand : Parse Expr} {m : Nat} (left : Expr) :
    Accepts table (chain l operand (m + 1) left) (Symbol.EndsAt (.level l)) [] left := by
  intro rest stop follows
  rw [chain]
  refine (bind_of_ok (p := peek) rfl).trans ?_
  obtain ⟨_, looser⟩ := follows
  dsimp only [List.nil_append]
  cases hop : Op.ofKind? (Cursor.next ⟨rest, stop, table⟩).kind with
  | none => rfl
  | some op =>
      have other : op.level ≠ l := by
        intro same
        have rank := looser op hop
        rw [same] at rank
        exact Nat.lt_irrefl _ rank
      dsimp only
      rw [if_neg other]
      rfl

/-- What may follow an operand: another operator of its level, or what may follow all
operations of that level. -/
theorem operand_endsAt {l : Op.Level} {kind : Token.Kind} (step : NoStep kind)
    (h : ∀ op, Op.ofKind? kind = some op → op.level.rank ≤ l.rank) :
    (Symbol.operand l).EndsAt kind := by
  cases l with
  | multiplicative => exact step
  | _ => exact ⟨step, fun op hop => Nat.lt_succ_of_le (h op hop)⟩

theorem noStep_kind (op : Op) : NoStep op.kind := by
  cases op with
  | arith a => cases a <;> exact ⟨nofun, nofun⟩
  | order o => cases o <;> exact ⟨nofun, nofun⟩
  | _ => exact ⟨nofun, nofun⟩

/-- The token behind an operand is an operator of the level or one that ends it. -/
theorem operand_endsAt_next {l : Op.Level} {left e : Expr} {tokens : List Token}
    (h : Derives (.others l left) tokens e) {rest : List Token} {stop : Position}
    (follows : Symbol.EndsAt (.level l) (Cursor.next ⟨rest, stop, table⟩).kind) :
    (Symbol.operand l).EndsAt (Cursor.next ⟨tokens ++ rest, stop, table⟩).kind := by
  obtain ⟨step, looser⟩ := follows
  rcases h.others_cases with ⟨rfl, _⟩ | ⟨⟨op, token, others, rfl, kind, own⟩, _⟩
  · exact operand_endsAt step fun op hop => Nat.le_of_lt (looser op hop)
  · change (Symbol.operand l).EndsAt token.kind
    rw [kind]
    apply operand_endsAt (noStep_kind op)
    intro op' hop
    rw [ofKind?_kind] at hop
    cases hop
    exact Nat.le_of_eq (congrArg _ own)

/-- An operator of the level takes what follows as its right operand. -/
theorem chain_of_operator {l : Op.Level} {operand : Parse Expr} {m : Nat} {left : Expr}
    {c : Cursor} {op : Op} (hop : Op.ofKind? c.next.kind = some op) (own : op.level = l) :
    chain l operand (m + 1) left c =
      (do
        let right ← operand
        let ty ← checked c.next.position (op.result left.ty right.ty)
        chain l operand m (.binary ⟨ty, left.position⟩ op left right) : Parse Expr) c.forward := by
  rw [chain]
  refine (bind_of_ok (p := peek) rfl).trans ?_
  simp only [hop, if_pos own]
  rfl

theorem accepts_operator {l : Op.Level} {operand : Parse Expr} {m : Nat} {op : Op} {token : Token}
    {tokens others : List Token} {ty : Ty} {left right e : Expr} (own : op ∈ l.operators)
    (ht : token.kind = op.kind)
    (ho : Accepts table operand (Symbol.EndsAt (.operand l)) tokens right)
    (types : op.Types left.ty right.ty ty)
    (derived : Derives (.others l (.binary ⟨ty, left.position⟩ op left right)) others e)
    (hr : Accepts table (chain l operand m (.binary ⟨ty, left.position⟩ op left right))
      (Symbol.EndsAt (.level l)) others e) :
    Accepts table (chain l operand (m + 1) left) (Symbol.EndsAt (.level l))
      (token :: (tokens ++ others)) e := by
  intro rest stop follows
  have between : (Symbol.operand l).EndsAt (Cursor.next ⟨others ++ rest, stop, table⟩).kind :=
    operand_endsAt_next derived follows
  have read := ho (others ++ rest) stop between
  let c : Cursor := ⟨token :: (tokens ++ (others ++ rest)), stop, table⟩
  have hop : Op.ofKind? c.next.kind = some op := by
    change Op.ofKind? token.kind = some op
    rw [ht, ofKind?_kind]
  rw [List.cons_append, List.append_assoc]
  refine (chain_of_operator hop (mem_operators.mp own)).trans ((bind_of_ok read).trans ?_)
  rw [Op.result_of_types types]
  exact hr rest stop follows

theorem accepts_level {l : Op.Level} {operand : Parse Expr} {n : Nat} {first others : List Token}
    {left e : Expr} (hf : Accepts table operand (Symbol.EndsAt (.operand l)) first left)
    (derived : Derives (.others l left) others e)
    (hr : Accepts table (chain l operand n left) (Symbol.EndsAt (.level l)) others e) :
    Accepts table (leftAssociative l operand n) (Symbol.EndsAt (.level l)) (first ++ others) e := by
  intro rest stop follows
  have read := hf (others ++ rest) stop (operand_endsAt_next derived follows)
  rw [List.append_assoc, leftAssociative, bind_of_ok read]
  exact hr rest stop follows

/-- A token that may follow the operations of the loosest level and is no equals sign
ends an assignment. -/
theorem accepts_logical {unary : Parse Expr} {n : Nat} {tokens : List Token} {e : Expr}
    (h : Accepts table (operation unary (n + 1)) (Symbol.EndsAt (.level .logical)) tokens e) :
    Accepts table (assignment unary (n + 1)) (Symbol.EndsAt .assignment) tokens e := by
  intro rest stop follows
  obtain ⟨step, equal, none⟩ := follows
  have ends : Symbol.EndsAt (.level .logical) (Cursor.next ⟨rest, stop, table⟩).kind := by
    refine ⟨step, fun op hop => ?_⟩
    rw [none] at hop
    cases hop
  rw [assignment]
  refine (measured_bind_of_ok (h rest stop ends)).trans ?_
  refine (bind_of_ok (p := peek) rfl).trans ?_
  rw [if_neg equal]
  rfl

theorem accepts_store {unary : Parse Expr} {n : Nat} {name equal : Token} {x : String} {ty : Ty}
    {tokens : List Token} {value : Expr} (he : equal.kind = .equal)
    (ht : Accepts table (operation unary (n + 1)) (Symbol.EndsAt (.level .logical)) [name]
      (.var ⟨ty, name.position⟩ x))
    (hv : Accepts table (assignment unary n) (Symbol.EndsAt .assignment) tokens value)
    (fits : ty.compatible value.ty = true) :
    Accepts table (assignment unary (n + 1)) (Symbol.EndsAt .assignment)
      (name :: equal :: tokens) (.assign ⟨ty, name.position⟩ x value) := by
  intro rest stop follows
  have ends : Symbol.EndsAt (.level .logical) equal.kind := by
    rw [he]
    exact ⟨⟨nofun, nofun⟩, nofun⟩
  have target := ht (equal :: (tokens ++ rest)) stop ends
  have bare : bareName true (.var ⟨ty, name.position⟩ x) equal.position
      ⟨tokens ++ rest, stop, table⟩ = .ok (x, ⟨tokens ++ rest, stop, table⟩) := rfl
  have sign : (Cursor.next ⟨equal :: (tokens ++ rest), stop, table⟩).kind = .equal := he
  have demanded := demand_of_compatible (e := value) fits ⟨rest, stop, table⟩
  rw [assignment]
  refine (measured_bind_of_ok target).trans ?_
  refine (bind_of_ok (p := peek) rfl).trans ?_
  rw [if_pos sign, isOnePast_singleton]
  refine (bind_of_ok (p := advance) rfl).trans ((bind_of_ok bare).trans ?_)
  exact (bind_of_ok (hv rest stop follows)).trans (bind_of_ok demanded)

end

/-! From the productions to all derivations. -/

/-- The reader of what stands between the operators of a level. -/
def operandReader (unary : Parse Expr) (n : Nat) : Op.Level → Parse Expr
  | .multiplicative => unary
  | .additive => leftAssociative .multiplicative unary n
  | .relational => leftAssociative .additive (leftAssociative .multiplicative unary n) n
  | .logical =>
      leftAssociative .relational
        (leftAssociative .additive (leftAssociative .multiplicative unary n) n) n

/-- The reader of each symbol. The numbers bound the nesting of operands, the lists of
operators, and what is left of such a list. -/
def Symbol.reader (k n m : Nat) : Symbol → Parse Expr
  | .assignment => Grammar.assignment (Grammar.unary k) n
  | .level l => leftAssociative l (operandReader (Grammar.unary k) n l) n
  | .others l left => chain l (operandReader (Grammar.unary k) n l) m left
  | .unary => Grammar.unary k
  | .postfixed => Grammar.postfixed (expression (k - 1))
  | .primary => Grammar.primary (expression (k - 1))

/-- With bounds that the tokens do not reach, the reader of the symbol accepts them. -/
def Reads (table : Table Ty) (s : Symbol) (tokens : List Token) (e : Expr) : Prop :=
  ∀ k n m, tokens.length ≤ k → tokens.length ≤ n → tokens.length < m →
    Accepts table (s.reader k n m) s.EndsAt tokens e

section

variable {table : Table Ty} {tokens : List Token} {e : Expr}

theorem reader_operand (l : Op.Level) (k n m : Nat) :
    (Symbol.operand l).reader k n m = operandReader (unary k) n l := by
  cases l <;> rfl

theorem Reads.operand {l : Op.Level} (h : Reads table (.operand l) tokens e) {k n : Nat}
    (hk : tokens.length ≤ k) (hn : tokens.length ≤ n) :
    Accepts table (operandReader (unary k) n l) (Symbol.EndsAt (.operand l)) tokens e := by
  rw [← reader_operand l k n (tokens.length + 1)]
  exact h k n _ hk hn (Nat.lt_succ_self _)

theorem Reads.postfixed (h : Reads table .primary tokens e) : Reads table .postfixed tokens e :=
  fun k n m hk hn hm => accepts_postfixed (h k n m hk hn hm)

theorem Reads.unary (derived : Derives .postfixed tokens e)
    (h : Reads table .postfixed tokens e) : Reads table .unary tokens e := by
  intro k n m hk hn hm
  have nonempty := List.length_pos_iff.mpr (derived.nonempty nofun)
  obtain ⟨k, rfl⟩ : ∃ j, k = j + 1 := ⟨k - 1, by omega⟩
  exact accepts_unary (derived.postfixed_head (Or.inl rfl)) (h (k + 1) n m hk hn hm)

/-- What is read as an operand of a level is read as an operation of it. -/
theorem Reads.level {l : Op.Level} (derived : Derives (.operand l) tokens e)
    (h : Reads table (.operand l) tokens e) : Reads table (.level l) tokens e := by
  intro k n m hk hn hm
  have nonempty : tokens.length ≠ 0 := by
    rw [Ne, List.length_eq_zero_iff]
    apply derived.nonempty
    cases l <;> exact nofun
  obtain ⟨n, rfl⟩ : ∃ j, n = j + 1 := ⟨n - 1, by omega⟩
  have whole := accepts_level (h.operand hk hn) .none (accepts_none (m := n) e)
  rwa [List.append_nil] at whole

/-- A variable is an operand of every level. -/
theorem reads_var {token : Token} {x : String} {ty : Ty} (hk : token.kind = .identifier x)
    (found : table.find? x = some ty) :
    Reads table .unary [token] (.var ⟨ty, token.position⟩ x) ∧
      Reads table (.level .logical) [token] (.var ⟨ty, token.position⟩ x) := by
  have primary : Reads table .primary [token] (.var ⟨ty, token.position⟩ x) :=
    fun k n m _ _ _ => accepts_var hk found
  have derived : Derives .postfixed [token] (.var ⟨ty, token.position⟩ x) := .primary (.var hk)
  have operand := primary.postfixed.unary derived
  have unary : Derives (.operand .multiplicative) [token] (.var ⟨ty, token.position⟩ x) :=
    .postfixed derived
  have product := Reads.level unary operand
  have sum := Reads.level (l := .additive) (.single unary) product
  have relation := Reads.level (l := .relational) (.single (.single unary)) sum
  exact ⟨operand, Reads.level (l := .logical) (.single (.single (.single unary))) relation⟩

/-- The operand of a sign is numeric and gives the operation its type. -/
theorem types_sign {a : Arith} {operand ty : Ty}
    (h : (Op.arith a).Types (zeroFor operand).ty operand ty) :
    operand.isNumeric = true ∧ ty = operand := by
  cases operand with
  | numero =>
      generalize hz : (zeroFor .numero).ty = zero at h
      cases hz
      cases h
      exact ⟨rfl, rfl⟩
  | tipik =>
      generalize hz : (zeroFor .tipik).ty = zero at h
      cases hz
      cases h <;> exact ⟨rfl, rfl⟩
  | _ =>
      generalize hz : (zeroFor _).ty = zero at h
      cases hz
      cases h

theorem stepped_typed {a : Arith} {ty : Ty} {x : String} {place position : Position}
    (typed : (stepped a ty x place position).Typed table) :
    table.find? x = some ty ∧ ty.isNumeric = true := by
  cases typed with
  | assign found value _ =>
      refine ⟨found, ?_⟩
      cases value with
      | binary _ _ types =>
          change (Op.arith a).Types ty .numero ty at types
          cases types with
          | integers => rfl
          | realLeft => rfl

/-- What the grammar derives and the static rules allow is read. -/
theorem Derives.reads {s : Symbol} (h : Derives s tokens e) (typed : e.Typed table) :
    Reads table s tokens e := by
  induction h with
  | @store name equal x ty tokens value hn he hv ih =>
      cases typed with
      | assign found inner fits =>
          intro k n m hk hl hm
          simp only [List.length_cons] at hk hl hm
          obtain ⟨n, rfl⟩ : ∃ j, n = j + 1 := ⟨n - 1, by omega⟩
          have target := (reads_var hn found).2 k (n + 1) 2 (by simp; omega) (by simp) (by simp)
          exact accepts_store he target
            (ih inner k n m (by omega) (by omega) (by omega)) fits
  | @logical tokens e h ih =>
      intro k n m hk hl hm
      have nonempty := List.length_pos_iff.mpr (h.nonempty nofun)
      obtain ⟨n, rfl⟩ : ∃ j, n = j + 1 := ⟨n - 1, by omega⟩
      exact accepts_logical (ih typed k (n + 1) m hk hl hm)
  | @level l first rest left e hf hr ihf ihr =>
      intro k n m hk hl hm
      simp only [List.length_append] at hk hl hm
      have nonempty : first.length ≠ 0 := by
        rw [Ne, List.length_eq_zero_iff]
        apply hf.nonempty
        cases l <;> exact nofun
      have operand := (ihf (hr.typed_left typed)).operand (k := k) (n := n) (by omega) (by omega)
      have others := ihr typed k n n (by omega) (by omega) (by omega)
      exact accepts_level operand hr others
  | none =>
      intro k n m _ _ hm
      obtain ⟨m, rfl⟩ : ∃ j, m = j + 1 := ⟨m - 1, by omega⟩
      exact accepts_none _
  | @operator l op token ty tokens rest left right e own ht ho hr iho ihr =>
      intro k n m hk hl hm
      simp only [List.length_cons, List.length_append] at hk hl hm
      obtain ⟨m, rfl⟩ : ∃ j, m = j + 1 := ⟨m - 1, by omega⟩
      have others := ihr typed k n m (by omega) (by omega) (by omega)
      cases hr.typed_left typed with
      | binary _ inner types =>
          have operand := (iho inner).operand (k := k) (n := n) (by omega) (by omega)
          exact accepts_operator own ht operand types hr others
  | @not token ty tokens operand ht ho ih =>
      intro k n m hk hl hm
      simp only [List.length_cons] at hk hl hm
      obtain ⟨k, rfl⟩ : ∃ j, k = j + 1 := ⟨k - 1, by omega⟩
      cases typed with
      | not inner truth own =>
          cases own
          exact accepts_not ht (ih inner k n m (by omega) (by omega) (by omega)) truth
  | @sign token a ty tokens operand ht ho ih =>
      intro k n m hk hl hm
      simp only [List.length_cons] at hk hl hm
      obtain ⟨k, rfl⟩ : ∃ j, k = j + 1 := ⟨k - 1, by omega⟩
      cases typed with
      | binary _ inner types =>
          obtain ⟨numeric, same⟩ := types_sign types
          cases same
          exact accepts_sign ht (ih inner k n m (by omega) (by omega) (by omega)) numeric
  | @increment token name x ty ht hn =>
      intro k n m hk hl hm
      simp only [List.length_cons, List.length_nil] at hk
      obtain ⟨k, rfl⟩ : ∃ j, k = j + 1 := ⟨k - 1, by omega⟩
      obtain ⟨found, numeric⟩ := stepped_typed typed
      have operand := (reads_var hn found).1 k 1 2 (by simp; omega) (by simp) (by simp)
      exact accepts_increment ht operand numeric
  | postfixed h ih => exact (ih typed).unary h
  | step hn ht =>
      intro k n m _ _ _
      obtain ⟨found, numeric⟩ := stepped_typed typed
      exact accepts_step hn ht found numeric
  | primary h ih => exact (ih typed).postfixed
  | literal h => exact fun k n m _ _ _ => accepts_literal h
  | var hn =>
      cases typed with
      | var found => exact fun k n m _ _ _ => accepts_var hn found
  | @parentheses opening closing tokens e ho hc h ih =>
      intro k n m hk hl hm
      simp only [List.length_cons, List.length_append, List.length_nil] at hk
      exact accepts_parentheses ho hc (ih typed (k - 1) (k - 1) k (by omega) (by omega) (by omega))

/-- Tokens that stand for an expression are read as that expression, in front of any
token that cannot go on with it. -/
theorem Derives.expression_eq (h : Derives .assignment tokens e) (typed : e.Typed table)
    {fuel : Nat} (enough : tokens.length ≤ fuel) {rest : List Token} {stop : Position}
    (ends : Symbol.EndsAt .assignment (Cursor.next ⟨rest, stop, table⟩).kind) :
    expression fuel ⟨tokens ++ rest, stop, table⟩ = .ok (e, ⟨rest, stop, table⟩) :=
  h.reads typed fuel fuel (tokens.length + 1) enough enough (Nat.lt_succ_self _) rest stop ends

end

/-- Tokens in front of others, none of which is an end mark. -/
theorem ofTokens_append (table : Table Ty) {tokens : List Token}
    (inside : ∀ token ∈ tokens, token.kind ≠ .eof) (next : Token) (more : List Token) :
    Cursor.ofTokens table (tokens ++ next :: more) =
      ⟨tokens ++ (Cursor.ofTokens table (next :: more)).ahead,
        (Cursor.ofTokens table (next :: more)).stop, table⟩ := by
  induction tokens with
  | nil => rfl
  | cons token tokens ih =>
      obtain ⟨own, others⟩ := List.forall_mem_cons.mp inside
      have differs : (token.kind == .eof) = false := by simpa using own
      have rest := ih others
      simp only [Cursor.ofTokens, Cursor.mk.injEq] at rest ⊢
      obtain ⟨ahead, stop, _⟩ := rest
      refine ⟨?_, ?_, trivial⟩
      · simp [own, ahead]
      · rw [← stop, List.cons_append, List.find?_cons, differs]
        simp [List.getLast?_cons]

/-- An expression that does not start at a line break is no blank. -/
theorem ReadsExpr.of_first {c d : Cursor} {e : Expr} (h : ReadsExpr c e d)
    (first : c.next.kind ≠ .newline) : e.Typed c.table := by
  cases h with
  | typed typed _ => exact typed
  | blank newline => exact absurd newline first

/-- Reading an expression accepts the tokens of the grammar and no others: in front of a
token that cannot go on with it, a list of tokens within a line is read to its end as the
tree `e` exactly if it stands for `e` and `e` follows the static rules. There is at most
one such tree. -/
theorem expression_iff (table : Table Ty) (declarable : table.AllDeclarable) (tokens : List Token)
    (nonempty : tokens ≠ [])
    (inside : ∀ token ∈ tokens, token.kind ≠ .newline ∧ token.kind ≠ .eof)
    (next : Token) (more : List Token)
    (ends : (∀ op : Op, next.kind ≠ op.kind) ∧ next.kind ≠ .equal ∧ next.kind ≠ .plusPlus ∧
      next.kind ≠ .minusMinus)
    (fuel : Nat) (enough : tokens.length ≤ fuel) :
    (∀ e, expression fuel (.ofTokens table (tokens ++ next :: more)) =
          .ok (e, .ofTokens table (next :: more)) ↔
        Derives .assignment tokens e ∧ e.Typed table) ∧
      ∀ e e', Derives .assignment tokens e ∧ e.Typed table →
        Derives .assignment tokens e' ∧ e'.Typed table → e = e' := by
  obtain ⟨noOperator, equal, plusPlus, minusMinus⟩ := ends
  have inner : ∀ token ∈ tokens, token.kind ≠ .eof := fun token member => (inside token member).2
  let behind : Cursor := .ofTokens table (next :: more)
  have stops : Symbol.EndsAt .assignment behind.next.kind := by
    by_cases eof : next.kind = .eof
    · have none : behind.ahead = [] := by simp [behind, Cursor.ofTokens, eof]
      rw [next_kind_of_ahead_nil none]
      exact ⟨⟨nofun, nofun⟩, nofun, rfl⟩
    · have first : behind.next = next := by simp [behind, Cursor.ofTokens, Cursor.next, eof]
      rw [first]
      refine ⟨⟨plusPlus, minusMinus⟩, equal, ?_⟩
      cases hop : Op.ofKind? next.kind with
      | none => rfl
      | some op => exact absurd (kind_of_ofKind? hop) (noOperator op)
  have iff (e : Expr) :
      expression fuel ⟨tokens ++ behind.ahead, behind.stop, table⟩ = .ok (e, behind) ↔
        Derives .assignment tokens e ∧ e.Typed table := by
    constructor
    · intro h
      have typed : e.Typed table := by
        apply (reader_expression fuel _ declarable e behind h).of_first
        cases tokens with
        | nil => exact absurd rfl nonempty
        | cons token tokens => exact (inside token (by simp)).1
      obtain ⟨used, ahead, derived⟩ := spelling_expression fuel _ e behind h typed
      rw [List.append_cancel_right ahead]
      exact ⟨derived, typed⟩
    · rintro ⟨derived, typed⟩
      have stops' : Symbol.EndsAt .assignment
          (Cursor.next ⟨behind.ahead, behind.stop, table⟩).kind := stops
      exact derived.expression_eq typed enough stops'
  rw [ofTokens_append table inner]
  refine ⟨iff, ?_⟩
  intro e e' h h'
  have same := ((iff e).mpr h).symm.trans ((iff e').mpr h')
  cases same
  rfl

/-- The negation of an increment is stored: `x = -x++`. -/
theorem expression_iff_negated :
    let token (kind : Token.Kind) (lexeme : String) : Token := ⟨kind, lexeme, .start⟩
    let tokens := [token (.identifier "x") "x", token .equal "=", token .minus "-",
      token (.identifier "x") "x", token .plusPlus "++"]
    let table := Table.empty.insert "x" .numero
    ∃ e, expression 5 (.ofTokens table (tokens ++ [token .newline ""])) =
        .ok (e, .ofTokens table [token .newline ""]) ∧
      Derives .assignment tokens e ∧ e.Typed table := by
  intro token tokens table
  have declarable : table.AllDeclarable := Table.allDeclarable_empty.insert "x" trivial
  have ends : (∀ op : Op, Token.Kind.newline ≠ op.kind) ∧ Token.Kind.newline ≠ .equal ∧
      Token.Kind.newline ≠ .plusPlus ∧ Token.Kind.newline ≠ .minusMinus := by
    refine ⟨fun op same => ?_, nofun, nofun, nofun⟩
    have none : Op.ofKind? Token.Kind.newline = some op := by rw [same, ofKind?_kind]
    cases none
  obtain ⟨e, read⟩ : ∃ e, expression 5 (.ofTokens table (tokens ++ [token .newline ""])) =
      .ok (e, .ofTokens table [token .newline ""]) := by
    dsimp only [table, tokens, token]
    exact ⟨_, rfl⟩
  refine ⟨e, read, ?_⟩
  exact ((expression_iff table declarable tokens (by simp [tokens]) (by simp [tokens, token])
    (token .newline "") [] ends 5 (by simp [tokens])).1 e).mp read

end Grammar

end Sulti
