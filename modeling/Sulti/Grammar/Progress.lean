import Sulti.Grammar.Program

/-!
Reading ends. Every reader leaves an end part of the tokens that were ahead of
it, an expression or a statement uses up at least one token unless it stands at
a line break, and a bound above the number of tokens ahead is never used up.
-/

namespace Sulti.Grammar

variable {α β : Type}

/-- At `c` the reader does not run out of its bound, and what is ahead of it
afterwards was ahead before. -/
def Settles (p : Parse α) (c : Cursor) : Prop :=
  match p c with
  | .ok (_, after) => after.ahead <:+ c.ahead
  | .error (.rejected _) => True
  | .error .starved => False

/-- The same, and if the reader succeeds it has used up a token. -/
def Advances (p : Parse α) (c : Cursor) : Prop :=
  match p c with
  | .ok (_, after) => after.ahead <:+ c.ahead ∧ after.ahead.length < c.ahead.length
  | .error (.rejected _) => True
  | .error .starved => False

/-- A reader that settles wherever fewer than `n` tokens are ahead. -/
def Steady (n : Nat) (p : Parse α) : Prop :=
  ∀ c : Cursor, c.ahead.length < n → Settles p c

/-- A reader that moves on wherever fewer than `n` tokens are ahead and the next
one is no line break. -/
def Eager (n : Nat) (p : Parse α) : Prop :=
  ∀ c : Cursor, c.ahead.length < n → c.next.kind ≠ .newline → Advances p c

theorem Advances.settles {p : Parse α} {c : Cursor} (h : Advances p c) : Settles p c := by
  unfold Advances at h
  unfold Settles
  match p c, h with
  | .ok (_, _), h => exact h.1
  | .error (.rejected _), _ => trivial

theorem Settles.bind {c : Cursor} {p : Parse α} {f : α → Parse β} (hp : Settles p c)
    (hf : ∀ a d, p c = .ok (a, d) → d.ahead <:+ c.ahead → Settles (f a) d) :
    Settles (p >>= f) c := by
  unfold Settles at hp ⊢
  rw [Parse.run_bind]
  match hr : p c, hp with
  | .ok (a, d), h =>
      have hd := hf a d hr h
      unfold Settles at hd
      rw [Except.bind]
      match f a d, hd with
      | .ok (_, _), hd => exact List.IsSuffix.trans hd h
      | .error (.rejected _), _ => trivial
  | .error (.rejected _), _ => trivial

theorem Advances.bind {c : Cursor} {p : Parse α} {f : α → Parse β} (hp : Advances p c)
    (hf : ∀ a d, d.ahead <:+ c.ahead → d.ahead.length < c.ahead.length → Settles (f a) d) :
    Advances (p >>= f) c := by
  unfold Advances at hp ⊢
  rw [Parse.run_bind]
  match p c, hp with
  | .ok (a, d), h =>
      have hd := hf a d h.1 h.2
      unfold Settles at hd
      rw [Except.bind]
      match f a d, hd with
      | .ok (_, _), hd =>
          exact ⟨List.IsSuffix.trans hd h.1,
            Nat.lt_of_le_of_lt (List.IsSuffix.length_le hd) h.2⟩
      | .error (.rejected _), _ => trivial
  | .error (.rejected _), _ => trivial

theorem Steady.mono {m n : Nat} {p : Parse α} (h : Steady n p) (hm : m ≤ n) : Steady m p :=
  fun c hc => h c (Nat.lt_of_lt_of_le hc hm)

theorem Eager.mono {m n : Nat} {p : Parse α} (h : Eager n p) (hm : m ≤ n) : Eager m p :=
  fun c hc => h c (Nat.lt_of_lt_of_le hc hm)

theorem Steady.bind {n : Nat} {p : Parse α} {f : α → Parse β} (hp : Steady n p)
    (hf : ∀ a, Steady n (f a)) : Steady n (p >>= f) := fun c hc =>
  (hp c hc).bind fun a d _ hd => hf a d (Nat.lt_of_le_of_lt (List.IsSuffix.length_le hd) hc)

theorem Eager.bind {n : Nat} {p : Parse α} {f : α → Parse β} (hp : Eager n p)
    (hf : ∀ a, Steady n (f a)) : Eager n (p >>= f) := fun c hc hn =>
  (hp c hc hn).bind fun a d hd _ =>
    hf a d (Nat.lt_of_le_of_lt (List.IsSuffix.length_le hd) hc)

/-- Behind a step that uses up a token there is one token less to read. -/
theorem Advances.bind_steady {n : Nat} {c : Cursor} {p : Parse α} {f : α → Parse β}
    (hc : c.ahead.length < n + 1) (hp : Advances p c) (hf : ∀ a, Steady n (f a)) :
    Advances (p >>= f) c :=
  hp.bind fun a d _ shorter => hf a d (by omega)

/-! The single steps. -/

theorem next_kind_of_ahead_nil {c : Cursor} (h : c.ahead = []) : c.next.kind = .eof := by
  simp [Cursor.next, h, Token.endMark]

/-- A token that is no end mark is really ahead. -/
theorem length_forward_lt {c : Cursor} (h : c.next.kind ≠ .eof) :
    c.forward.ahead.length < c.ahead.length := by
  match ha : c.ahead with
  | [] => exact absurd (next_kind_of_ahead_nil ha) h
  | _ :: _ => simp [Cursor.forward, ha]

theorem forward_suffix (c : Cursor) : c.forward.ahead <:+ c.ahead := List.tail_suffix _

theorem settles_pure (c : Cursor) (a : α) : Settles (pure a) c := List.suffix_refl _

theorem settles_reject (c : Cursor) (position : Position) (cause : Rejection.Cause) :
    Settles (reject position cause : Parse α) c := trivial

theorem settles_unexpected (c : Cursor) (expected : String) :
    Settles (unexpected expected : Parse α) c := trivial

theorem advances_unexpected (c : Cursor) (expected : String) :
    Advances (unexpected expected : Parse α) c := trivial

theorem settles_advance (c : Cursor) : Settles advance c := forward_suffix c

theorem advances_advance {c : Cursor} (h : c.next.kind ≠ .eof) : Advances advance c :=
  ⟨forward_suffix c, length_forward_lt h⟩

theorem steady_pure (n : Nat) (a : α) : Steady n (pure a : Parse α) :=
  fun c _ => settles_pure c a

theorem steady_advance (n : Nat) : Steady n advance := fun c _ => settles_advance c

theorem steady_peek (n : Nat) : Steady n peek := fun _ _ => List.suffix_refl _

theorem steady_names (n : Nat) : Steady n names := fun _ _ => List.suffix_refl _

theorem steady_skipNewlines (n : Nat) : Steady n skipNewlines :=
  fun _ _ => List.dropWhile_suffix _

theorem steady_reject (n : Nat) (position : Position) (cause : Rejection.Cause) :
    Steady n (reject position cause : Parse α) := fun c _ => settles_reject c position cause

theorem steady_unexpected (n : Nat) (expected : String) :
    Steady n (unexpected expected : Parse α) := fun c _ => settles_unexpected c expected

theorem steady_checked (n : Nat) (position : Position) (r : Except Mismatch α) :
    Steady n (checked position r) := by
  cases r with
  | ok a => exact steady_pure n a
  | error m => exact steady_reject n position _

/-- A step that looks at the next token is judged where it looks. -/
theorem settles_peek_bind {c : Cursor} {f : Token → Parse α} (h : Settles (f c.next) c) :
    Settles (peek >>= f) c := h

theorem advances_peek_bind {c : Cursor} {f : Token → Parse α} (h : Advances (f c.next) c) :
    Advances (peek >>= f) c := h

theorem steady_accept (n : Nat) (kind : Token.Kind) : Steady n (accept kind) := by
  refine (steady_peek n).bind fun token => ?_
  split
  · exact (steady_advance n).bind fun _ => steady_pure n true
  · exact steady_pure n false

theorem shorter_of_accept {c d : Cursor} {kind : Token.Kind} (hk : kind ≠ .eof)
    (h : accept kind c = .ok (true, d)) : d.ahead.length < c.ahead.length := by
  change (if c.next.kind = kind then (advance >>= fun _ => pure true) else pure false : Parse Bool)
    c = .ok (true, d) at h
  by_cases hn : c.next.kind = kind
  · rw [if_pos hn] at h
    cases h
    exact length_forward_lt (hn ▸ hk)
  · rw [if_neg hn] at h
    cases h

theorem advances_expect {kind : Token.Kind} (hk : kind ≠ .eof) (expected : String)
    (c : Cursor) : Advances (expect kind expected) c := by
  refine advances_peek_bind ?_
  split
  · rename_i hn
    exact advances_advance (hn ▸ hk)
  · exact advances_unexpected c expected

theorem steady_expect (n : Nat) {kind : Token.Kind} (hk : kind ≠ .eof) (expected : String) :
    Steady n (expect kind expected) := fun c _ => (advances_expect hk expected c).settles

theorem steady_identifier (n : Nat) : Steady n identifier := by
  refine (steady_peek n).bind fun token => ?_
  split
  · exact (steady_advance n).bind fun _ => steady_pure n _
  · exact steady_unexpected n _

theorem steady_separated {n fuel : Nat} {separator : Token.Kind} {item : Parse α}
    (hs : separator ≠ .eof) (hi : Steady n item) (hf : n ≤ fuel) :
    Steady n (separated separator item fuel) := by
  induction fuel generalizing n with
  | zero => exact fun c hc => absurd hc (by omega)
  | succ fuel ih =>
      refine hi.bind fun first c hc => ?_
      refine (steady_accept n separator c hc).bind fun found d hr hd => ?_
      cases found with
      | false => exact settles_pure d _
      | true =>
          have shorter := shorter_of_accept hs hr
          have others := ih (hi.mono (by omega : n - 1 ≤ n)) (by omega)
          exact (others.bind fun _ => steady_pure _ _) d (by omega)

/-! Expressions. -/

theorem run_measured (p : Parse Expr) (c : Cursor) :
    measured p c = (p c).bind fun read => .ok ((read.1, read.2.isOnePast c), read.2) := rfl

theorem Settles.measured {p : Parse Expr} {c : Cursor} (h : Settles p c) :
    Settles (measured p) c := by
  unfold Settles at h ⊢
  rw [run_measured]
  match p c, h with
  | .ok (_, _), h => exact h
  | .error (.rejected _), _ => trivial

theorem Advances.measured {p : Parse Expr} {c : Cursor} (h : Advances p c) :
    Advances (measured p) c := by
  unfold Advances at h ⊢
  rw [run_measured]
  match p c, h with
  | .ok (_, _), h => exact h
  | .error (.rejected _), _ => trivial

theorem Steady.measured {n : Nat} {p : Parse Expr} (h : Steady n p) : Steady n (measured p) :=
  fun c hc => (h c hc).measured

theorem Eager.measured {n : Nat} {p : Parse Expr} (h : Eager n p) : Eager n (measured p) :=
  fun c hc hn => (h c hc hn).measured

theorem steady_bareName (n : Nat) (single : Bool) (target : Expr) (position : Position) :
    Steady n (bareName single target position) := by
  unfold bareName
  split
  · exact steady_pure n _
  · exact steady_reject n position _

theorem steady_increment (n : Nat) (single : Bool) (target : Expr) (a : Arith)
    (position : Position) : Steady n (increment single target a position) :=
  (steady_bareName n single target position).bind fun _ =>
    (steady_checked n _ _).bind fun _ => steady_pure n _

theorem steady_signed (n : Nat) (a : Arith) (operand : Expr) (position : Position) :
    Steady n (signed a operand position) :=
  (steady_checked n _ _).bind fun _ => steady_pure n _

/-- An expression in parentheses is shorter than the whole. -/
theorem eager_primary {n : Nat} {expression : Parse Expr} (h : Steady n expression) :
    Eager (n + 1) (primary expression) := by
  intro c hc hn
  refine advances_peek_bind ?_
  split
  · rename_i name hk
    refine (advances_advance (by simp [hk])).bind_steady hc fun _ => ?_
    refine (steady_names n).bind fun cursor => ?_
    split
    · exact steady_pure n _
    · exact steady_reject n _ _
  · rename_i hk
    refine (advances_advance (by simp [hk])).bind_steady hc fun _ => ?_
    refine h.bind fun _ => ?_
    exact (steady_expect n (by simp) _).bind fun _ => steady_pure n _
  · rename_i hk
    exact absurd hk hn
  · split
    · rename_i hl
      have hk : c.next.kind ≠ .eof := by
        intro he
        rw [he] at hl
        cases hl
      exact (advances_advance hk).bind_steady hc fun _ => steady_pure n _
    · exact advances_unexpected c _

theorem steady_of_eager {n : Nat} {p : Parse α} (he : Eager n p)
    (hs : ∀ c : Cursor, c.ahead.length < n → c.next.kind = .newline → Settles p c) :
    Steady n p := fun c hc =>
  if hn : c.next.kind = .newline then hs c hc hn else (he c hc hn).settles

theorem steady_primary {n : Nat} {expression : Parse Expr} (h : Steady n expression) :
    Steady (n + 1) (primary expression) := by
  refine steady_of_eager (eager_primary h) fun c _ hn => settles_peek_bind ?_
  rw [hn]
  exact settles_pure c _

/-- What may stand behind an operand. -/
theorem steady_postfix (n : Nat) (single : Bool) (e : Expr) :
    Steady n (do
      let token ← peek
      match token.kind with
      | .plusPlus => do
          advance
          increment single e .add token.position
      | .minusMinus => do
          advance
          increment single e .sub token.position
      | _ => return e) := by
  refine (steady_peek n).bind fun token => ?_
  split
  · exact (steady_advance n).bind fun _ => steady_increment n _ _ _ _
  · exact (steady_advance n).bind fun _ => steady_increment n _ _ _ _
  · exact steady_pure n _

theorem eager_postfixed {n : Nat} {expression : Parse Expr} (h : Steady n expression) :
    Eager (n + 1) (postfixed expression) :=
  (eager_primary h).measured.bind fun read => steady_postfix (n + 1) read.2 read.1

theorem steady_postfixed {n : Nat} {expression : Parse Expr} (h : Steady n expression) :
    Steady (n + 1) (postfixed expression) :=
  (steady_primary h).measured.bind fun read => steady_postfix (n + 1) read.2 read.1

theorem steady_chain {n fuel : Nat} {level : Op.Level} {operand : Parse Expr}
    (h : Steady n operand) (hf : n ≤ fuel) (left : Expr) :
    Steady n (chain level operand fuel left) := by
  induction fuel generalizing n left with
  | zero => exact fun c hc => absurd hc (by omega)
  | succ fuel ih =>
      intro c hc
      refine settles_peek_bind ?_
      split
      · rename_i op hop
        split
        · have hk : c.next.kind ≠ .eof := by
            intro he
            rw [he] at hop
            cases hop
          have less : c.ahead.length < n - 1 + 1 := by omega
          refine ((advances_advance hk).bind_steady less fun _ => ?_).settles
          have shorter := h.mono (by omega : n - 1 ≤ n)
          refine shorter.bind fun right => ?_
          exact (steady_checked _ _ _).bind fun ty => ih shorter (by omega) _
        · exact settles_pure c _
      · exact settles_pure c _

theorem steady_leftAssociative {n fuel : Nat} {level : Op.Level} {operand : Parse Expr}
    (h : Steady n operand) (hf : n ≤ fuel) : Steady n (leftAssociative level operand fuel) :=
  h.bind fun first => steady_chain h hf first

theorem eager_leftAssociative {n fuel : Nat} {level : Op.Level} {operand : Parse Expr}
    (hs : Steady n operand) (he : Eager n operand) (hf : n ≤ fuel) :
    Eager n (leftAssociative level operand fuel) :=
  he.bind fun first => steady_chain hs hf first

theorem steady_operation {n fuel : Nat} {unary : Parse Expr} (h : Steady n unary)
    (hf : n ≤ fuel) : Steady n (operation unary fuel) :=
  steady_leftAssociative (steady_leftAssociative (steady_leftAssociative
    (steady_leftAssociative h hf) hf) hf) hf

theorem eager_operation {n fuel : Nat} {unary : Parse Expr} (hs : Steady n unary)
    (he : Eager n unary) (hf : n ≤ fuel) : Eager n (operation unary fuel) := by
  have product : Steady n (leftAssociative .multiplicative unary fuel) :=
    steady_leftAssociative hs hf
  have sum : Steady n (leftAssociative .additive _ fuel) := steady_leftAssociative product hf
  have relation : Steady n (leftAssociative .relational _ fuel) := steady_leftAssociative sum hf
  exact eager_leftAssociative relation (eager_leftAssociative sum (eager_leftAssociative product
    (eager_leftAssociative hs he hf) hf) hf) hf

/-- The part of an assignment behind its target. -/
theorem steady_assigned {n : Nat} {value : Parse Expr} (h : Steady (n - 1) value)
    (single : Bool) (target : Expr) :
    Steady n (do
      let equal ← peek
      if equal.kind = .equal then do
        advance
        let name ← bareName single target equal.position
        let value ← value
        demand target.ty value
        return .assign target.note name value
      else
        return target) := by
  intro c hc
  refine settles_peek_bind ?_
  split
  · rename_i hk
    have less : c.ahead.length < n - 1 + 1 := by omega
    refine ((advances_advance (by simp [hk])).bind_steady less fun _ => ?_).settles
    refine (steady_bareName _ _ _ _).bind fun name => h.bind fun v => ?_
    exact (steady_checked _ _ _).bind fun _ => steady_pure _ _
  · exact settles_pure c _

theorem steady_assignment {n fuel : Nat} {unary : Parse Expr} (h : Steady n unary)
    (hf : n ≤ fuel) : Steady n (assignment unary fuel) := by
  induction fuel generalizing n with
  | zero => exact fun c hc => absurd hc (by omega)
  | succ fuel ih =>
      have value := ih (h.mono (by omega : n - 1 ≤ n)) (by omega)
      exact (steady_operation h hf).measured.bind fun read => steady_assigned value read.2 read.1

theorem eager_assignment {n fuel : Nat} {unary : Parse Expr} (hs : Steady n unary)
    (he : Eager n unary) (hf : n ≤ fuel) : Eager n (assignment unary fuel) := by
  match fuel, hf with
  | 0, hf => exact fun c hc => absurd hc (by omega)
  | fuel + 1, hf =>
      have value : Steady (n - 1) (assignment unary fuel) :=
        steady_assignment (hs.mono (by omega)) (by omega)
      exact (eager_operation hs he hf).measured.bind fun read =>
        steady_assigned value read.2 read.1

/-- Every sign or operator in front of an operand uses up a token of its own. -/
theorem eager_unary_succ {n fuel : Nat} (hs : Steady n (unary fuel)) (hf : n ≤ fuel) :
    Eager (n + 1) (unary (fuel + 1)) := by
  intro c hc hn
  refine advances_peek_bind ?_
  split
  · rename_i hk
    refine (advances_advance (by simp [hk])).bind_steady hc fun _ => hs.bind fun operand => ?_
    exact (steady_checked n _ _).bind fun _ => steady_pure n _
  · rename_i hk
    refine (advances_advance (by simp [hk])).bind_steady hc fun _ => hs.bind fun operand => ?_
    exact steady_signed n _ _ _
  · rename_i hk
    refine (advances_advance (by simp [hk])).bind_steady hc fun _ => hs.bind fun operand => ?_
    exact steady_signed n _ _ _
  · rename_i hk
    refine (advances_advance (by simp [hk])).bind_steady hc fun _ => ?_
    exact hs.measured.bind fun read => steady_increment n _ _ _ _
  · exact eager_postfixed (steady_assignment hs hf) c hc hn

theorem steady_unary {n fuel : Nat} (hf : n ≤ fuel) : Steady n (unary fuel) := by
  induction fuel generalizing n with
  | zero => exact fun c hc => absurd hc (by omega)
  | succ fuel ih =>
      have inner : Steady (n - 1) (unary fuel) := ih (by omega)
      refine steady_of_eager ((eager_unary_succ inner (by omega)).mono (by omega))
        fun c hc hn => settles_peek_bind ?_
      rw [hn]
      exact steady_postfixed (steady_assignment inner (by omega)) c (by omega)

theorem eager_unary {n fuel : Nat} (hf : n ≤ fuel) : Eager n (unary fuel) := by
  match fuel, hf with
  | 0, hf => exact fun c hc => absurd hc (by omega)
  | fuel + 1, hf =>
      exact (eager_unary_succ (steady_unary (by omega : n - 1 ≤ fuel)) (by omega)).mono (by omega)

theorem steady_expression {n fuel : Nat} (hf : n ≤ fuel) : Steady n (expression fuel) :=
  steady_assignment (steady_unary hf) hf

theorem eager_expression {n fuel : Nat} (hf : n ≤ fuel) : Eager n (expression fuel) :=
  eager_assignment (steady_unary hf) (eager_unary hf) hf

/-! Statements. -/

theorem steady_endStatement (n : Nat) : Steady n endStatement := by
  refine (steady_peek n).bind fun token => ?_
  split
  · exact steady_advance n
  · exact steady_pure n _
  · exact steady_pure n _
  · exact steady_pure n _
  · exact steady_unexpected n _

theorem steady_declaredType (n : Nat) : Steady n declaredType := by
  refine (steady_peek n).bind fun token => ?_
  split
  case h_3 => exact steady_unexpected n _
  all_goals
    refine (steady_advance n).bind fun _ => ?_
    split
    · exact steady_pure n _
    · exact steady_reject n _ _

theorem steady_freshName (n : Nat) : Steady n freshName := by
  refine (steady_identifier n).bind fun named => (steady_names n).bind fun cursor => ?_
  split
  · exact steady_reject n _ _
  · exact steady_pure n _

theorem steady_start {n fuel : Nat} (hf : n ≤ fuel) (ty : Ty) : Steady n (start ty fuel) := by
  refine (steady_accept n _).bind fun found => ?_
  split
  · exact (steady_expression hf).bind fun value =>
      (steady_checked n _ _).bind fun _ => steady_pure n _
  · exact steady_pure n _

theorem steady_declareName (n : Nat) (name : String) (ty : Ty) :
    Steady n (declareName name ty) := fun _ _ => List.suffix_refl _

theorem steady_binding {n fuel : Nat} (hf : n ≤ fuel) (ty : Ty) : Steady n (binding ty fuel) :=
  (steady_freshName n).bind fun name => (steady_start hf ty).bind fun _ =>
    (steady_declareName n name ty).bind fun _ => steady_pure n _

theorem steady_target (n : Nat) : Steady n target := by
  refine (steady_identifier n).bind fun named => (steady_names n).bind fun cursor => ?_
  split
  · exact steady_pure n _
  · exact steady_reject n _ _

theorem advances_declaration {n fuel : Nat} {c : Cursor} (hf : n ≤ fuel)
    (hc : c.ahead.length < n + 1) (hk : c.next.kind ≠ .eof) : Advances (declaration fuel) c := by
  refine (advances_advance hk).bind_steady hc fun _ => ?_
  refine (steady_declaredType n).bind fun ty => ?_
  refine (steady_separated (by simp) (steady_binding hf ty) hf).bind fun bindings => ?_
  exact (steady_endStatement n).bind fun _ => steady_pure n _

theorem advances_input {n fuel : Nat} {c : Cursor} (hf : n ≤ fuel)
    (hc : c.ahead.length < n + 1) (hk : c.next.kind ≠ .eof) : Advances (input fuel) c := by
  refine advances_peek_bind ((advances_advance hk).bind_steady hc fun _ => ?_)
  refine (steady_expect n (by simp) _).bind fun _ => ?_
  refine (steady_separated (by simp) (steady_target n) hf).bind fun targets => ?_
  exact (steady_endStatement n).bind fun _ => steady_pure n _

theorem advances_output {n fuel : Nat} {c : Cursor} (hf : n ≤ fuel)
    (hc : c.ahead.length < n + 1) (hk : c.next.kind ≠ .eof) : Advances (output fuel) c := by
  refine (advances_advance hk).bind_steady hc fun _ => ?_
  refine (steady_expect n (by simp) _).bind fun _ => ?_
  refine (steady_separated (by simp) (steady_expression hf) hf).bind fun items => ?_
  exact (steady_endStatement n).bind fun _ => steady_pure n _

theorem next_ne_newline_of_skipNewlines {c d : Cursor} {skipped : Bool}
    (h : skipNewlines c = .ok (skipped, d)) : d.next.kind ≠ .newline := by
  change Except.ok (_, c.dropNewlines) = _ at h
  cases h
  intro hn
  match hd : c.ahead.dropWhile fun token => token.kind == .newline with
  | [] =>
      simp [Cursor.next, Cursor.dropNewlines, hd, Token.endMark] at hn
  | token :: rest =>
      have head := List.head?_dropWhile_not (fun token : Token => token.kind == .newline) c.ahead
      simp [hd] at head
      simp [Cursor.next, Cursor.dropNewlines, hd] at hn
      exact head hn

theorem run_member (p : Parse Stmt) (c : Cursor) : member p c = p c := by
  change (p c).bind _ = p c
  cases p c with
  | ok read => rfl
  | error halt => rfl

theorem Advances.member {p : Parse Stmt} {c : Cursor} (h : Advances p c) :
    Advances (member p) c := by
  unfold Advances at h ⊢
  rwa [run_member]

/-- A list of statements ends, because each of them uses up a token. -/
theorem steady_statements {n fuel : Nat} {closing : Token.Kind} {statement : Parse Stmt}
    (hs : Eager n statement) (hf : n ≤ fuel) :
    Steady n (statements closing statement fuel) := by
  induction fuel generalizing n with
  | zero => exact fun c hc => absurd hc (by omega)
  | succ fuel ih =>
      intro c hc
      refine (steady_skipNewlines n c hc).bind fun skipped d hr hd => settles_peek_bind ?_
      have length := List.IsSuffix.length_le hd
      split
      · exact settles_pure d _
      · have first := hs d (by omega) (next_ne_newline_of_skipNewlines hr)
        have less : d.ahead.length < n - 1 + 1 := by omega
        refine (first.member.bind_steady less fun _ => ?_).settles
        exact (ih (hs.mono (by omega : n - 1 ≤ n)) (by omega)).bind fun _ => steady_pure _ _

theorem advances_block {n fuel : Nat} {c : Cursor} {statement : Parse Stmt}
    (hs : Eager n statement) (hf : n ≤ fuel) (hc : c.ahead.length < n + 1) :
    Advances (block statement fuel) c := by
  refine (advances_expect (by simp) _ c).bind_steady hc fun _ => ?_
  refine (steady_skipNewlines n).bind fun _ => (steady_expect n (by simp) _).bind fun _ => ?_
  refine (steady_statements hs hf).bind fun body => ?_
  exact (steady_expect n (by simp) _).bind fun _ => steady_pure n _

theorem steady_condition {n fuel : Nat} (hf : n ≤ fuel) : Steady n (condition fuel) := by
  refine (steady_expect n (by simp) _).bind fun _ => (steady_expression hf).bind fun e => ?_
  refine (steady_checked n _ _).bind fun _ => (steady_expect n (by simp) _).bind fun _ => ?_
  exact (steady_skipNewlines n).bind fun _ => steady_pure n _

theorem run_behindKung (c : Cursor) :
    behindKung c = .ok (if c.next.kind = .kung then some c.second.kind else none, c) := by
  change (if c.next.kind = .kung then _ else _ : Parse (Option Token.Kind)) c = _
  split <;> rfl

theorem steady_alternatives {n fuel : Nat} {body : Parse (List Stmt)} (hb : Steady n body)
    (hf : n ≤ fuel) (ended : Bool) : Steady n (alternatives body ended fuel) := by
  induction fuel generalizing n ended with
  | zero => exact fun c hc => absurd hc (by omega)
  | succ fuel ih =>
      intro c hc
      have less : c.ahead.length < n - 1 + 1 := by omega
      have shorter := hb.mono (by omega : n - 1 ≤ n)
      have here : Settles behindKung c := by
        unfold Settles
        simp only [run_behindKung, List.suffix_refl]
      refine here.bind fun following d hr _ => ?_
      rw [run_behindKung] at hr
      cases hr
      have moves {kind : Token.Kind} (h : (if c.next.kind = .kung then some c.second.kind
          else none) = some kind) : Advances advance c := by
        split at h
        · rename_i hk
          exact advances_advance (by simp [hk])
        · cases h
      split
      · rename_i hk
        refine ((moves hk).bind_steady less fun _ => ?_).settles
        refine (steady_advance _).bind fun _ => (steady_skipNewlines _).bind fun _ => ?_
        refine (steady_condition (by omega)).bind fun test => shorter.bind fun chosen => ?_
        refine (steady_skipNewlines _).bind fun ended => ?_
        exact (ih shorter (by omega) ended).bind fun more => steady_pure _ _
      · rename_i hk
        refine ((moves hk).bind_steady less fun _ => ?_).settles
        refine (steady_advance _).bind fun _ => (steady_skipNewlines _).bind fun _ => ?_
        exact shorter.bind fun chosen => (steady_skipNewlines _).bind fun _ => steady_pure _ _
      · exact settles_pure _ _

theorem steady_endUnless (n : Nat) (ended : Bool) : Steady n (endUnless ended) := by
  unfold endUnless
  split
  · exact steady_pure n _
  · exact steady_endStatement n

theorem steady_noAlternative (n : Nat) (position : Position) :
    Steady n (noAlternative position) := by
  refine (steady_peek n).bind fun token => ?_
  split
  · exact steady_reject n _ _
  · exact steady_pure n _

theorem advances_branch {n fuel : Nat} {c : Cursor} {body : Parse (List Stmt)}
    (hb : Steady n body) (hf : n ≤ fuel) (hc : c.ahead.length < n + 1)
    (hk : c.next.kind ≠ .eof) : Advances (branch body fuel) c := by
  refine advances_peek_bind ((advances_advance hk).bind_steady hc fun _ => ?_)
  refine (steady_noAlternative n _).bind fun _ => (steady_condition hf).bind fun test => ?_
  refine hb.bind fun chosen => (steady_skipNewlines n).bind fun ended => ?_
  refine (steady_alternatives hb hf ended).bind fun more => ?_
  exact (steady_endUnless n _).bind fun _ => steady_pure n _

theorem advances_loop {n fuel : Nat} {c : Cursor} {body : Parse (List Stmt)}
    (hb : Steady n body) (hf : n ≤ fuel) (hc : c.ahead.length < n + 1)
    (hk : c.next.kind ≠ .eof) : Advances (loop body fuel) c := by
  refine (advances_advance hk).bind_steady hc fun _ => ?_
  refine (steady_expect n (by simp) _).bind fun _ => (steady_expect n (by simp) _).bind fun _ => ?_
  refine (steady_expression hf).bind fun start => (steady_expect n (by simp) _).bind fun _ => ?_
  refine (steady_expression hf).bind fun test => (steady_checked n _ _).bind fun _ => ?_
  refine (steady_expect n (by simp) _).bind fun _ => (steady_expression hf).bind fun step => ?_
  refine (steady_expect n (by simp) _).bind fun _ => (steady_skipNewlines n).bind fun _ => ?_
  exact hb.bind fun repeated => (steady_endStatement n).bind fun _ => steady_pure n _

/-- A statement that does not stand at a line break uses up a token. -/
theorem eager_statement {n fuel : Nat} (hf : n < fuel) : Eager n (statement fuel) := by
  induction fuel generalizing n with
  | zero => exact absurd hf (by omega)
  | succ fuel ih =>
      intro c hc hn
      have less : c.ahead.length < n - 1 + 1 := by omega
      have inner : Eager (n - 1) (statement fuel) := ih (by omega)
      have body : Steady (n - 1) (block (statement fuel) fuel) := fun d hd =>
        (advances_block inner (by omega) (by omega)).settles
      refine advances_peek_bind ?_
      split
      · rename_i hk
        exact advances_declaration (by omega) less (by simp [hk])
      · rename_i hk
        exact advances_input (by omega) less (by simp [hk])
      · rename_i hk
        exact advances_output (by omega) less (by simp [hk])
      · rename_i hk
        exact advances_branch body (by omega) less (by simp [hk])
      · rename_i hk
        exact advances_loop body (by omega) less (by simp [hk])
      · refine (advances_block inner (by omega) less).bind_steady less fun inner => ?_
        exact (steady_endStatement _).bind fun _ => steady_pure _ _
      · refine ((eager_expression (by omega)).bind fun e => ?_) c hc hn
        exact (steady_endStatement n).bind fun _ => steady_pure n _

theorem steady_opening (n : Nat) (mode : Mode) : Steady n (opening mode) := by
  cases mode with
  | program => exact (steady_expect n (by simp) _).bind fun _ => steady_pure n true
  | repl => exact steady_accept n _

theorem steady_closing (n : Nat) (framed : Bool) : Steady n (closing framed) := by
  cases framed with
  | true => exact steady_expect n (by simp) _
  | false => exact (steady_accept n _).bind fun _ => steady_pure n _

theorem steady_ending (n : Nat) : Steady n ending := by
  refine (steady_skipNewlines n).bind fun _ => (steady_peek n).bind fun token => ?_
  split
  · exact steady_pure n _
  · exact steady_unexpected n _

theorem steady_program {n fuel : Nat} (hf : n < fuel) (mode : Mode) :
    Steady n (program mode fuel) := by
  refine (steady_skipNewlines n).bind fun _ => (steady_opening n mode).bind fun framed => ?_
  refine (steady_statements (eager_statement hf) (by omega)).bind fun body => ?_
  exact (steady_closing n framed).bind fun _ =>
    (steady_ending n).bind fun _ => steady_pure n _

end Sulti.Grammar
