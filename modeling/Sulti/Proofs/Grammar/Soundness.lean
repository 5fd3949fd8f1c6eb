import Sulti.Proofs.Grammar.Derivation
import Sulti.Proofs.Typing.ReadExpr

/-!
What is read as an expression is derived by the grammar. The tokens that a
reader uses up stand for the tree it makes, as long as the tree follows the
static rules; these leave no room for a blank, which stands for no tokens.

A reader finds out whether something can be stored into from its tree and from
whether it has moved on by one token. The first token tells the same: the tokens
of a variable are its name, or they start with a parenthesis.
-/

namespace Sulti.Grammar

theorem ahead_eq_cons {c : Cursor} (h : c.next.kind ≠ .eof) :
    c.ahead = c.next :: c.forward.ahead := by
  cases ha : c.ahead with
  | nil => exact absurd (next_kind_of_ahead_nil ha) h
  | cons token rest => simp [Cursor.next, Cursor.forward, ha]

/-- If the tree follows the rules, the tokens between the cursors stand for it. -/
def Spells (table : Table Ty) (s : Symbol) (c : Cursor) (e : Expr) (d : Cursor) : Prop :=
  e.Typed table → ∃ used, c.ahead = used ++ d.ahead ∧ Derives s used e

/-- A reader of what the grammar derives from a symbol. -/
def Spelling (table : Table Ty) (s : Symbol) (p : Parse Expr) : Prop :=
  ∀ c, Yields p c (Spells table s c)

section

variable {table : Table Ty}

theorem spelling_primary {expression : Parse Expr} (h : Spelling table .assignment expression) :
    Spelling table .primary (primary expression) := by
  intro c
  refine yields_peek_bind ?_
  split
  · rename_i x hk
    refine yields_advance_bind (yields_names_bind ?_)
    split
    · apply yields_pure
      intro _
      exact ⟨[c.next], ahead_eq_cons (by simp [hk]), .var hk⟩
    · exact yields_reject
  · rename_i hk
    refine yields_advance_bind (Yields.bind ((h c.forward).mono fun e d he => ?_))
    refine Yields.bind (yields_expect fun hr => yields_pure ?_)
    intro typed
    obtain ⟨used, ahead, derived⟩ := he typed
    refine ⟨c.next :: (used ++ [d.next]), ?_, .parentheses hk hr derived⟩
    have opening := ahead_eq_cons (c := c) (by simp [hk])
    have closing := ahead_eq_cons (c := d) (by simp [hr])
    rw [opening, ahead, closing]
    simp
  · apply yields_pure
    intro typed
    cases typed
  · split
    · rename_i l hl
      refine yields_advance_bind (yields_pure ?_)
      intro _
      have inside : c.next.kind ≠ .eof := by
        intro eof
        rw [eof] at hl
        cases hl
      exact ⟨[c.next], ahead_eq_cons inside, .literal (literal_ofKind?.mp hl)⟩
    · exact yields_unexpected

/-- A tree that is a variable was one token exactly if the first token is a name. -/
theorem Spells.isOnePast_iff {s : Symbol} {c d : Cursor} {note : Note} {x : String}
    (h : Spells table s c (.var note x) d) (whole : ∀ l left, s ≠ .others l left)
    (found : table.find? x = some note.ty) :
    d.isOnePast c = true ↔ ∃ y, c.next.kind = .identifier y := by
  obtain ⟨used, ahead, derived⟩ := h (.var found)
  rw [Cursor.isOnePast, beq_iff_eq, ahead, List.length_append, Cursor.next, ahead]
  rcases derived.var_cases whole with ⟨name, rfl, kind, _⟩ | ⟨opening, inner, closing, rfl, kind⟩
  · simp [kind, Nat.add_comm]
  · simp only [List.length_cons, List.length_append, List.cons_append, List.headD_cons, kind,
      reduceCtorEq, exists_false, iff_false]
    omega

/-- That one token is then the name of the variable. -/
theorem Spells.bare {s : Symbol} {c d : Cursor} {note : Note} {x : String}
    (h : Spells table s c (.var note x) d) (whole : ∀ l left, s ≠ .others l left)
    (found : table.find? x = some note.ty) (single : d.isOnePast c = true) :
    c.ahead = c.next :: d.ahead ∧ c.next.kind = .identifier x ∧
      note.position = c.next.position := by
  obtain ⟨y, first⟩ := (h.isOnePast_iff whole found).mp single
  obtain ⟨used, ahead, derived⟩ := h (.var found)
  rw [Cursor.next, ahead] at first ⊢
  rcases derived.var_cases whole with ⟨name, rfl, kind, place⟩ | ⟨opening, _, _, rfl, kind⟩
  · exact ⟨rfl, kind, place⟩
  · cases kind.symm.trans first

theorem yields_bareName_single {c : Cursor} {single : Bool} {target : Expr} {position : Position}
    {Q : String → Cursor → Prop}
    (h : ∀ note x, single = true → target = .var note x → Q x c) :
    Yields (bareName single target position) c Q := by
  unfold bareName
  split
  · exact yields_pure (h _ _ rfl rfl)
  · exact yields_reject

/-- An increment is made of a variable that was one token. -/
theorem yields_stepped {s : Symbol} {b c d : Cursor} {target : Expr} (h : Spells table s b target c)
    (whole : ∀ l left, s ≠ .others l left) (a : Arith) (position : Position) :
    Yields (increment (c.isOnePast b) target a position) d fun e d' =>
      d' = d ∧ (e.Typed table → ∃ x ty, b.ahead = b.next :: c.ahead ∧
        b.next.kind = .identifier x ∧ e = stepped a ty x b.next.position position) := by
  refine Yields.bind (yields_bareName_single fun note x single ht => ?_)
  subst ht
  refine Yields.bind (yields_demandNumeric fun _ => yields_pure ⟨rfl, ?_⟩)
  intro typed
  cases typed with
  | assign found _ _ =>
      obtain ⟨ahead, kind, place⟩ := h.bare whole found single
      obtain ⟨ty, position⟩ := note
      cases place
      exact ⟨x, ty, ahead, kind, rfl⟩

theorem spelling_postfixed {expression : Parse Expr}
    (h : Spelling table .assignment expression) :
    Spelling table .postfixed (postfixed expression) := by
  intro c
  refine yields_measured_bind ((spelling_primary h c).mono fun e d he => ?_)
  refine yields_peek_bind ?_
  have step (a : Arith)
      (hk : d.next.kind = .plusPlus ∧ a = .add ∨ d.next.kind = .minusMinus ∧ a = .sub) :
      Yields (increment (d.isOnePast c) e a d.next.position) d.forward
        (Spells table .postfixed c) := by
    have inside : d.next.kind ≠ .eof := by
      rcases hk with ⟨hk, _⟩ | ⟨hk, _⟩ <;> simp [hk]
    refine (yields_stepped he nofun a d.next.position).mono ?_
    rintro e' d' ⟨rfl, he'⟩ typed
    obtain ⟨x, ty, ahead, name, rfl⟩ := he' typed
    refine ⟨[c.next, d.next], ?_, .step name hk⟩
    rw [ahead, ahead_eq_cons inside]
    rfl
  split
  · rename_i hk
    exact yields_advance_bind (step .add (Or.inl ⟨hk, rfl⟩))
  · rename_i hk
    exact yields_advance_bind (step .sub (Or.inr ⟨hk, rfl⟩))
  · apply yields_pure
    intro typed
    obtain ⟨used, ahead, derived⟩ := he typed
    exact ⟨used, ahead, .primary derived⟩

theorem spelling_chain {l : Op.Level} {operand : Parse Expr}
    (h : Spelling table (.operand l) operand) (fuel : Nat) (left : Expr) :
    Spelling table (.others l left) (chain l operand fuel left) := by
  induction fuel generalizing left with
  | zero => exact fun _ => yields_starve
  | succ fuel ih =>
      intro c
      refine yields_peek_bind ?_
      split
      · rename_i op hop
        split
        · rename_i own
          have kind := kind_of_ofKind? hop
          refine yields_advance_bind (Yields.bind ((h c.forward).mono fun right d hr => ?_))
          refine Yields.bind (yields_checked fun ty _ => ?_)
          refine (ih _ d).mono fun e d' he => ?_
          intro typed
          obtain ⟨rest, behind, others⟩ := he typed
          have inner : right.Typed table := by
            cases others.typed_left typed with
            | binary _ hr _ => exact hr
          obtain ⟨used, ahead, derived⟩ := hr inner
          refine ⟨c.next :: (used ++ rest), ?_, ?_⟩
          · have inside : c.next.kind ≠ .eof := by
              intro eof
              rw [eof] at hop
              cases hop
            rw [ahead_eq_cons inside, ahead, behind]
            simp
          · exact .operator (mem_operators.mpr own) kind derived others
        · exact yields_pure fun _ => ⟨[], rfl, .none⟩
      · exact yields_pure fun _ => ⟨[], rfl, .none⟩

theorem spelling_leftAssociative {l : Op.Level} {operand : Parse Expr}
    (h : Spelling table (.operand l) operand) (fuel : Nat) :
    Spelling table (.level l) (leftAssociative l operand fuel) := by
  intro c
  refine Yields.bind ((h c).mono fun left d hl => ?_)
  refine (spelling_chain h fuel left d).mono fun e d' he => ?_
  intro typed
  obtain ⟨rest, behind, others⟩ := he typed
  obtain ⟨used, ahead, derived⟩ := hl (others.typed_left typed)
  refine ⟨used ++ rest, ?_, .level derived others⟩
  rw [ahead, behind, List.append_assoc]

theorem spelling_operation {unary : Parse Expr} (h : Spelling table .unary unary) (fuel : Nat) :
    Spelling table (.level .logical) (operation unary fuel) := by
  have product : Spelling table (.level .multiplicative) _ :=
    spelling_leftAssociative (l := .multiplicative) h fuel
  have sum : Spelling table (.level .additive) _ :=
    spelling_leftAssociative (l := .additive) product fuel
  have relation : Spelling table (.level .relational) _ :=
    spelling_leftAssociative (l := .relational) sum fuel
  exact spelling_leftAssociative (l := .logical) relation fuel

theorem spelling_assignment {unary : Parse Expr} (h : Spelling table .unary unary) (fuel : Nat) :
    Spelling table .assignment (assignment unary fuel) := by
  induction fuel with
  | zero => exact fun _ => yields_starve
  | succ fuel ih =>
      intro c
      refine yields_measured_bind ((spelling_operation h (fuel + 1) c).mono ?_)
      intro target d ht
      refine yields_peek_bind ?_
      split
      · rename_i hk
        refine yields_advance_bind (Yields.bind (yields_bareName_single fun note x single hv => ?_))
        subst hv
        refine Yields.bind ((ih d.forward).mono fun value d' hvalue => ?_)
        refine Yields.bind (yields_demand fun _ => yields_pure ?_)
        intro typed
        cases typed with
        | assign found inner _ =>
            obtain ⟨used, ahead, derived⟩ := hvalue inner
            obtain ⟨first, kind, place⟩ := ht.bare nofun found single
            obtain ⟨ty, position⟩ := note
            cases place
            refine ⟨c.next :: d.next :: used, ?_, .store kind hk derived⟩
            rw [first, ahead_eq_cons (c := d) (by simp [hk]), ahead]
            rfl
      · apply yields_pure
        intro typed
        obtain ⟨used, ahead, derived⟩ := ht typed
        exact ⟨used, ahead, .logical derived⟩

/-- A sign in front of an operand. -/
theorem yields_signed_spells {b d : Cursor} {operand : Expr} {a : Arith}
    (hk : b.next.kind = .plus ∧ a = .add ∨ b.next.kind = .minus ∧ a = .sub)
    (h : Spells table .unary b.forward operand d) :
    Yields (signed a operand b.next.position) d (Spells table .unary b) := by
  refine Yields.bind (yields_demandNumeric fun _ => yields_pure ?_)
  rw [zeroFor_eq]
  intro typed
  cases typed with
  | binary _ inner _ =>
      obtain ⟨used, ahead, derived⟩ := h inner
      have inside : b.next.kind ≠ .eof := by
        rcases hk with ⟨hk, _⟩ | ⟨hk, _⟩ <;> simp [hk]
      refine ⟨b.next :: used, ?_, .sign hk derived⟩
      rw [ahead_eq_cons inside, ahead]
      rfl

theorem spelling_unary (fuel : Nat) : Spelling table .unary (unary fuel) := by
  induction fuel with
  | zero => exact fun _ => yields_starve
  | succ fuel ih =>
      intro c
      refine yields_peek_bind ?_
      split
      · rename_i hk
        refine yields_advance_bind (Yields.bind ((ih c.forward).mono fun operand d ho => ?_))
        refine Yields.bind (yields_demand fun _ => yields_pure ?_)
        intro typed
        cases typed with
        | not inner _ _ =>
            obtain ⟨used, ahead, derived⟩ := ho inner
            refine ⟨c.next :: used, ?_, .not hk derived⟩
            rw [ahead_eq_cons (c := c) (by simp [hk]), ahead]
            rfl
      · rename_i hk
        refine yields_advance_bind (Yields.bind ((ih c.forward).mono fun operand d ho => ?_))
        exact yields_signed_spells (Or.inl ⟨hk, rfl⟩) ho
      · rename_i hk
        refine yields_advance_bind (Yields.bind ((ih c.forward).mono fun operand d ho => ?_))
        exact yields_signed_spells (Or.inr ⟨hk, rfl⟩) ho
      · rename_i hk
        refine yields_advance_bind ?_
        refine yields_measured_bind ((ih c.forward).mono fun target d ht => ?_)
        refine (yields_stepped ht nofun .add c.next.position).mono ?_
        rintro e d' ⟨rfl, he⟩ typed
        obtain ⟨x, ty, ahead, name, rfl⟩ := he typed
        refine ⟨[c.next, c.forward.next], ?_, .increment hk name⟩
        rw [ahead_eq_cons (c := c) (by simp [hk]), ahead]
        rfl
      · refine (spelling_postfixed (spelling_assignment ih fuel) c).mono fun e d he => ?_
        intro typed
        obtain ⟨used, ahead, derived⟩ := he typed
        exact ⟨used, ahead, .postfixed derived⟩

/-- An expression that is read is derived from the tokens that it uses up. -/
theorem spelling_expression (fuel : Nat) : Spelling table .assignment (expression fuel) :=
  spelling_assignment (spelling_unary fuel) fuel

end

end Sulti.Grammar
