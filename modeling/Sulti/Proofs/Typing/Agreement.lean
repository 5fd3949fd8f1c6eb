import Sulti.Proofs.Exec.Invariant
import Sulti.Proofs.Grammar.Completeness
import Sulti.Proofs.Typing.Operation

/-!
The static rules and the operators agree in both directions. Operands that the
rules allow give a value of the type that the rules say, or one of few faults;
operands that they do not allow give no value at all. So it is with storing: a
type takes the values of exactly those types that may stand for it, except for a
real that does not fit into an integer.

That nothing is allowed too little comes out of one fact. An operator that gives a
value has operands that the rules allow, and the value has the type that they say.
-/

namespace Sulti

namespace Value

theorem isNumeric_of_toReal? {v : Value} {x : Float} (h : v.toReal? = some x) :
    v.ty.isNumeric = true := by
  cases v with
  | numero n => rfl
  | tipik x => rfl
  | letra _ | tinuod _ | text _ | empty => cases h

/-- Arithmetic gives a value only for numbers. -/
theorem types_of_calculate {a : Arith} {left right v : Value}
    (h : calculate a left right = some (.ok v)) : (Op.arith a).Types left.ty right.ty v.ty := by
  unfold calculate at h
  split at h
  · split at h
    · cases h
      exact .integers a
    · cases h
  · rename_i mixed
    obtain ⟨x, hx, h⟩ := Option.bind_eq_some_iff.mp h
    obtain ⟨y, hy, h⟩ := Option.bind_eq_some_iff.mp h
    cases h
    have hl := isNumeric_of_toReal? hx
    have hr := isNumeric_of_toReal? hy
    -- Two integers went the other way, so one of the numbers is a real.
    rcases calculate_cases a hl hr with ⟨l, r, rfl, rfl⟩ | ⟨real | real, _⟩
    · exact absurd rfl (mixed l r rfl)
    · rw [real]
      exact .realLeft a hr
    · rw [real]
      exact .realRight a hl

/-- Only numbers and letters are put in order, and only with their like. -/
theorem types_of_compare? {left right : Value} {c : Ordering} (o : Order)
    (h : compare? left right = some c) : (Op.order o).Types left.ty right.ty .tinuod := by
  unfold compare? at h
  split at h
  · exact .numbers o rfl rfl
  · exact .letters o
  · obtain ⟨x, hx, h⟩ := Option.bind_eq_some_iff.mp h
    obtain ⟨y, hy, _⟩ := Option.bind_eq_some_iff.mp h
    exact .numbers o (isNumeric_of_toReal? hx) (isNumeric_of_toReal? hy)

/-- Only values that go together are found equal or different. -/
theorem compatible_of_equal? {left right : Value} {b : Bool} (h : equal? left right = some b) :
    left.ty.compatible right.ty = true := by
  cases left with
  | numero _ | tipik _ =>
      cases right with
      | numero _ | tipik _ => rfl
      | letra _ | tinuod _ | text _ | empty => cases h
  | letra _ =>
      cases right with
      | letra _ => rfl
      | numero _ | tipik _ | tinuod _ | text _ | empty => cases h
  | tinuod _ =>
      cases right with
      | tinuod _ => rfl
      | numero _ | tipik _ | letra _ | text _ | empty => cases h
  | text _ =>
      cases right with
      | text _ => rfl
      | numero _ | tipik _ | letra _ | tinuod _ | empty => cases h
  | empty =>
      cases right with
      | empty => rfl
      | numero _ | tipik _ | letra _ | tinuod _ | text _ => cases h

/-- A logical operator has a value on two truth values and fails on anything else. -/
theorem logic_cases (left right : Value) (g : Bool → Bool → Bool) :
    let outcome : Except Fault Value := do
      let l ← left.truth .condition
      let r ← right.truth .condition
      return .tinuod (g l r)
    (left.ty = .tinuod ∧ right.ty = .tinuod ∧ ∃ b, outcome = .ok (.tinuod b)) ∨
      ∃ found, outcome = .error (.notTruth .condition found) := by
  intro outcome
  cases left with
  | tinuod l =>
      cases right with
      | tinuod r => exact Or.inl ⟨rfl, rfl, g l r, rfl⟩
      | numero _ | tipik _ | letra _ | text _ | empty => exact Or.inr ⟨_, rfl⟩
  | numero _ | tipik _ | letra _ | text _ | empty => exact Or.inr ⟨_, rfl⟩

/-- An operator that gives a value is allowed by the rules, with the type of that value. -/
theorem types_of_apply {op : Op} {left right v : Value} (h : left.apply op right = .ok v) :
    op.Types left.ty right.ty v.ty := by
  cases op with
  | arith a =>
      simp only [apply] at h
      split at h
      · cases h
      · cases hc : calculate a left right with
        | none => simp [hc] at h
        | some outcome =>
            simp only [hc, Option.getD_some] at h
            exact types_of_calculate (by rw [hc, h])
  | order o =>
      cases hc : compare? left right with
      | none => simp [apply, hc] at h
      | some c =>
          simp only [apply, hc, Except.ok.injEq] at h
          rw [← h]
          exact types_of_compare? o hc
  | eq =>
      cases hb : equal? left right with
      | none => simp [apply, hb] at h
      | some b =>
          simp only [apply, hb, Except.ok.injEq] at h
          rw [← h]
          exact .eq (compatible_of_equal? hb)
  | ne =>
      cases hb : equal? left right with
      | none => simp [apply, hb] at h
      | some b =>
          simp only [apply, hb, Except.ok.injEq] at h
          rw [← h]
          exact .ne (compatible_of_equal? hb)
  | and =>
      rcases logic_cases left right (· && ·) with ⟨hl, hr, b, value⟩ | ⟨_, fault⟩
      · cases h.symm.trans value
        rw [hl, hr]
        exact .and
      · cases h.symm.trans fault
  | or =>
      rcases logic_cases left right (· || ·) with ⟨hl, hr, b, value⟩ | ⟨_, fault⟩
      · cases h.symm.trans value
        rw [hl, hr]
        exact .or
      · cases h.symm.trans fault

theorem fault_of_calculate {a : Arith} {left right : Value} {f : Fault}
    (h : calculate a left right = some (.error f)) : f = .overflow (.arith a) := by
  unfold calculate at h
  split at h
  · split at h
    · cases h
    · cases h
      rfl
  · obtain ⟨x, _, h⟩ := Option.bind_eq_some_iff.mp h
    obtain ⟨y, _, h⟩ := Option.bind_eq_some_iff.mp h
    cases h

/-- All that an operator can fail with, whatever its operands are. -/
theorem fault_of_apply {op : Op} {left right : Value} {f : Fault}
    (h : left.apply op right = .error f) :
    f = .invalidOperation op left.ty right.ty ∨ (∃ found, f = .notTruth .condition found) ∨
      ∃ a, op = .arith a ∧ (f = .divisionByZero ∨ f = .overflow (.arith a)) := by
  cases op with
  | arith a =>
      simp only [apply] at h
      split at h
      · cases h
        exact Or.inr (Or.inr ⟨a, rfl, Or.inl rfl⟩)
      · cases hc : calculate a left right with
        | none =>
            simp only [hc, Option.getD_none, Except.error.injEq] at h
            exact Or.inl h.symm
        | some outcome =>
            simp only [hc, Option.getD_some] at h
            exact Or.inr (Or.inr ⟨a, rfl, Or.inr (fault_of_calculate (by rw [hc, h]))⟩)
  | order o =>
      cases hc : compare? left right with
      | some c => simp [apply, hc] at h
      | none =>
          simp only [apply, hc, Except.error.injEq] at h
          exact Or.inl h.symm
  | eq | ne =>
      cases hb : equal? left right with
      | some b => simp [apply, hb] at h
      | none =>
          simp only [apply, hb, Except.error.injEq] at h
          exact Or.inl h.symm
  | and =>
      rcases logic_cases left right (· && ·) with ⟨_, _, b, value⟩ | ⟨found, fault⟩
      · cases h.symm.trans value
      · cases h.symm.trans fault
        exact Or.inr (Or.inl ⟨found, rfl⟩)
  | or =>
      rcases logic_cases left right (· || ·) with ⟨_, _, b, value⟩ | ⟨found, fault⟩
      · cases h.symm.trans value
      · cases h.symm.trans fault
        exact Or.inr (Or.inl ⟨found, rfl⟩)

/-- What the rules allow gives a value of their type, or an arithmetic fault of an arithmetic
operator, or is a comparison with a real that is in no order. -/
theorem apply_of_result {op : Op} {left right : Value} {ty : Ty}
    (h : op.result left.ty right.ty = .ok ty) :
    (∃ v, left.apply op right = .ok v ∧ v.ty = ty) ∨
      (∃ a, op = .arith a ∧ (left.apply op right = .error .divisionByZero ∨
        left.apply op right = .error (.overflow (.arith a)))) ∨
      ∃ o, op = .order o ∧ (left.ty = .tipik ∨ right.ty = .tipik) ∧
        left.apply op right = .error (.invalidOperation op left.ty right.ty) := by
  rcases apply_typed (Op.types_of_result h) with ok | ⟨f, failed, fault⟩
  · exact Or.inl ok
  · right
    cases fault with
    | unordered o own unordered => exact Or.inr ⟨o, own, unordered.real, failed⟩
    | divisionByZero =>
        rcases fault_of_apply failed with other | ⟨_, other⟩ | ⟨a, own, _⟩
        · cases other
        · cases other
        · exact Or.inl ⟨a, own, Or.inl failed⟩
    | overflow during =>
        rcases fault_of_apply failed with other | ⟨_, other⟩ | ⟨a, own, other | same⟩
        · cases other
        · cases other
        · cases other
        · exact Or.inl ⟨a, own, Or.inr (failed.trans (congrArg _ same))⟩

/-- What the rules do not allow gives no value. -/
theorem apply_of_mismatch {op : Op} {left right : Value} {m : Mismatch}
    (h : op.result left.ty right.ty = .error m) : ∃ f, left.apply op right = .error f := by
  cases outcome : left.apply op right with
  | error f => exact ⟨f, rfl⟩
  | ok v =>
      have allowed := Op.result_of_types (types_of_apply outcome)
      cases h.symm.trans allowed

end Value

/-- A type is not given a value of a type that may not stand for it. -/
theorem Store.coerce_of_incompatible {ty : Ty} {value : Value}
    (h : ty.compatible value.ty = false) (name : String) :
    coerce name ty value = .error (.unstorable name ty value.ty) := by
  unfold coerce
  split
  · cases h
  · cases h
  · rw [if_neg]
    rintro rfl
    simp [Ty.compatible] at h

theorem Store.compatible_iff_coerce (name : String) (ty : Ty) (value : Value) :
    ty.compatible value.ty = true ↔
      ∀ other expected found, coerce name ty value ≠ .error (.unstorable other expected found) := by
  constructor
  · intro fits other expected found refused
    cases overflow_of_coerce fits refused
  · intro never
    cases fits : ty.compatible value.ty with
    | true => rfl
    | false => exact absurd (coerce_of_incompatible fits name) (never _ _ _)

namespace Value

/-- The rules that are checked before a program runs are those that its values obey. An operator
on operands of types that the rules allow gives a value of the type that they say, or fails by
a zero divisor or an overflow if it is an arithmetic one, or as an order comparison with a real
on one side; on operands that they do not allow it fails. And a type takes a value, unless the
value does not fit, exactly if the type of the value may stand for it; what is stored then has
that type. -/
theorem rules_agree :
    (∀ (op : Op) (left right : Value),
      (∀ ty, op.result left.ty right.ty = .ok ty →
        (∃ v, left.apply op right = .ok v ∧ v.ty = ty) ∨
        (∃ a, op = .arith a ∧ (left.apply op right = .error .divisionByZero ∨
          left.apply op right = .error (.overflow (.arith a)))) ∨
        ∃ o, op = .order o ∧ (left.ty = .tipik ∨ right.ty = .tipik) ∧
          left.apply op right = .error (.invalidOperation op left.ty right.ty)) ∧
      ∀ m, op.result left.ty right.ty = .error m → ∃ f, left.apply op right = .error f) ∧
    ∀ (name : String) (ty : Ty) (value : Value),
      (ty.compatible value.ty = true ↔ ∀ other expected found,
        Store.coerce name ty value ≠ .error (.unstorable other expected found)) ∧
      ∀ stored, Store.coerce name ty value = .ok stored → stored.ty = ty := by
  constructor
  · intro op left right
    constructor
    · intro ty
      exact apply_of_result
    · intro m
      exact apply_of_mismatch
  · intro name ty value
    constructor
    · exact Store.compatible_iff_coerce name ty value
    · intro stored
      exact Store.ty_of_coerce

/-- Truth values are not put in order, a real that is no number compares with nothing, and a
letter is not stored as an integer. -/
theorem rules_agree_unordered :
    (∃ f, (Value.tinuod false).apply (.order .lt) (.tinuod true) = .error f) ∧
      (Value.tipik Binary64.quietNaN).apply (.order .le) (.numero .one) =
        .error (.invalidOperation (.order .le) .tipik .numero) ∧
      ¬ ∀ other expected found, Store.coerce "n" .numero (.letra 'a') ≠
        .error (.unstorable other expected found) := by
  refine ⟨(rules_agree.1 (.order .lt) (.tinuod false) (.tinuod true)).2 _ rfl, ?_, ?_⟩
  · have none : compare? (.tipik Binary64.quietNaN) (.numero .one) = none := by decide
    rcases (rules_agree.1 (.order .le) (.tipik Binary64.quietNaN) (.numero .one)).1 _ rfl with
      ⟨v, value, _⟩ | ⟨a, own, _⟩ | ⟨_, _, _, fault⟩
    · simp [apply, none] at value
    · cases own
    · exact fault
  · rw [← (rules_agree.2 "n" .numero (.letra 'a')).1]
    decide

end Value

end Sulti
