import Sulti.Proofs.Typing.Rules
import Sulti.Value

/-!
What an operator makes of values that it takes by the static rules. The result
has the type that the rules say, and there are few ways to fail: a zero
divisor, an integer that does not fit, and an order comparison in which one
side is no number.
-/

namespace Sulti.Value

/-- Arithmetic on two numbers is one of integers or gives a real. -/
theorem calculate_cases (a : Arith) {left right : Value} (hl : left.ty.isNumeric = true)
    (hr : right.ty.isNumeric = true) :
    (∃ l r, left = .numero l ∧ right = .numero r) ∨
      (left.ty = .tipik ∨ right.ty = .tipik) ∧
        ∃ x, calculate a left right = some (.ok (.tipik x)) := by
  cases left <;> cases hl <;> cases right <;> cases hr
  · exact Or.inl ⟨_, _, rfl, rfl⟩
  · exact Or.inr ⟨Or.inr rfl, _, rfl⟩
  · exact Or.inr ⟨Or.inl rfl, _, rfl⟩
  · exact Or.inr ⟨Or.inl rfl, _, rfl⟩

/-- The outcomes of arithmetic on integers. -/
theorem apply_integers (a : Arith) (l r : Numero) :
    (∃ n, apply (.arith a) (.numero l) (.numero r) = .ok (.numero n)) ∨
      apply (.arith a) (.numero l) (.numero r) = .error .divisionByZero ∨
      apply (.arith a) (.numero l) (.numero r) = .error (.overflow (.arith a)) := by
  simp only [apply, calculate]
  split
  · exact Or.inr (Or.inl rfl)
  · split
    · rename_i n _
      exact Or.inl ⟨n, rfl⟩
    · exact Or.inr (Or.inr rfl)

/-- The outcomes of arithmetic with a real. -/
theorem apply_real {a : Arith} {left right : Value} {x : Float}
    (h : calculate a left right = some (.ok (.tipik x))) :
    apply (.arith a) left right = .ok (.tipik x) ∨
      apply (.arith a) left right = .error .divisionByZero := by
  simp only [apply, h]
  split
  · exact Or.inr rfl
  · exact Or.inl rfl

theorem equal?_isSome {left right : Value} (h : left.ty.compatible right.ty = true) :
    ∃ b, equal? left right = some b := by
  rcases Ty.compatible_iff.mp h with same | ⟨hl, hr⟩
  · cases left <;> cases right <;> cases same <;> exact ⟨_, rfl⟩
  · cases left <;> cases hl <;> cases right <;> cases hr <;> exact ⟨_, rfl⟩

theorem compare?_letters {left right : Value} (hl : left.ty = .letra) (hr : right.ty = .letra) :
    ∃ c, compare? left right = some c := by
  cases left <;> cases hl
  cases right <;> cases hr
  exact ⟨_, rfl⟩

/-- Two numbers that do not compare are not both integers. -/
theorem real_of_compare?_eq_none {left right : Value} (hl : left.ty.isNumeric = true)
    (hr : right.ty.isNumeric = true) (h : compare? left right = none) :
    left.ty = .tipik ∨ right.ty = .tipik := by
  cases left <;> cases hl
  · cases right <;> cases hr
    · cases h
    · exact Or.inr rfl
  · exact Or.inl rfl

/-- Two numbers, at least one of them a real, that are in no order. -/
structure Unordered (left right : Value) : Prop where
  left_numeric : left.ty.isNumeric = true
  right_numeric : right.ty.isNumeric = true
  real : left.ty = .tipik ∨ right.ty = .tipik
  incomparable : compare? left right = none

/-- The faults of an operator on operands that the static rules allow. -/
inductive OperationFault (op : Op) (left right : Value) : Fault → Prop where
  | divisionByZero : OperationFault op left right .divisionByZero
  | overflow (a : Arith) : OperationFault op left right (.overflow (.arith a))
  | unordered (o : Order) (own : op = .order o) (h : Unordered left right) :
      OperationFault op left right (.invalidOperation op left.ty right.ty)

/-- The operator gives a value of the type, or fails in one of the ways above. -/
def Applies (op : Op) (left right : Value) (ty : Ty) : Prop :=
  (∃ v, left.apply op right = .ok v ∧ v.ty = ty) ∨
    ∃ f, left.apply op right = .error f ∧ OperationFault op left right f

theorem applies_integers {left right : Value} (a : Arith) (hl : left.ty = .numero)
    (hr : right.ty = .numero) : Applies (.arith a) left right .numero := by
  cases left <;> cases hl
  cases right <;> cases hr
  rename_i l r
  rcases apply_integers a l r with ⟨n, h⟩ | h | h
  · exact Or.inl ⟨_, h, rfl⟩
  · exact Or.inr ⟨_, h, .divisionByZero⟩
  · exact Or.inr ⟨_, h, .overflow a⟩

theorem applies_reals {left right : Value} (a : Arith) (hl : left.ty.isNumeric = true)
    (hr : right.ty.isNumeric = true) (real : left.ty = .tipik ∨ right.ty = .tipik) :
    Applies (.arith a) left right .tipik := by
  rcases calculate_cases a hl hr with ⟨l, r, rfl, rfl⟩ | ⟨_, x, hx⟩
  · rcases real with h | h <;> cases h
  · rcases apply_real hx with h | h
    · exact Or.inl ⟨_, h, rfl⟩
    · exact Or.inr ⟨_, h, .divisionByZero⟩

theorem applies_numbers {left right : Value} (o : Order) (hl : left.ty.isNumeric = true)
    (hr : right.ty.isNumeric = true) : Applies (.order o) left right .tinuod := by
  cases hc : compare? left right with
  | some c => exact Or.inl ⟨.tinuod (o.holds c), by simp [apply, hc], rfl⟩
  | none =>
      have unordered : Unordered left right := ⟨hl, hr, real_of_compare?_eq_none hl hr hc, hc⟩
      exact Or.inr ⟨_, by simp [apply, hc], .unordered o rfl unordered⟩

/-- An operator on operands that the rules allow gives a value of the type that
the rules say, or fails in one of the ways above. -/
theorem apply_typed {op : Op} {left right : Value} {ty : Ty}
    (types : op.Types left.ty right.ty ty) : Applies op left right ty := by
  generalize hlt : left.ty = lt at types
  generalize hrt : right.ty = rt at types
  cases types with
  | integers a => exact applies_integers a hlt hrt
  | realLeft a hr => exact applies_reals a (by rw [hlt]; rfl) (by rw [hrt]; exact hr) (Or.inl hlt)
  | realRight a hl => exact applies_reals a (by rw [hlt]; exact hl) (by rw [hrt]; rfl) (Or.inr hrt)
  | numbers o hl hr => exact applies_numbers o (by rw [hlt]; exact hl) (by rw [hrt]; exact hr)
  | letters o =>
      obtain ⟨c, hc⟩ := compare?_letters hlt hrt
      exact Or.inl ⟨.tinuod (o.holds c), by simp [apply, hc], rfl⟩
  | eq h =>
      subst hlt hrt
      obtain ⟨b, hb⟩ := equal?_isSome h
      exact Or.inl ⟨.tinuod b, by simp [apply, hb], rfl⟩
  | ne h =>
      subst hlt hrt
      obtain ⟨b, hb⟩ := equal?_isSome h
      exact Or.inl ⟨.tinuod (!b), by simp [apply, hb], rfl⟩
  | and =>
      cases left <;> cases hlt
      cases right <;> cases hrt
      exact Or.inl ⟨_, rfl, rfl⟩
  | or =>
      cases left <;> cases hlt
      cases right <;> cases hrt
      exact Or.inl ⟨_, rfl, rfl⟩

/-- A truth value can be used as one. -/
theorem truth_of_ty {v : Value} (h : v.ty = .tinuod) (use : TruthUse) :
    ∃ b, v.truth use = .ok b := by
  cases v <;> cases h
  exact ⟨_, rfl⟩

theorem negate_of_ty {v : Value} (h : v.ty = .tinuod) :
    ∃ b, v.negate = .ok (.tinuod b) := by
  cases v <;> cases h
  exact ⟨_, rfl⟩

end Sulti.Value
