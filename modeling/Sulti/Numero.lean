/-!
The integers that a `NUMERO` holds: those of 64 bits with a sign. An
operation computes the exact integer first and then asks whether it fits, so
no result of one is ever wrapped or clamped.
-/

namespace Sulti

structure Numero where
  val : Int
  lower : -9223372036854775808 ≤ val
  upper : val ≤ 9223372036854775807
  deriving DecidableEq, Repr

namespace Numero

/-- The integer `n`, if it fits. -/
def ofInt? (n : Int) : Option Numero :=
  if h : -9223372036854775808 ≤ n ∧ n ≤ 9223372036854775807 then some ⟨n, h.1, h.2⟩ else none

theorem ofInt?_val (n : Numero) : ofInt? n.val = some n := by
  unfold ofInt?
  rw [dif_pos ⟨n.lower, n.upper⟩]

theorem val_of_ofInt? {n : Int} {m : Numero} (h : ofInt? n = some m) : m.val = n := by
  unfold ofInt? at h
  split at h
  · simp only [Option.some.injEq] at h
    rw [← h]
  · cases h

theorem ofInt?_eq_none_iff {n : Int} :
    ofInt? n = none ↔ n < -9223372036854775808 ∨ 9223372036854775807 < n := by
  unfold ofInt?
  split <;> simp <;> omega

def zero : Numero := ⟨0, by decide, by decide⟩

def one : Numero := ⟨1, by decide, by decide⟩

def least : Numero := ⟨-9223372036854775808, by decide, by decide⟩

def greatest : Numero := ⟨9223372036854775807, by decide, by decide⟩

/-- The integer that fits and is nearest to `n`. -/
def clamp (n : Int) : Numero :=
  ⟨max (-9223372036854775808) (min n 9223372036854775807), by omega, by omega⟩

def add? (a b : Numero) : Option Numero := ofInt? (a.val + b.val)

def sub? (a b : Numero) : Option Numero := ofInt? (a.val - b.val)

def mul? (a b : Numero) : Option Numero := ofInt? (a.val * b.val)

/-- The quotient rounded toward zero. There is none for a zero divisor, and
the one quotient that does not fit is that of the least integer by `-1`. -/
def div? (a b : Numero) : Option Numero :=
  if b.val = 0 then none else ofInt? (a.val.tdiv b.val)

/-- The remainder that goes with `div?`: it has the sign of `a`, and there is
one exactly when there is a quotient. -/
def mod? (a b : Numero) : Option Numero :=
  if (div? a b).isSome then ofInt? (a.val.tmod b.val) else none

end Numero

end Sulti
