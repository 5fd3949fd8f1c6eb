import Sulti.Proofs.Session.History

/-!
What every run of a session can be relied on for, whatever was called on the
session before. It evaluates every expression to a value of the type it was
read with, and of all faults it stops with few.
-/

namespace Sulti

namespace Session

/-- In every session, what gets past reading runs safely. Wherever the run comes to,
an expression yields a value of the type that its node carries. A run that stops
never does so because of a value that does not go into a variable or is no truth
value. An operator refuses its operands only where two numbers are compared that
are in no order, and a variable without a cell is one that was declared. -/
theorem Reachable.type_safe {s : Session} (h : s.Reachable) (call : Call) {program : Program}
    {checked : Session} (accepted : s.check call.source = (.ok program, checked)) :
    (∀ e m v n, Reaches (.stmts program, { s.machine with output := "" }) (.expr e, m) →
      e.eval m = .ok v n → v.ty = e.ty) ∧
    ∀ f after, s.perform call = (some (.stopped (.fault f)), after) →
      (∀ name expected found, f ≠ .unstorable name expected found) ∧
      (∀ use found, f ≠ .notTruth use found) ∧
      (∀ op left right, f = .invalidOperation op left right →
        ∃ o, op = .order o ∧ ∃ note l r m v k w n,
          Reaches (.stmts program, { s.machine with output := "" })
            (.expr (.binary note op l r), m) ∧
          l.eval m = .ok v k ∧ r.eval k = .ok w n ∧ v.ty = left ∧ w.ty = right ∧
          v.Unordered w) ∧
      ∀ name, f = .undefined name →
        checked.table.contains name = true ∧ after.machine.store.find? name = none := by
  have consistent := h.consistent
  obtain ⟨_, table, _, _, rfl⟩ := check_eq_ok accepted
  have typed := typed_of_check consistent.declarable accepted
  have follows := consistent.follows typed
  constructor
  · intro e m v n reached hv
    have start : Moment.Sound table s.machine.store
        (.stmts program, { s.machine with output := "" }) := ⟨⟨_, _, typed, .refl _⟩, follows⟩
    exact ((start.reaches reached).ty_of_eval hv).1
  · intro f after failed
    have outcome := outcome_perform s call
    rw [failed] at outcome
    cases outcome with
    | @stopped _ _ limit _ n h' run =>
        cases accepted.symm.trans h'
        have admissible := typed.fault_admissible (.refl _) follows.agrees run
        refine ⟨?_, ?_, ?_, ?_⟩
        · rintro name expected found rfl
          cases admissible
        · rintro use found rfl
          cases admissible
        · rintro op left right rfl
          cases admissible with
          | unordered reached hl hr unordered =>
              exact ⟨_, rfl, _, _, _, _, _, _, _, _, reached, hl, hr, rfl, rfl, unordered⟩
        · rintro name rfl
          cases admissible with
          | undefined declared absent => exact ⟨declared, absent⟩

/-- A name that was only checked has no cell. -/
theorem Reachable.type_safe_undefined :
    ∃ s program checked after, Reachable s ∧ s.check "y" = (.ok program, checked) ∧
      s.perform (.run 0 "y") = (some (.stopped (.fault (.undefined "y"))), after) ∧
      checked.table.contains "y" = true ∧ after.machine.store.find? "y" = none := by
  let s : Session := ((Session.new .repl (.ofList [])).check "MUGNA NUMERO y").2
  have reachable : s.Reachable :=
    ⟨.repl, .ofList [], .single ⟨.check "MUGNA NUMERO y", rfl⟩⟩
  have ok : (s.check "y").1.isOk = true := by decide +kernel
  have failed : s.perform (.run 0 "y") =
      (some (.stopped (.fault (.undefined "y"))), (s.perform (.run 0 "y")).2) :=
    Prod.ext (by decide +kernel) rfl
  cases read : (s.check "y").1 with
  | error failure =>
      rw [read] at ok
      cases ok
  | ok program =>
      have accepted : s.check "y" = (.ok program, (s.check "y").2) := Prod.ext read rfl
      have safe := Reachable.type_safe reachable (.run 0 "y") accepted
      exact ⟨s, program, _, _, reachable, accepted, failed, (safe.2 _ _ failed).2.2.2 "y" rfl⟩

end Session

end Sulti
