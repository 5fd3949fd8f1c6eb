import Sulti.Proofs.Exec.Initialised
import Sulti.Proofs.Session.History

/-!
Sessions in which every declared name has a cell. Only two things make a name
known without one: a text that is checked and not run, and a declaration that
is passed over. In a session without either, the names of the table and those
of the cells are the same after every call, even after one that fails midway,
and a run never misses a cell.
-/

namespace Sulti

/-- The calls that do not only check. -/
def Call.runs : Call → Bool
  | .run _ _ | .runLine _ _ => true
  | .check _ => false

namespace Session

/-- The call runs its text, in which no condition and no loop declares anything if it is
a program at all. -/
structure Unconditional (s : Session) (call : Call) : Prop where
  runs : call.runs = true
  program : ∀ program checked, s.check call.source = (.ok program, checked) →
    Stmt.unconditionalAll program = true

/-- Some such calls, one after another, lead from the one session to the other. -/
abbrev LeadsUnconditionally : Session → Session → Prop :=
  Relation.ReflTransGen fun s t => ∃ call, s.Unconditional call ∧ (s.perform call).2 = t

/-- A consistent session in which every name of the table has a cell. -/
structure Initialised (s : Session) : Prop where
  consistent : s.Consistent
  covers : s.machine.store.Covers s.table

theorem initialised_new (mode : Mode) (lines : Lines) : (new mode lines).Initialised := by
  constructor
  · exact consistent_new mode lines
  · intro name known
    cases known

theorem Initialised.contains_eq {s : Session} (h : s.Initialised) (name : String) :
    s.table.contains name = s.machine.store.contains name := by
  rw [Bool.eq_iff_iff]
  constructor
  · exact h.covers name
  · intro found
    obtain ⟨cell, hc⟩ := Table.contains_iff.mp found
    exact Table.contains_iff.mpr ⟨cell.ty, (h.consistent.agrees name cell hc).1⟩

/-- What a call is left with: a cell for every name, and no failure for want of a cell. -/
def Filled (result : Option Failure × Session) : Prop :=
  result.2.machine.store.Covers result.2.table ∧
    ∀ name, result.1 ≠ some (.stopped (.fault (.undefined name)))

theorem Initialised.filled_run {s : Session} (h : s.Initialised) {source : String}
    (unconditional : ∀ program checked, s.check source = (.ok program, checked) →
      Stmt.unconditionalAll program = true) (limit : Nat) :
    Filled (s.perform (.run limit source)) := by
  have refused {failure : Failure} (hc : s.check source = (.error failure, s))
      (other : ∀ stop, failure ≠ .stopped stop) : Filled (s.perform (.run limit source)) := by
    rw [perform, run_of_refused hc]
    constructor
    · exact h.covers
    · rintro name ⟨⟩
      exact other _ rfl
  rcases check_cases s source with ⟨flaws, hc⟩ | ⟨r, hc⟩ | ⟨_, program, table, _, _, hc⟩
  · exact refused hc (by simp)
  · exact refused hc (by simp)
  · have typed := typed_of_check h.consistent.declarable hc
    rcases typed.run_covers (unconditional _ _ hc) limit h.covers with
      ⟨output, n, run, covers⟩ | ⟨stop, n, run, covers, defined⟩
    · rw [perform, run_of_ended hc run]
      constructor
      · exact covers
      · rintro name ⟨⟩
    · rw [perform, run_of_stopped hc run]
      constructor
      · -- a name that is kept was known before the run, or has got its cell in it
        intro name kept
        obtain ⟨ty, found⟩ := Table.contains_iff.mp kept
        rw [Table.find?_retain] at found
        split at found
        · rename_i reason
          rw [Bool.or_eq_true] at reason
          rcases reason with known | made
          · exact covers name known
          · exact made
        · cases found
      · rintro name ⟨⟩
        exact defined name rfl

/-- One call keeps a session initialised, whether it succeeds or not. -/
theorem Initialised.perform {s : Session} (h : s.Initialised) {call : Call}
    (unconditional : s.Unconditional call) :
    (s.perform call).2.Initialised ∧
      ∀ name, (s.perform call).1 ≠ some (.stopped (.fault (.undefined name))) := by
  have consistent := ((outcome_perform s call).consistent h.consistent).1
  obtain ⟨runs, program⟩ := unconditional
  have filled : Filled (s.perform call) := by
    cases call with
    | run limit source => exact h.filled_run program limit
    | runLine limit line => exact h.filled_run program limit
    | check source => cases runs
  obtain ⟨covers, defined⟩ := filled
  exact ⟨⟨consistent, covers⟩, defined⟩

theorem LeadsUnconditionally.initialised {s t : Session} (leads : LeadsUnconditionally s t)
    (h : s.Initialised) : t.Initialised := by
  induction leads with
  | refl => exact h
  | tail _ step ih =>
      obtain ⟨call, unconditional, rfl⟩ := step
      exact (ih.perform unconditional).1

/-- In a session that was only run, and never given a program in which a condition or a loop
declares something, a name is in the table exactly if it has a cell. That is so behind every
call, whatever the calls before it came to, and no call fails for want of a cell. -/
theorem contains_table_eq_store {mode : Mode} {lines : Lines} {s : Session}
    (leads : LeadsUnconditionally (.new mode lines) s) :
    (∀ name, s.table.contains name = s.machine.store.contains name) ∧
      ∀ call, s.Unconditional call →
        ∀ name, (s.perform call).1 ≠ some (.stopped (.fault (.undefined name))) := by
  have initialised := LeadsUnconditionally.initialised leads (initialised_new mode lines)
  constructor
  · exact initialised.contains_eq
  · intro call unconditional
    exact (initialised.perform unconditional).2

/-- After a declaration that stops at its second name. -/
theorem contains_table_eq_store_stopped :
    ∃ s, LeadsUnconditionally (.new .repl (.ofList [])) s ∧
      s.table.contains "x" = true ∧ s.table.contains "y" = false ∧
      (∀ name, s.table.contains name = s.machine.store.contains name) ∧
      s.Unconditional (.run 0 "x=2") ∧
      ∀ name, (s.perform (.run 0 "x=2")).1 ≠ some (.stopped (.fault (.undefined name))) := by
  let start : Session := .new .repl (.ofList [])
  let s : Session := (start.perform (.run 0 "MUGNA NUMERO x=1,y=1/0")).2
  have unconditional {t : Session} {source : String}
      (h : (t.check source).1.toOption.all Stmt.unconditionalAll = true) :
      t.Unconditional (.run 0 source) := by
    constructor
    · rfl
    · intro program checked accepted
      rw [show t.check source = _ from accepted] at h
      exact h
  have leads : LeadsUnconditionally start s := by
    apply Relation.ReflTransGen.single
    exact ⟨_, unconditional (by decide +kernel), rfl⟩
  have next : s.Unconditional (.run 0 "x=2") := unconditional (by decide +kernel)
  obtain ⟨same, defined⟩ := contains_table_eq_store leads
  exact ⟨s, leads, by decide +kernel, by decide +kernel, same, next, defined _ next⟩

end Session

end Sulti
