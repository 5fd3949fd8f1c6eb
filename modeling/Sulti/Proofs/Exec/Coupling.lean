import Sulti.Proofs.Exec.Lifting

/-!
Two runs of one program, side by side. A coupling says which machines the runs
may be at together and what the second one may stop with where the first one
stops. Runs that start together stay together if the coupling is kept by the
four ways in which a machine is touched.
-/

namespace Sulti

structure Coupling where
  /-- Machines at which the runs may be together. -/
  machines : Machine → Machine → Prop
  /-- How the runs may stop together, with the machines they leave behind. -/
  stops : Stop → Machine → Stop → Machine → Prop
  /-- Where the first run stops like this, nothing is asked of the second. -/
  waived : Stop → Prop

namespace Coupling

open Exec

variable {α β : Type}

/-- The runs end together, with the same result, or they stop together. -/
inductive Meet (C : Coupling) :
    EStateM.Result Stop Machine α → EStateM.Result Stop Machine α → Prop where
  | ended {a : α} {n n' : Machine} (h : C.machines n n') : Meet C (.ok a n) (.ok a n')
  | stopped {s s' : Stop} {n n' : Machine} (h : C.stops s n s' n') :
      Meet C (.error s n) (.error s' n')
  | waived {s : Stop} {n : Machine} {r : EStateM.Result Stop Machine α} (h : C.waived s) :
      Meet C (.error s n) r

/-- Runs of the action that start together stay together. -/
def Keeps (C : Coupling) (p : Exec α) : Prop :=
  ∀ m m', C.machines m m' → C.Meet (p m) (p m')

/-- The coupling survives what a program does that looks up the given variables. -/
structure Stable (C : Coupling) (names : String → Prop) : Prop where
  /-- Runs may stop with the same cause. -/
  same {m m' : Machine} (h : C.machines m m') (s : Stop) : C.stops s m s m'
  find? {m m' : Machine} (h : C.machines m m') {name : String} (hn : names name) :
    m'.store.find? name = m.store.find? name
  write {m m' : Machine} (h : C.machines m m') (name : String) (c : Cell) :
    C.machines { m with store := m.store.insert name c } { m' with store := m'.store.insert name c }
  print {m m' : Machine} (h : C.machines m m') (text : String) :
    C.machines { m with output := m.output ++ text } { m' with output := m'.output ++ text }
  readFields : C.Keeps readFields

variable {C : Coupling}

theorem keeps_bind {p : Exec α} {f : α → Exec β} (hp : C.Keeps p) (hf : ∀ a, C.Keeps (f a)) :
    C.Keeps (p >>= f) := by
  intro m m' h
  have together := hp m m' h
  cases first : p m with
  | ok a n =>
      rw [first] at together
      cases second : p m' with
      | ok b n' =>
          rw [second] at together
          cases together with
          | ended after =>
              rw [bind_of_ok first, bind_of_ok second]
              exact hf a n n' after
      | error s' n' =>
          rw [second] at together
          cases together
  | error s n =>
      rw [first] at together
      rw [bind_of_error first]
      generalize second : p m' = r at together
      cases together with
      | stopped stops =>
          rw [bind_of_error second]
          exact .stopped stops
      | waived waived => exact .waived waived

theorem keeps_cell {names : String → Prop} (stable : C.Stable names) {name : String}
    (hn : names name) : C.Keeps (cell name) := by
  intro m m' h
  have same := stable.find? h hn
  cases found : m.store.find? name with
  | some c =>
      rw [cell_of_find? found, cell_of_find? (same.trans found)]
      exact .ended h
  | none =>
      rw [cell_of_absent found, cell_of_absent (same.trans found)]
      exact .stopped (stable.same h _)

theorem Stable.lifts {names : String → Prop} (stable : C.Stable names) :
    Lifts C.Keeps names fun _ => True where
  pure _ := fun _ _ h => .ended h
  throw {_ s} _ := fun _ _ h => .stopped (stable.same h s)
  bind := keeps_bind
  cell := keeps_cell stable
  write {name} _ c _ := fun _ _ h => .ended (stable.write h name c)
  readFields := stable.readFields
  print text := fun _ _ h => .ended (stable.print h text)

/-- Runs of a program from machines that are together end together or stop together, unless
the first one stops in a way that asks nothing of the second. -/
theorem Stable.run {names : String → Prop} (stable : C.Stable names) {program : Program}
    (seen : ∀ name ∈ program.names, names name) {m m' : Machine}
    (h : C.machines { m with output := "" } { m' with output := "" }) (limit : Nat) :
    (∃ n n', C.machines n n' ∧ m.run limit program = (.ok n.output, { n with output := "" }) ∧
      m'.run limit program = (.ok n'.output, { n' with output := "" })) ∨
    (∃ s n s' n', C.stops s n s' n' ∧ m.run limit program = (.error s, { n with output := "" }) ∧
      m'.run limit program = (.error s', { n' with output := "" })) ∨
    ∃ (s : Stop) (n : Machine), C.waived s ∧
      m.run limit program = (.error s, { n with output := "" }) := by
  have together := stable.lifts.runAll limit program seen (fun _ _ => trivial) _ _ h
  rcases m.run_cases limit program with ⟨n, run, result⟩ | ⟨s, n, run, result⟩
  · rcases m'.run_cases limit program with ⟨n', run', result'⟩ | ⟨s', n', run', result'⟩
    · rw [run, run'] at together
      cases together with
      | ended h => exact Or.inl ⟨n, n', h, result, result'⟩
    · rw [run, run'] at together
      cases together
  · rcases m'.run_cases limit program with ⟨n', run', result'⟩ | ⟨s', n', run', result'⟩
    · rw [run, run'] at together
      cases together with
      | waived h => exact Or.inr (Or.inr ⟨s, n, h, result⟩)
    · rw [run, run'] at together
      cases together with
      | stopped h => exact Or.inr (Or.inl ⟨s, n, s', n', h, result, result'⟩)
      | waived h => exact Or.inr (Or.inr ⟨s, n, h, result⟩)

end Coupling

end Sulti
