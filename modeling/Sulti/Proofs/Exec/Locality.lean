import Sulti.Proofs.Exec.Coupling

/-!
Execution is local. What a program does depends on the cells of the variables
that occur in it and on the lines that it reads, and on nothing else; it leaves
the other cells as they are and the lines behind those it reads unread. This
holds of every tree, well typed or not, and also of runs that stop midway.
-/

namespace Sulti

open Exec

namespace Machine

/-- The same lines to read, the same output, and the same cells for the given names. -/
structure AgreeOn (names : List String) (m m' : Machine) : Prop where
  lines : m'.lines = m.lines
  output : m'.output = m.output
  cells : ∀ name ∈ names, m'.store.find? name = m.store.find? name

/-- The machine with more to read behind its own lines. -/
def supplied (m : Machine) (extra : List (Except String String)) : Machine :=
  { m with lines := { m.lines with pending := m.lines.pending ++ extra } }

end Machine

/-! What a run does to the store. -/

theorem Exec.lifts_store {J : Store → Prop} {stored : String → Prop}
    (h : ∀ s name c, stored name → c.value.ty = c.ty → J s → J (s.insert name c)) :
    Lifts (Ensures (fun m => J m.store) fun _ => True) (fun _ => True) stored where
  pure _ := ensures_pure trivial
  throw _ := ensures_throw
  bind hp hf := hp.bind fun a _ => hf a
  cell {name} _ := by
    apply ensures_get_bind
    intro m _
    split
    · exact ensures_pure trivial
    · exact ensures_throw
  write {name} hn c typed := ensures_modify fun m hm => h m.store name c hn typed hm
  readFields := by
    intro m hm
    rcases hr : m.lines.next with ⟨reason | line, lines⟩
    · rw [readFields_of_error hr]
      exact hm
    · rw [readFields_of_ok hr]
      exact ⟨hm, trivial⟩
  print _ := ensures_modify fun _ hm => hm

/-- What writing the variables of a program keeps true of a store, its run does. -/
theorem Machine.run_store {J : Store → Prop} {program : Program}
    (h : ∀ s name c, name ∈ program.targets → c.value.ty = c.ty → J s → J (s.insert name c))
    (limit : Nat) {m : Machine} (hm : J m.store) : J (m.run limit program).2.store := by
  have kept : Ensures (fun m => J m.store) (fun _ => True) (Stmt.runAll limit program) :=
    (lifts_store h).runAll limit program (fun _ _ => trivial) fun _ member => member
  have start : J (Machine.store { m with output := "" }) := hm
  rcases m.run_cases limit program with ⟨n, run, result⟩ | ⟨s, n, run, result⟩
  · rw [result]
    exact (kept.ok start run).1
  · rw [result]
    have after : J n.store := kept.error start run
    exact after

theorem Machine.run_other {program : Program} {name : String} (h : name ∉ program.targets)
    (limit : Nat) (m : Machine) :
    (m.run limit program).2.store.find? name = m.store.find? name := by
  apply Machine.run_store (J := fun s => s.find? name = m.store.find? name)
  · intro s other c member _ same
    have apart : name ≠ other := by
      rintro rfl
      exact h member
    rw [Table.find?_insert, if_neg apart, same]
  · rfl

theorem Machine.run_contains {name : String} (limit : Nat) (program : Program) {m : Machine}
    (h : m.store.contains name = true) : (m.run limit program).2.store.contains name = true := by
  apply Machine.run_store (J := fun s => s.contains name = true)
  · intro s other c _ _ found
    rw [Table.contains_insert, found, Bool.or_true]
  · exact h

/-! Two machines that agree on the variables of a program. -/

namespace Coupling

def agreeing (names : List String) : Coupling where
  machines := Machine.AgreeOn names
  stops s n s' n' := s' = s ∧ Machine.AgreeOn names n n'
  waived _ := False

theorem stable_agreeing (names : List String) : (agreeing names).Stable (· ∈ names) where
  same h s := ⟨rfl, h⟩
  find? h name hn := h.cells name hn
  write h name c := by
    refine ⟨h.lines, h.output, fun other member => ?_⟩
    rw [Table.find?_insert, Table.find?_insert, h.cells other member]
  print h text := ⟨h.lines, by rw [h.output], h.cells⟩
  readFields := by
    intro m m' h
    have same := h.lines
    rcases hr : m.lines.next with ⟨reason | line, lines⟩
    · have hr' : m'.lines.next = (.error reason, lines) := by rw [same, hr]
      rw [readFields_of_error hr, readFields_of_error hr']
      exact .stopped ⟨rfl, rfl, h.output, h.cells⟩
    · have hr' : m'.lines.next = (.ok line, lines) := by rw [same, hr]
      rw [readFields_of_ok hr, readFields_of_ok hr']
      exact .ended ⟨rfl, h.output, h.cells⟩

/-- More to read behind the lines of the first machine. A read that fails may be one
that goes on in the second. -/
def supplying (extra : List (Except String String)) : Coupling where
  machines m m' := m' = m.supplied extra
  stops s n s' n' := s' = s ∧ n' = n.supplied extra
  waived s := ∃ reason, s = .fault (.unreadable reason)

theorem stable_supplying (extra : List (Except String String)) :
    (supplying extra).Stable fun _ => True where
  same h s := ⟨rfl, h⟩
  find? h _ _ := by rw [h]; rfl
  write h _ c := by rw [h]; rfl
  print h text := by rw [h]; rfl
  readFields := by
    rintro m _ rfl
    rcases hr : m.lines.next with ⟨reason | line, lines⟩
    · rw [readFields_of_error hr]
      exact .waived ⟨reason, rfl⟩
    · have hr' : (m.supplied extra).lines.next =
          (.ok line, { lines with pending := lines.pending ++ extra }) := by
        obtain ⟨store, ⟨pending, exhausted⟩, output⟩ := m
        cases pending with
        | nil => cases hr
        | cons read rest => cases hr; rfl
      rw [readFields_of_ok hr, readFields_of_ok hr']
      exact .ended rfl

end Coupling

namespace Machine

/-- Machines that agree on the variables of a program run it to the same result, and agree
on these variables and on what is left to read afterwards. -/
theorem run_agree {program : Program} {m m' : Machine} (lines : m'.lines = m.lines)
    (cells : ∀ name ∈ program.names, m'.store.find? name = m.store.find? name) (limit : Nat) :
    (m'.run limit program).1 = (m.run limit program).1 ∧
      (m'.run limit program).2.lines = (m.run limit program).2.lines ∧
      ∀ name ∈ program.names,
        (m'.run limit program).2.store.find? name = (m.run limit program).2.store.find? name := by
  have start : AgreeOn program.names { m with output := "" } { m' with output := "" } :=
    ⟨lines, rfl, cells⟩
  rcases (Coupling.stable_agreeing program.names).run (fun _ member => member) start limit with
    ⟨n, n', agree, run, run'⟩ | ⟨s, n, s', n', ⟨same, agree⟩, run, run'⟩ | ⟨_, _, ⟨⟩, _⟩
  · rw [run, run']
    exact ⟨congrArg Except.ok agree.output, agree.lines, agree.cells⟩
  · rw [run, run', same]
    exact ⟨rfl, agree.lines, agree.cells⟩

/-- Lines behind those that a run reads stay unread and make no difference to it. -/
theorem run_supplied {program : Program} {m : Machine} {limit : Nat}
    (readable : ∀ reason, (m.run limit program).1 ≠ .error (.fault (.unreadable reason)))
    (extra : List (Except String String)) :
    (m.supplied extra).run limit program =
      ((m.run limit program).1, (m.run limit program).2.supplied extra) := by
  have stable := Coupling.stable_supplying extra
  have seen : ∀ name ∈ program.names, True := fun _ _ => trivial
  have start : (Coupling.supplying extra).machines { m with output := "" }
      { m.supplied extra with output := "" } := rfl
  rcases stable.run seen start limit with
    ⟨n, n', rfl, run, run'⟩ | ⟨s, n, s', n', ⟨rfl, rfl⟩, run, run'⟩ | ⟨_, n, ⟨reason, rfl⟩, run⟩
  · rw [run, run']
    rfl
  · rw [run, run']
    rfl
  · exact absurd (congrArg Prod.fst run) (readable reason)

/-- A run depends on the variables that occur in the program and on what it reads. Where
two machines agree on these, it has the same output or the same fault on both and leaves
the same lines and, for these variables, the same cells. A variable that the program does
not store into keeps its cell, and no variable loses it. Unless the run fails for want of
a line, more lines behind those to be read change nothing and stay unread. The two runs have
the same bound on the passes of a loop, so the one finishes within it if the other does. -/
theorem run_local (limit : Nat) (program : Program) (m : Machine) :
    (∀ m' : Machine, m'.lines = m.lines →
      (∀ name ∈ program.names, m'.store.find? name = m.store.find? name) →
      (m'.run limit program).1 = (m.run limit program).1 ∧
      (m'.run limit program).2.lines = (m.run limit program).2.lines ∧
      ∀ name ∈ program.names,
        (m'.run limit program).2.store.find? name = (m.run limit program).2.store.find? name) ∧
    (∀ name, name ∉ program.targets →
      (m.run limit program).2.store.find? name = m.store.find? name) ∧
    (∀ name, m.store.contains name = true →
      (m.run limit program).2.store.contains name = true) ∧
    ((∀ reason, (m.run limit program).1 ≠ .error (.fault (.unreadable reason))) →
      ∀ extra, (m.supplied extra).run limit program =
        ((m.run limit program).1, (m.run limit program).2.supplied extra)) := by
  refine ⟨?_, ?_, ?_, ?_⟩
  · intro m' lines cells
    exact run_agree lines cells limit
  · intro name other
    exact run_other other limit m
  · intro name found
    exact run_contains limit program found
  · intro readable extra
    exact run_supplied readable extra

/-- A line is read into one of two variables. -/
theorem run_local_read :
    let program : Program := [.read .start ["x"], .print [.var ⟨.letra, .start⟩ "x"]]
    let x (c : Char) : Store := Table.empty.insert "x" ⟨.letra, .letra c⟩
    let y : Store := (x 'a').insert "y" ⟨.tinuod, .tinuod true⟩
    let m : Machine := ⟨x 'a', .ofList ["b"], ""⟩
    let m' : Machine := ⟨y, .ofList ["b"], ""⟩
    m.run 0 program = (.ok "b", ⟨x 'b', .ofList [], ""⟩) ∧
      (m'.run 0 program).1 = .ok "b" ∧ (m'.run 0 program).2.lines = .ofList [] ∧
      (m'.run 0 program).2.store.find? "x" = some ⟨.letra, .letra 'b'⟩ ∧
      (m'.run 0 program).2.store.find? "y" = some ⟨.tinuod, .tinuod true⟩ ∧
      (m'.run 0 program).2.store.contains "y" = true ∧
      (m.supplied [.ok "c"]).run 0 program = (.ok "b", ⟨x 'b', .ofList ["c"], ""⟩) := by
  intro program x y m m'
  have result : m.run 0 program = (.ok "b", ⟨x 'b', .ofList [], ""⟩) := rfl
  obtain ⟨agree, _, _, supplied⟩ := run_local 0 program m
  obtain ⟨_, other, contains, _⟩ := run_local 0 program m'
  obtain ⟨same, lines, cells⟩ := agree m' rfl (by decide)
  rw [result] at same lines cells supplied
  exact ⟨result, same, lines, cells "x" (by decide), other "y" (by decide),
    contains "y" (by decide), supplied (by simp) [.ok "c"]⟩

end Machine

end Sulti
