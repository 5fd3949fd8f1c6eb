import Sulti.Proofs.Exec.Faults
import Sulti.Proofs.Typing.ReadProgram
import Sulti.Session

/-!
Histories of a session: whatever is called on it in whatever order, and
whether the calls succeed or not. What a single call can do is said once, in
`Session.Outcome`; all that holds of every session follows from it by
induction on the history.
-/

namespace Sulti

/-- What can be called on a session. A call that runs something sets the limit on
the passes of its loops. -/
inductive Call where
  | run (limit : Nat) (source : String)
  | runLine (limit : Nat) (line : String)
  | check (source : String)

/-- The text that is read. -/
def Call.source : Call → String
  | .run _ source => source
  | .runLine _ line => String.ofList (Text.trim line.toList ++ ['\n'])
  | .check source => source

namespace Session

def failure? {α : Type} : Except Failure α → Option Failure
  | .ok _ => none
  | .error failure => some failure

/-- Why a call fails, if it does, and the session behind it. -/
def perform (s : Session) : Call → Option Failure × Session
  | .run limit source => (failure? (s.run limit source).1, (s.run limit source).2)
  | .runLine limit line => (failure? (s.runLine limit line).1, (s.runLine limit line).2)
  | .check source => (failure? (s.check source).1, (s.check source).2)

/-- Some calls, one after another, lead from the one session to the other. -/
abbrev Leads : Session → Session → Prop :=
  Relation.ReflTransGen fun s t => ∃ call, (s.perform call).2 = t

/-- A session that some calls lead to from a new one. -/
def Reachable (s : Session) : Prop := ∃ mode lines, Leads (.new mode lines) s

/-- What a call with the given text can come to. -/
inductive Outcome (s : Session) (source : String) : Option Failure × Session → Prop where
  | malformed {flaws : List Flaw} (h : s.check source = (.error (.malformed flaws), s)) :
      Outcome s source (some (.malformed flaws), s)
  | rejected {r : Rejection} (h : s.check source = (.error (.rejected r), s)) :
      Outcome s source (some (.rejected r), s)
  | checked {program : Program} {table : Table Ty}
      (h : s.check source = (.ok program, { s with table })) :
      Outcome s source (none, { s with table })
  | ended {program : Program} {table : Table Ty} {limit : Nat} {n : Machine}
      (h : s.check source = (.ok program, { s with table }))
      (run : Stmt.runAll limit program { s.machine with output := "" } = .ok () n) :
      Outcome s source (none, { s with table, machine := { n with output := "" } })
  | stopped {program : Program} {table : Table Ty} {limit : Nat} {stop : Stop} {n : Machine}
      (h : s.check source = (.ok program, { s with table }))
      (run : Stmt.runAll limit program { s.machine with output := "" } = .error stop n) :
      Outcome s source (some (.stopped stop),
        { s with
          table := table.retain fun name => s.table.contains name || n.store.contains name
          machine := { n with output := "" } })

section

variable {s : Session} {source : String} {program : Program} {table : Table Ty}

theorem run_of_refused {failure : Failure} (h : s.check source = (.error failure, s))
    (limit : Nat) : s.run limit source = (.error failure, s) := by
  rw [run, h]

theorem run_of_ended {limit : Nat} {output : String} {machine : Machine}
    (h : s.check source = (.ok program, { s with table }))
    (ran : s.machine.run limit program = (.ok output, machine)) :
    s.run limit source = (.ok output, { s with table, machine }) := by
  rw [run, h]
  simp only [ran]

theorem run_of_stopped {limit : Nat} {stop : Stop} {machine : Machine}
    (h : s.check source = (.ok program, { s with table }))
    (ran : s.machine.run limit program = (.error stop, machine)) :
    s.run limit source = (.error (.stopped stop),
      { s with
        table := table.retain fun name => s.table.contains name || machine.store.contains name
        machine }) := by
  rw [run, h]
  simp only [ran]

end

/-- A text is no program and changes nothing, or its names are added to the table. -/
theorem check_cases (s : Session) (source : String) :
    (∃ flaws, s.check source = (.error (.malformed flaws), s)) ∨
      (∃ r, s.check source = (.error (.rejected r), s)) ∨
      ∃ tokens program table, Token.scan source = .ok tokens ∧
        Program.ofTokens s.mode s.table tokens = .ok (program, table) ∧
        s.check source = (.ok program, { s with table }) := by
  unfold check
  cases Token.scan source with
  | error flaws => exact Or.inl ⟨flaws, rfl⟩
  | ok tokens =>
      cases hp : Program.ofTokens s.mode s.table tokens with
      | error r => exact Or.inr (Or.inl ⟨r, by simp [hp]⟩)
      | ok result =>
          obtain ⟨program, table⟩ := result
          exact Or.inr (Or.inr ⟨tokens, program, table, rfl, hp, by simp [hp]⟩)

theorem outcome_run (s : Session) (limit : Nat) (source : String) :
    Outcome s source (failure? (s.run limit source).1, (s.run limit source).2) := by
  unfold run
  rcases check_cases s source with ⟨flaws, h⟩ | ⟨r, h⟩ | ⟨_, program, table, _, _, h⟩
  · rw [h]
    exact .malformed h
  · rw [h]
    exact .rejected h
  · rw [h]
    simp only [Machine.run]
    cases run : (Stmt.runAll limit program).run { s.machine with output := "" } with
    | ok _ n => exact .ended h run
    | error stop n => exact .stopped (n := n) h run

/-- Every call comes to one of the outcomes. -/
theorem outcome_perform (s : Session) (call : Call) : Outcome s call.source (s.perform call) := by
  cases call with
  | run limit source => exact outcome_run s limit source
  | runLine limit line => exact outcome_run s limit _
  | check source =>
      rcases check_cases s source with ⟨flaws, h⟩ | ⟨r, h⟩ | ⟨_, program, table, _, _, h⟩
      · simp only [perform, h]
        exact .malformed h
      · simp only [perform, h]
        exact .rejected h
      · simp only [perform, h]
        exact .checked h

theorem check_eq_ok {s checked : Session} {source : String} {program : Program}
    (h : s.check source = (.ok program, checked)) :
    ∃ tokens table, Token.scan source = .ok tokens ∧
      Program.ofTokens s.mode s.table tokens = .ok (program, table) ∧
      checked = { s with table } := by
  rcases check_cases s source with ⟨flaws, h'⟩ | ⟨r, h'⟩ | ⟨tokens, _, table, scan, ofTokens, h'⟩
  · cases h.symm.trans h'
  · cases h.symm.trans h'
  · cases h.symm.trans h'
    exact ⟨tokens, table, scan, ofTokens, rfl⟩

theorem typed_of_check {s : Session} {source : String} {program : Program} {table : Table Ty}
    (declarable : s.table.AllDeclarable)
    (h : s.check source = (.ok program, { s with table })) : program.Typed s.table table := by
  obtain ⟨tokens, _, _, ofTokens, same⟩ := check_eq_ok h
  cases same
  obtain ⟨d, hd, rfl⟩ := Program.ofTokens_eq_ok ofTokens
  exact Grammar.yields_program s.mode _ declarable program d hd

/-- The names of the table have declarable types, and the cells agree with it. -/
structure Consistent (s : Session) : Prop where
  declarable : s.table.AllDeclarable
  agrees : s.machine.store.Agrees s.table

theorem consistent_new (mode : Mode) (lines : Lines) : (new mode lines).Consistent := by
  constructor
  · exact Table.allDeclarable_empty
  · intro name cell found
    cases found

/-- A run starts from cells that agree with the names it was read with. -/
theorem Consistent.follows {s : Session} (h : s.Consistent) {program : Program}
    {table : Table Ty} (typed : program.Typed s.table table) :
    Machine.Follows table s.machine.store { s.machine with output := "" } :=
  (h.agrees.mono (Phrase.Typed.table_extends typed)).follows

/-- A call keeps a session consistent, and keeps its cells with their types. -/
theorem Outcome.consistent {s : Session} {source : String} {result : Option Failure × Session}
    (h : s.Consistent) (outcome : Outcome s source result) :
    result.2.Consistent ∧
      ∀ name ty, s.machine.store.typeOf? name = some ty →
        result.2.machine.store.typeOf? name = some ty := by
  cases outcome with
  | malformed _ => exact ⟨h, fun _ _ found => found⟩
  | rejected _ => exact ⟨h, fun _ _ found => found⟩
  | checked hc =>
      have typed := typed_of_check h.declarable hc
      refine ⟨⟨typed.allDeclarable h.declarable, ?_⟩, fun _ _ found => found⟩
      exact h.agrees.mono typed.table_extends
  | @ended program table limit n hc run =>
      have typed := typed_of_check h.declarable hc
      have follows := Phrase.Typed.follows_of_run typed (.refl _) limit (h.follows typed) run
      exact ⟨⟨typed.allDeclarable h.declarable, follows.agrees⟩,
        follows.typeOf?_eq h.agrees typed.table_extends⟩
  | @stopped program table limit stop n hc run =>
      have typed := typed_of_check h.declarable hc
      have follows := (Phrase.Typed.ensures_run typed (.refl _) limit).error (h.follows typed) run
      refine ⟨⟨?_, ?_⟩, follows.typeOf?_eq h.agrees typed.table_extends⟩
      · exact (typed.allDeclarable h.declarable).retain _
      · exact follows.agrees.retain fun name found => by rw [found, Bool.or_true]

theorem Leads.consistent {s t : Session} (leads : Leads s t) (h : s.Consistent) :
    t.Consistent ∧
      ∀ name ty, s.machine.store.typeOf? name = some ty →
        t.machine.store.typeOf? name = some ty := by
  induction leads with
  | refl => exact ⟨h, fun _ _ found => found⟩
  | tail _ step ih =>
      obtain ⟨call, rfl⟩ := step
      obtain ⟨consistent, keeps⟩ := ih
      obtain ⟨after, kept⟩ := (outcome_perform _ call).consistent consistent
      exact ⟨after, fun name ty found => kept name ty (keeps name ty found)⟩

theorem Reachable.consistent {s : Session} (h : s.Reachable) : s.Consistent := by
  obtain ⟨mode, lines, leads⟩ := h
  exact (Leads.consistent leads (consistent_new mode lines)).1

end Session

end Sulti
