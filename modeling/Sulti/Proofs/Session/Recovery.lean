import Sulti.Proofs.Session.History

/-!
What a session is after a failure. A text that is no program leaves no trace.
A run that stops keeps the names from before and, of the names that it
declared, those that got a cell; every other name is free again, and a
declaration of it with any type is accepted.
-/

namespace Sulti

namespace Token

/-- A token of which only what it stands for matters. -/
def plain (kind : Kind) (lexeme : String) : Token := ⟨kind, lexeme, .start⟩

/-- A declaration of one name and nothing else. -/
def declaration (ty : Ty) (name : String) : List Token :=
  [plain .mugna "MUGNA", plain .typeName ty.name, plain (.identifier name) name]

/-- The words of some statements as a whole text. -/
def framed (mode : Mode) (body : List Token) : List Token :=
  match mode with
  | .program => plain .sugod "SUGOD" :: (body ++ [plain .katapusan "KATAPUSAN"])
  | .repl => body

end Token

namespace Grammar

/-- What may stand behind the only statement of a text. -/
def Closes (rest : List Token) : Prop :=
  rest = [] ∨ rest = [Token.plain .katapusan "KATAPUSAN"]

variable {ty : Ty} (name : String) {rest : List Token} (stop : Position) (table : Table Ty)

theorem freshName_eq (lexeme : String) (position : Position) :
    freshName ⟨⟨.identifier name, lexeme, position⟩ :: rest, stop, table⟩ =
      if table.contains name then .error (.rejected ⟨position, .duplicate name⟩)
      else .ok (name, ⟨rest, stop, table⟩) := by
  change (if table.contains name then _ else _ : Parse String) _ = _
  split <;> rfl

theorem declaredType_eq (declarable : ty.Declarable) :
    declaredType ⟨Token.plain .typeName ty.name :: rest, stop, table⟩ =
      .ok (ty, ⟨rest, stop, table⟩) := by
  cases ty with
  | text => cases declarable
  | empty => cases declarable
  | _ => rfl

theorem declaration_eq (declarable : ty.Declarable) (fuel : Nat) (closes : Closes rest) :
    declaration (fuel + 1) ⟨Token.declaration ty name ++ rest, stop, table⟩ =
      if table.contains name then .error (.rejected ⟨.start, .duplicate name⟩)
      else .ok (.declare ty [(name, none)], ⟨rest, stop, table.insert name ty⟩) := by
  have bound : binding ty (fuel + 1)
      ⟨Token.plain (.identifier name) name :: rest, stop, table⟩ =
      if table.contains name then .error (.rejected ⟨.start, .duplicate name⟩)
      else .ok ((name, none), ⟨rest, stop, table.insert name ty⟩) := by
    have plain : start ty (fuel + 1) ⟨rest, stop, table⟩ = .ok (none, ⟨rest, stop, table⟩) := by
      rcases closes with rfl | rfl <;> rfl
    refine (bind_of_ite (freshName_eq name stop table name .start)).trans ?_
    split
    · rfl
    · rename_i fresh
      have declared := declare_of_fresh (c := ⟨rest, stop, table⟩) (eq_false_of_ne_true fresh) ty
      rw [bind_of_ok plain]
      exact congrArg (fun c => Except.ok ((name, none), c)) declared
  have single : separated .comma (binding ty (fuel + 1)) (fuel + 1)
      ⟨Token.plain (.identifier name) name :: rest, stop, table⟩ =
      if table.contains name then .error (.rejected ⟨.start, .duplicate name⟩)
      else .ok ([(name, none)], ⟨rest, stop, table.insert name ty⟩) := by
    refine (bind_of_ite bound).trans ?_
    rcases closes with rfl | rfl <;> rfl
  rw [declaration]
  refine (bind_of_ok (p := advance) (a := ()) rfl).trans ?_
  refine (bind_of_ok (declaredType_eq stop table declarable)).trans ?_
  refine (bind_of_ite single).trans ?_
  rcases closes with rfl | rfl <;> rfl

theorem statement_of_mugna {c : Cursor} (h : c.next.kind = .mugna) (fuel : Nat) :
    statement (fuel + 1) c = declaration fuel c := by
  rw [statement]
  refine (bind_of_ok (p := peek) (a := c.next) (d := c) rfl).trans ?_
  rw [h]

theorem statements_declaration (declarable : ty.Declarable) (fuel : Nat) (closes : Closes rest) :
    statements .katapusan (statement (fuel + 3)) (fuel + 3)
        ⟨Token.declaration ty name ++ rest, stop, table⟩ =
      if table.contains name then .error (.rejected ⟨.start, .duplicate name⟩)
      else .ok ([.declare ty [(name, none)]], ⟨rest, stop, table.insert name ty⟩) := by
  have first := (statement_of_mugna rfl (fuel + 2)).trans
    (declaration_eq name stop table declarable (fuel + 1) closes)
  rw [statements_of_ne (by rintro (h | h) <;> cases h)]
  refine (bind_of_ite first).trans ?_
  rcases closes with rfl | rfl <;> rfl

/-- A declaration of one name is a program unless the name is declared already. -/
theorem program_declaration (declarable : ty.Declarable) (mode : Mode) (fuel : Nat) :
    program mode (fuel + 3) (.ofTokens table (Token.framed mode (Token.declaration ty name))) =
      if table.contains name then .error (.rejected ⟨.start, .duplicate name⟩)
      else .ok ([.declare ty [(name, none)]], ⟨[], .start, table.insert name ty⟩) := by
  rw [program]
  cases mode with
  | repl =>
      refine (bind_of_ok (p := skipNewlines) (a := false) rfl).trans ?_
      refine (bind_of_ok (p := opening .repl) (a := false) rfl).trans ?_
      exact bind_of_ite (statements_declaration name .start table declarable fuel (Or.inl rfl))
  | program =>
      refine (bind_of_ok (p := skipNewlines) (a := false) rfl).trans ?_
      refine (bind_of_ok (p := opening .program) (a := true) rfl).trans ?_
      exact bind_of_ite (statements_declaration name .start table declarable fuel (Or.inr rfl))

end Grammar

theorem Program.ofTokens_declaration {ty : Ty} (declarable : ty.Declarable) (mode : Mode)
    (name : String) (table : Table Ty) :
    Program.ofTokens mode table (Token.framed mode (Token.declaration ty name)) =
      if table.contains name then .error ⟨.start, .duplicate name⟩
      else .ok ([.declare ty [(name, none)]], table.insert name ty) := by
  obtain ⟨fuel, hfuel⟩ : ∃ fuel,
      (Token.framed mode (Token.declaration ty name)).length + 2 = fuel + 3 := by
    cases mode <;> exact ⟨_, rfl⟩
  have read := Grammar.program_declaration name table declarable mode fuel
  rw [← hfuel] at read
  split
  · rename_i known
    rw [if_pos known] at read
    exact Program.ofTokens_of_rejected read
  · rename_i unknown
    rw [if_neg unknown] at read
    exact Program.ofTokens_of_ok read

namespace Session

/-- A name that was unknown before the run is known after it exactly if it has a
cell. -/
theorem Outcome.contains_eq {s after : Session} {source : String} {stop : Stop}
    (h : s.Consistent) (outcome : Outcome s source (some (.stopped stop), after)) {name : String}
    (unknown : s.table.find? name = none) :
    after.table.contains name = after.machine.store.contains name := by
  have agrees := (outcome.consistent h).1.agrees
  cases hc : after.machine.store.contains name with
  | true =>
      obtain ⟨cell, found⟩ := Table.contains_iff.mp hc
      exact Table.contains_iff.mpr ⟨_, (agrees name cell found).1⟩
  | false =>
      cases outcome with
      | stopped _ _ =>
          rw [Table.contains_eq_false_iff, Table.find?_retain,
            Table.contains_eq_false_iff.mpr unknown, Bool.false_or]
          exact if_neg (Bool.eq_false_iff.mp hc)

/-- Names and cells stay in step, whatever fails. A name with a cell is declared with
the type of the cell and of its value, and neither changes for the rest of the
session. A call that fails in reading changes nothing. A run that stops keeps every
name it started with; of the names that it declared it keeps those with a cell, and
just the others can be declared again, with any type. -/
theorem Reachable.survives_failures {s : Session} (h : s.Reachable) :
    (∀ name cell, s.machine.store.find? name = some cell →
      s.table.find? name = some cell.ty ∧ cell.value.ty = cell.ty ∧
      ∀ t, Leads s t →
        t.machine.store.typeOf? name = some cell.ty ∧ t.table.find? name = some cell.ty) ∧
    (∀ call failure after, s.perform call = (some failure, after) →
      (∀ stop, failure ≠ .stopped stop) → after = s) ∧
    ∀ call stop after, s.perform call = (some (.stopped stop), after) →
      ∃ program table, s.check call.source = (.ok program, { s with table }) ∧
        (∀ name ty, s.table.find? name = some ty → after.table.find? name = some ty) ∧
        ∀ name, s.table.find? name = none →
          after.table.find? name =
            (if after.machine.store.contains name then table.find? name else none) ∧
          ∀ ty : Ty, ty.Declarable →
            Program.ofTokens after.mode after.table
                (Token.framed after.mode (Token.declaration ty name)) =
              if after.machine.store.contains name then .error ⟨.start, .duplicate name⟩
              else .ok ([.declare ty [(name, none)]], after.table.insert name ty) := by
  have consistent := h.consistent
  refine ⟨?_, ?_, ?_⟩
  · intro name cell found
    obtain ⟨declared, typed⟩ := consistent.agrees name cell found
    refine ⟨declared, typed, fun t leads => ?_⟩
    obtain ⟨later, keeps⟩ := Leads.consistent leads consistent
    have kept := keeps name cell.ty (by rw [Store.typeOf?, found, Option.map_some])
    obtain ⟨cell', found', same⟩ := Option.map_eq_some_iff.mp kept
    exact ⟨kept, same ▸ (later.agrees name cell' found').1⟩
  · intro call failure after failed notStopped
    have outcome := outcome_perform s call
    rw [failed] at outcome
    cases outcome with
    | malformed _ => rfl
    | rejected _ => rfl
    | stopped _ _ => exact absurd rfl (notStopped _)
  · intro call stop after failed
    have outcome := outcome_perform s call
    rw [failed] at outcome
    have same {name : String} (unknown : s.table.find? name = none) :=
      outcome.contains_eq consistent unknown
    cases outcome with
    | @stopped program table _ _ n checked _ =>
        have typed := typed_of_check consistent.declarable checked
        refine ⟨program, table, checked, ?_, ?_⟩
        · intro name ty found
          rw [Table.find?_retain, Table.contains_iff.mpr ⟨ty, found⟩]
          exact typed.table_extends name ty found
        · intro name unknown
          constructor
          · rw [Table.find?_retain, Table.contains_eq_false_iff.mpr unknown, Bool.false_or]
          · intro ty declarable
            rw [Program.ofTokens_declaration declarable, same unknown]

/-- The division fails after the first of two variables got its cell. -/
theorem Reachable.survives_failures_division :
    ∃ s after, Reachable s ∧
      s.perform (.run 0 "MUGNA NUMERO x=1,y=1/0") =
        (some (.stopped (.fault .divisionByZero)), after) ∧
      Program.ofTokens .repl after.table (Token.declaration .letra "x") =
        .error ⟨.start, .duplicate "x"⟩ ∧
      Program.ofTokens .repl after.table (Token.declaration .letra "y") =
        .ok ([.declare .letra [("y", none)]], after.table.insert "y" .letra) := by
  let s : Session := .new .repl (.ofList [])
  let call : Call := .run 0 "MUGNA NUMERO x=1,y=1/0"
  have reachable : s.Reachable := ⟨.repl, .ofList [], .refl⟩
  have failed : s.perform call =
      (some (.stopped (.fault .divisionByZero)), (s.perform call).2) :=
    Prod.ext (by decide +kernel) rfl
  have mode : (s.perform call).2.mode = .repl := by decide +kernel
  have filled : (s.perform call).2.machine.store.contains "x" = true := by decide +kernel
  have empty : (s.perform call).2.machine.store.contains "y" = false := by decide +kernel
  obtain ⟨_, _, _, _, names⟩ := (Reachable.survives_failures reachable).2.2 _ _ _ failed
  have x := (names "x" rfl).2 .letra trivial
  have y := (names "y" rfl).2 .letra trivial
  rw [if_pos filled, mode] at x
  rw [if_neg (Bool.eq_false_iff.mp empty), mode] at y
  exact ⟨s, (s.perform call).2, reachable, failed, x, y⟩

end Session

end Sulti
