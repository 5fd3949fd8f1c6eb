import Sulti.Proofs.Exec.Locality
import Sulti.Proofs.Exec.Soundness
import Sulti.Proofs.Typing.Declared

/-!
Declared names and cells. The static rules let a program use a name behind its
declaration, and a declaration makes a cell; but one that stands in a condition
or in a loop may be passed over, and then the name is known without a cell.
Where no condition and no loop declares anything, the declarations are run in
the order in which they are read, and no program misses a cell.
-/

namespace Sulti

open Exec

namespace Stmt

mutual

/-- No condition and no loop declares anything; a block by itself may. -/
def unconditional : Stmt → Bool
  | .branch test body others otherwise => (branch test body others otherwise).declared.isEmpty
  | .loop start test step body => (loop start test step body).declared.isEmpty
  | .block body => unconditionalAll body
  | .declare _ _ | .read _ _ | .print _ | .expr _ => true

def unconditionalAll : List Stmt → Bool
  | [] => true
  | first :: rest => first.unconditional && unconditionalAll rest

end

mutual

theorem unconditional_of_declared (s : Stmt) (h : s.declared = []) : s.unconditional = true := by
  cases s with
  | branch test body others otherwise => simp [unconditional, h]
  | loop start test step body => simp [unconditional, h]
  | block body => exact unconditionalAll_of_declared body h
  | declare ty bindings => rfl
  | read position targets => rfl
  | print items => rfl
  | expr e => rfl

theorem unconditionalAll_of_declared (body : List Stmt) (h : declaredAll body = []) :
    unconditionalAll body = true := by
  cases body with
  | nil => rfl
  | cons first rest =>
      obtain ⟨hf, hr⟩ := List.append_eq_nil_iff.mp h
      rw [unconditionalAll, unconditional_of_declared first hf,
        unconditionalAll_of_declared rest hr, Bool.and_self]

end

end Stmt

/-- What of a phrase may be passed over declares nothing. -/
def Phrase.unconditional : Phrase → Bool
  | .stmt s => s.unconditional
  | .stmts body => Stmt.unconditionalAll body
  | .arms others => (Stmt.declaredArms others).isEmpty
  | .otherwise body => (Stmt.declaredOtherwise body).isEmpty
  | .passes _ _ body => (Stmt.declaredAll body).isEmpty
  | .expr _ | .condition _ | .bindings _ _ | .items _ => true

namespace Store

/-- Every name of the table has a cell. -/
def Covers (s : Store) (table : Table Ty) : Prop :=
  ∀ name, table.contains name = true → s.contains name = true

variable {s : Store} {table : Table Ty}

theorem Covers.insert (h : s.Covers table) (name : String) (c : Cell) :
    Covers (Table.insert s name c) table := by
  intro other known
  rw [Table.contains_insert, h other known, Bool.or_true]

theorem Covers.declare (h : s.Covers table) (name : String) (c : Cell) (ty : Ty) :
    Covers (Table.insert s name c) (table.insert name ty) := by
  intro other known
  rw [Table.contains_insert, Bool.or_eq_true] at known ⊢
  exact known.imp_right (h other)

end Store

namespace Exec

variable {α β : Type} {before between after table : Table Ty}

/-- With a cell for every name of `before` the action does not miss one, and if it
ends there is a cell for every name of `after`. -/
def Fills (before after : Table Ty) (p : Exec α) : Prop :=
  ∀ m, m.store.Covers before →
    match p m with
    | .ok _ n => n.store.Covers after
    | .error s _ => ∀ name, s ≠ .fault (.undefined name)

theorem Fills.ok {p : Exec α} (h : Fills before after p) {m n : Machine} {a : α}
    (hm : m.store.Covers before) (hp : p m = .ok a n) : n.store.Covers after := by
  have result := h m hm
  rw [hp] at result
  exact result

theorem Fills.error {p : Exec α} (h : Fills before after p) {m n : Machine} {s : Stop}
    (hm : m.store.Covers before) (hp : p m = .error s n) :
    ∀ name, s ≠ .fault (.undefined name) := by
  have result := h m hm
  rw [hp] at result
  exact result

theorem fills_pure (a : α) : Fills table table (pure a : Exec α) := fun _ hm => hm

theorem Fills.bind {p : Exec α} {f : α → Exec β} (hp : Fills before between p)
    (hf : ∀ a, Fills between after (f a)) : Fills before after (p >>= f) := by
  intro m hm
  cases h : p m with
  | ok a k =>
      rw [bind_of_ok h]
      exact hf a k (hp.ok hm h)
  | error s k =>
      rw [bind_of_error h]
      exact hp.error hm h

/-- Dropping the result of an action makes no difference to the cells. -/
theorem Fills.of_drop {p : Exec α} (h : Fills before after (p >>= fun _ => pure ())) :
    Fills before after p := by
  intro m hm
  have result := h m hm
  cases hp : p m with
  | ok a n =>
      rw [bind_of_ok hp] at result
      exact result
  | error s n =>
      rw [bind_of_error hp] at result
      exact result

/-- What leaves the table as it is and keeps to its names finds a cell for each. -/
theorem lifts_fills :
    Lifts (Fills table table) (fun name => table.contains name = true) fun _ => True where
  pure := fills_pure
  throw h := fun _ _ => h
  bind hp hf := hp.bind hf
  cell {name} known := by
    intro m hm
    obtain ⟨c, hc⟩ := Table.contains_iff.mp (hm name known)
    rw [cell_of_find? hc]
    exact hm
  write {name} _ c _ := fun _ hm => hm.insert name c
  readFields := by
    intro m hm
    rcases hr : m.lines.next with ⟨reason | line, lines⟩
    · rw [readFields_of_error hr]
      exact fun _ => by simp
    · rw [readFields_of_ok hr]
      exact hm
  print _ := fun _ hm => hm

theorem fills_define {name : String} (ty : Ty) (value : Value) :
    Fills table (table.insert name ty) (define name ty value) := by
  rw [define_eq]
  cases hc : Store.coerce name ty value with
  | ok stored =>
      rw [put_of_ok hc]
      exact fun _ hm => hm.declare name ⟨ty, stored⟩ ty
  | error f =>
      rw [put_of_error hc]
      intro m _ _ same
      cases same
      exact Store.coerce_ne_undefined name ty value _ hc

end Exec

section

variable {table : Table Ty}

theorem Expr.Typed.names_known {e : Expr} (typed : e.Typed table) :
    ∀ name ∈ e.names, table.contains name = true := by
  induction typed with
  | assign found _ _ ih => exact List.forall_mem_cons.mpr ⟨Table.contains_iff.mpr ⟨_, found⟩, ih⟩
  | binary _ _ _ ihl ihr => exact List.forall_mem_append.mpr ⟨ihl, ihr⟩
  | not _ _ _ ih => exact ih
  | var found => exact List.forall_mem_singleton.mpr (Table.contains_iff.mpr ⟨_, found⟩)
  | literal _ => exact List.forall_mem_nil _

theorem Expr.Typed.fills_eval {e : Expr} (typed : e.Typed table) : Fills table table e.eval :=
  lifts_fills.eval typed.names_known fun _ _ => trivial

theorem Expr.Typed.fills_test {e : Expr} (typed : e.Typed table) : Fills table table e.test :=
  lifts_fills.test typed.names_known fun _ _ => trivial

end

/-- What declares nothing leaves the table as it is. -/
theorem Phrase.Typed.table_same {before after : Table Ty} {phrase : Phrase}
    (typed : Phrase.Typed before phrase after) (h : phrase.declared = []) : after = before := by
  rw [typed.table_eq, h]
  rfl

/-- A well-typed phrase in which nothing that may be passed over declares anything never
misses a cell, and ends with a cell for every name that is known behind it. -/
theorem Phrase.Typed.fills_run {before after : Table Ty} {phrase : Phrase}
    (typed : Phrase.Typed before phrase after) (h : phrase.unconditional = true) (limit : Nat) :
    Fills before after (phrase.run limit) := by
  induction typed with
  | condition typed _ => exact typed.fills_test.bind fun _ => fills_pure ()
  | bindingsNil => exact fills_pure ()
  | bindingsPlain _ _ _ ih =>
      apply (fills_pure _).bind
      intro value
      exact (fills_define _ value).bind fun _ => ih rfl
  | bindingsStart _ _ typed _ _ ih =>
      apply typed.fills_eval.bind
      intro value
      exact (fills_define _ value).bind fun _ => ih rfl
  | itemsNil => exact fills_pure ()
  | itemsBlank =>
      apply (fills_pure _).bind
      intro value
      exact (lifts_fills.print value.render).bind fun _ => fills_pure ()
  | itemsCons typed _ ih =>
      apply typed.fills_eval.bind
      intro value
      exact (lifts_fills.print value.render).bind fun _ => ih rfl
  | declare _ _ ih => exact ih rfl
  | read _ declared => exact lifts_fills.read _ declared fun _ _ => trivial
  | print _ _ ih => exact ih rfl
  | branch head chosen alternatives final ihh ihc iha ihf =>
      obtain ⟨bodyNone, restNone⟩ := List.append_eq_nil_iff.mp (List.isEmpty_iff.mp h)
      obtain ⟨othersNone, lastNone⟩ := List.append_eq_nil_iff.mp restNone
      -- Whatever is passed over leaves the table as it is, so every way through ends with it.
      cases chosen.table_same bodyNone
      cases alternatives.table_same othersNone
      cases final.table_same lastNone
      apply (ihh rfl).of_drop.bind
      intro holds
      cases holds with
      | true => exact ihc (Stmt.unconditionalAll_of_declared _ bodyNone)
      | false =>
          apply (iha (List.isEmpty_iff.mpr othersNone)).of_drop.bind
          intro found
          cases found with
          | true => exact fills_pure ()
          | false => exact ihf (List.isEmpty_iff.mpr lastNone)
  | loop typed repeated ih =>
      have none := List.isEmpty_iff.mp h
      cases repeated.table_same none
      exact typed.fills_eval.bind fun _ => ih h
  | block _ ih => exact ih h
  | expr typed => exact typed.fills_eval.bind fun _ => fills_pure ()
  | stmtsNil => exact fills_pure ()
  | stmtsCons _ _ ihh iho =>
      obtain ⟨hf, hr⟩ := Bool.and_eq_true_iff.mp h
      exact (ihh hf).bind fun _ => iho hr
  | armsNil => exact (fills_pure false).bind fun _ => fills_pure ()
  | armsCons head chosen others ihh ihc iho =>
      obtain ⟨bodyNone, restNone⟩ := List.append_eq_nil_iff.mp (List.isEmpty_iff.mp h)
      cases chosen.table_same bodyNone
      cases others.table_same restNone
      refine Fills.bind ?_ fun _ => fills_pure ()
      apply (ihh rfl).of_drop.bind
      intro holds
      cases holds with
      | true =>
          apply (ihc (Stmt.unconditionalAll_of_declared _ bodyNone)).bind
          intro _
          exact fills_pure true
      | false => exact (iho (List.isEmpty_iff.mpr restNone)).of_drop
  | otherwiseNone => exact fills_pure ()
  | otherwiseSome _ ih =>
      have none := List.isEmpty_iff.mp h
      exact ih (Stmt.unconditionalAll_of_declared _ none)
  | passes head update repeated ihh ihr =>
      have none := List.isEmpty_iff.mp h
      -- The table before a pass is the one behind it, which is what makes it an invariant.
      cases repeated.table_same none
      apply lifts_fills.repeatWhile (ihh rfl).of_drop
      apply (ihr (Stmt.unconditionalAll_of_declared _ none)).bind
      intro _
      exact update.fills_eval.bind fun _ => fills_pure ()

/-- A program like that runs without missing a cell. If it ends, every name behind it has one,
and if it stops, every name that was known before it still has. -/
theorem Program.Typed.run_covers {before after : Table Ty} {program : Program}
    (typed : program.Typed before after) (h : Stmt.unconditionalAll program = true) (limit : Nat)
    {m : Machine} (covers : m.store.Covers before) :
    (∃ output n, m.run limit program = (.ok output, n) ∧ n.store.Covers after) ∨
      ∃ stop n, m.run limit program = (.error stop, n) ∧ n.store.Covers before ∧
        ∀ name, stop ≠ .fault (.undefined name) := by
  have fills : Fills before after (Stmt.runAll limit program) :=
    Phrase.Typed.fills_run typed h limit
  have start : Store.Covers (Machine.store { m with output := "" }) before := covers
  rcases m.run_cases limit program with ⟨n, run, result⟩ | ⟨stop, n, run, result⟩
  · have covered : n.store.Covers after := fills.ok start run
    exact Or.inl ⟨_, _, result, covered⟩
  · refine Or.inr ⟨_, _, result, ?_, fills.error start run⟩
    intro name known
    have kept := m.run_contains limit program (covers name known)
    rw [result] at kept
    exact kept

end Sulti
