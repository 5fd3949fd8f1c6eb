import Sulti.Proofs.Exec.Invariant
import Sulti.Proofs.Typing.Operation

/-!
Runs of well-typed programs keep the cells in step with the declared names,
and every expression yields a value of the type it carries.
-/

namespace Sulti

namespace Store

theorem define_eq_ok {s t : Store} {name : String} {ty : Ty} {value : Value}
    (h : s.define name ty value = .ok t) :
    ∃ stored, coerce name ty value = .ok stored ∧ t = s.insert name ⟨ty, stored⟩ := by
  unfold define at h
  cases hc : coerce name ty value with
  | ok stored =>
      rw [hc] at h
      cases h
      exact ⟨stored, rfl, rfl⟩
  | error f =>
      rw [hc] at h
      cases h

theorem assign_eq_ok {s t : Store} {name : String} {value stored : Value}
    (h : s.assign name value = .ok (stored, t)) :
    ∃ cell, s.find? name = some cell ∧ coerce name cell.ty value = .ok stored ∧
      t = s.insert name ⟨cell.ty, stored⟩ := by
  unfold assign at h
  cases hf : s.find? name with
  | none =>
      rw [hf] at h
      cases h
  | some cell =>
      simp only [hf] at h
      cases hc : coerce name cell.ty value with
      | ok new =>
          rw [hc] at h
          cases h
          exact ⟨cell, rfl, hc, rfl⟩
      | error f =>
          rw [hc] at h
          cases h

theorem get_eq_ok {s : Store} {name : String} {value : Value} (h : s.get name = .ok value) :
    ∃ cell, s.find? name = some cell ∧ value = cell.value := by
  unfold get at h
  cases hf : s.find? name with
  | none =>
      rw [hf] at h
      cases h
  | some cell =>
      rw [hf] at h
      cases h
      exact ⟨cell, rfl, rfl⟩

end Store

/-- The cells of the machine agree with the table and none of `base` is lost. -/
def Machine.Follows (table : Table Ty) (base : Store) (m : Machine) : Prop :=
  Store.Follows table base m.store

namespace Exec

variable {table : Table Ty} {base : Store}

theorem ensures_define {name : String} {ty : Ty} (declared : table.find? name = some ty)
    (value : Value) :
    Ensures (Machine.Follows table base) (fun _ => True) (define name ty value) := by
  refine ensures_get_bind fun m hm => ?_
  refine Ensures.bind (P := Store.Follows table base) (ensures_ofExcept ?_) fun store hs =>
    ensures_set hs
  intro store h
  obtain ⟨stored, hstored, rfl⟩ := Store.define_eq_ok h
  exact hm.insert declared (Store.ty_of_coerce hstored)

/-- An assignment yields a value of the type that the variable is declared with. -/
theorem ensures_assign (name : String) (value : Value) :
    Ensures (Machine.Follows table base) (fun stored => table.find? name = some stored.ty)
      (assign name value) := by
  refine ensures_get_bind fun m hm => ?_
  refine Ensures.bind (P := fun r => table.find? name = some r.1.ty ∧ Store.Follows table base r.2)
    (ensures_ofExcept ?_) fun r hr => (ensures_set hr.2).bind fun _ _ => ensures_pure hr.1
  rintro ⟨stored, store⟩ h
  obtain ⟨cell, found, hstored, rfl⟩ := Store.assign_eq_ok h
  have typed := Store.ty_of_coerce hstored
  have declared := (hm.agrees name cell found).1
  exact ⟨by rw [typed]; exact declared, hm.insert declared typed⟩

theorem ensures_readLine :
    Ensures (Machine.Follows table base) (fun _ => True) readLine := by
  refine ensures_get_bind fun m hm => ?_
  refine Ensures.bind (ensures_set (m := { m with lines := m.lines.next.2 }) hm) fun _ _ => ?_
  split
  · exact ensures_pure trivial
  · exact ensures_throw

theorem ensures_storeFields (position : Position) (names : List String)
    (fields : List (List Char)) :
    Ensures (Machine.Follows table base) (fun _ => True) (storeFields position names fields) := by
  induction names generalizing fields with
  | nil => exact ensures_pure trivial
  | cons name names ih =>
      cases fields with
      | nil => exact ensures_pure trivial
      | cons field fields =>
          refine ensures_get_bind fun m _ => ?_
          split
          · exact ensures_throw
          · refine Ensures.bind (P := fun _ => True) (ensures_ofExcept fun _ _ => trivial)
              fun value _ => ?_
            exact (ensures_assign name value).bind fun _ _ => ih fields

theorem ensures_read (position : Position) (targets : List String) :
    Ensures (Machine.Follows table base) (fun _ => True) (read position targets) := by
  refine ensures_readLine.bind fun line _ => ?_
  dsimp only
  split
  · exact ensures_throw
  · exact ensures_storeFields position targets _

end Exec

open Exec

section

variable {table : Table Ty} {base : Store}

/-- Every expression yields a value of the type it carries. -/
theorem Expr.Typed.ensures_eval {e : Expr} (typed : e.Typed table) :
    Ensures (Machine.Follows table base) (fun v => v.ty = e.ty) e.eval := by
  induction typed with
  | @assign note name value found _ _ ih =>
      refine ih.bind fun v _ => (ensures_assign name v).mono fun stored declared => ?_
      rw [found] at declared
      exact (Option.some.inj declared).symm
  | @binary note op left right _ _ types ihl ihr =>
      refine ihl.bind fun l hl => ihr.bind fun r hr => ensures_ofExcept fun v hv => ?_
      rw [← hl, ← hr] at types
      rcases Value.apply_typed types with ⟨v', hv', typed⟩ | ⟨f, hf, _⟩
      · cases hv.symm.trans hv'
        exact typed
      · cases hv.symm.trans hf
  | @not note operand _ truth own ih =>
      refine ih.bind fun v hv => ensures_ofExcept fun negated hnegated => ?_
      obtain ⟨b, hb⟩ := Value.negate_of_ty (hv.trans truth)
      cases hnegated.symm.trans hb
      exact own.symm
  | @var note name found =>
      refine ensures_get_bind fun m hm => ensures_ofExcept fun v hv => ?_
      obtain ⟨cell, hcell, rfl⟩ := Store.get_eq_ok hv
      obtain ⟨declared, typed⟩ := hm.agrees name cell hcell
      rw [found] at declared
      exact typed.trans (Option.some.inj declared).symm
  | literal own => exact ensures_pure own.symm

theorem Expr.Typed.ensures_test {e : Expr} (typed : e.Typed table) :
    Ensures (Machine.Follows table base) (fun _ => True) e.test :=
  typed.ensures_eval.bind fun _ _ => ensures_ofExcept fun _ _ => trivial

end

/-- Runs a phrase for what it does to the machine. -/
def Phrase.run (limit : Nat) : Phrase → Exec Unit
  | .expr e => do
      let _ ← e.eval
  | .condition e => do
      let _ ← e.test
  | .bindings ty names => Stmt.runBindings ty names
  | .items list => Stmt.runItems list
  | .stmt s => s.run limit
  | .stmts body => Stmt.runAll limit body
  | .arms others => do
      let _ ← Stmt.runFirst limit others
  | .otherwise body => Stmt.runOtherwise limit body
  | .passes test step body =>
      repeatWhile test.test
        (do
          Stmt.runAll limit body
          let _ ← step.eval)
        limit

section

variable {table : Table Ty} {base : Store}

/-- Dropping the result of an action leaves the invariant as it is. -/
theorem Exec.Ensures.of_drop {α : Type} {p : Exec α} {I : Machine → Prop}
    (h : Ensures I (fun _ => True) (p >>= fun _ => pure ())) : Ensures I (fun _ => True) p := by
  intro m hm
  have result := h m hm
  match hp : p m with
  | .ok a n =>
      rw [bind_of_ok hp] at result
      exact result
  | .error s n =>
      rw [bind_of_error hp] at result
      exact result

theorem ensures_show (value : Value) :
    Ensures (Machine.Follows table base) (fun _ => True)
      (modify fun m => { m with output := m.output ++ value.render } : Exec Unit) :=
  ensures_modify fun _ hm => hm

/-- A run of a well-typed phrase keeps the cells in step with the table, which may
be any that extends the one behind the phrase. -/
theorem Phrase.Typed.ensures_run {before after : Table Ty} {phrase : Phrase}
    (typed : Phrase.Typed before phrase after) (h : after.Extends table) (limit : Nat) :
    Ensures (Machine.Follows table base) (fun _ => True) (phrase.run limit) := by
  induction typed with
  | condition typed _ =>
      exact (typed.mono h).ensures_test.bind fun _ _ => ensures_pure trivial
  | bindingsNil => exact ensures_pure trivial
  | @bindingsPlain before after ty name rest _ _ others ih =>
      have declared : table.find? name = some ty := by
        refine h _ _ (others.table_extends _ _ ?_)
        rw [Table.find?_insert, if_pos rfl]
      exact Ensures.bind (P := fun _ => True) (ensures_pure trivial) fun value _ =>
        (ensures_define declared value).bind fun _ _ => ih h
  | @bindingsStart before after ty name start rest _ fresh typed _ others ih =>
      have larger : before.Extends table :=
        ((Table.extends_insert fresh ty).trans others.table_extends).trans h
      have declared : table.find? name = some ty := by
        refine h _ _ (others.table_extends _ _ ?_)
        rw [Table.find?_insert, if_pos rfl]
      exact (typed.mono larger).ensures_eval.bind fun value _ =>
        (ensures_define declared value).bind fun _ _ => ih h
  | itemsNil => exact ensures_pure trivial
  | itemsBlank =>
      refine Ensures.bind (P := fun _ => True) (ensures_pure trivial) fun value _ => ?_
      exact (ensures_show value).bind fun _ _ => ensures_pure trivial
  | itemsCons typed _ ih =>
      exact (typed.mono h).ensures_eval.bind fun value _ =>
        (ensures_show value).bind fun _ _ => ih h
  | declare _ _ ih => exact ih h
  | read _ _ => exact ensures_read _ _
  | print _ _ ih => exact ih h
  | branch head chosen alternatives final ihh ihc iha ihf =>
      have second := final.table_extends.trans h
      have first := alternatives.table_extends.trans second
      refine (ihh (chosen.table_extends.trans first)).of_drop.bind fun holds _ => ?_
      split
      · exact ihc first
      · refine (iha second).of_drop.bind fun found _ => ?_
        split
        · exact ensures_pure trivial
        · exact ihf h
  | loop typed repeated ih =>
      exact (typed.mono (repeated.table_extends.trans h)).ensures_eval.bind fun _ _ => ih h
  | block _ ih => exact ih h
  | expr typed => exact (typed.mono h).ensures_eval.bind fun _ _ => ensures_pure trivial
  | stmtsNil => exact ensures_pure trivial
  | stmtsCons head others ihh iho =>
      exact (ihh (others.table_extends.trans h)).bind fun _ _ => iho h
  | armsNil => exact ensures_pure trivial
  | armsCons head chosen others ihh ihc iho =>
      have between := others.table_extends.trans h
      refine Ensures.bind (P := fun _ => True) ?_ fun _ _ => ensures_pure trivial
      refine (ihh (chosen.table_extends.trans between)).of_drop.bind fun holds _ => ?_
      split
      · exact (ihc between).bind fun _ _ => ensures_pure trivial
      · exact (iho h).of_drop
  | otherwiseNone => exact ensures_pure trivial
  | otherwiseSome _ ih => exact ih h
  | passes head update repeated ihh ihr =>
      have larger := repeated.table_extends.trans h
      refine ensures_repeatWhile (ihh larger).of_drop ?_ limit
      exact (ihr h).bind fun _ _ =>
        (update.mono larger).ensures_eval.bind fun _ _ => ensures_pure trivial

end

end Sulti
