import Sulti.Proofs.Exec.Moments

/-!
The faults of well-typed programs. A run that stops with a fault came to a
moment at which the fault was raised, and at a moment of a well-typed program
few faults can be raised: nothing is ever stored where it does not belong or
taken for a truth value that is none, and the only operators that refuse their
operands are order comparisons of numbers that are in no order.
-/

namespace Sulti

open Exec

/-- The faults that are left for a well-typed program whose names are in the table.
The run started at `start` and stopped with the machine `n`. -/
inductive Fault.Admissible (table : Table Ty) (start : Moment) (n : Machine) : Fault → Prop where
  | undefined {name : String} (declared : table.contains name = true)
      (absent : n.store.find? name = none) : Admissible table start n (.undefined name)
  | unordered {note : Note} {o : Order} {left right : Expr} {m k : Machine} {v w : Value}
      (reached : Reaches start (.expr (.binary note (.order o) left right), m))
      (hl : left.eval m = .ok v k) (hr : right.eval k = .ok w n) (h : v.Unordered w) :
      Admissible table start n (.invalidOperation (.order o) v.ty w.ty)
  | divisionByZero : Admissible table start n .divisionByZero
  | overflow (during : Calculation) : Admissible table start n (.overflow during)
  | invalidInput (position : Position) (name : String) (expected : Ty) (field : String) :
      Admissible table start n (.invalidInput position name expected field)
  | inputLength (position : Position) (expected found : Nat) :
      Admissible table start n (.inputLength position expected found)
  | unreadable (reason : String) : Admissible table start n (.unreadable reason)

theorem Input.ty_of_convert {position : Position} {name : String} {ty : Ty} {field : List Char}
    {v : Value} (h : convert position name ty field = .ok v) : v.ty = ty := by
  cases ty with
  | text => cases h
  | empty => cases h
  | _ =>
      simp only [convert] at h
      split at h
      · cases h
        rfl
      · cases h

theorem Input.fault_of_convert {position : Position} {name : String} {ty : Ty}
    {field : List Char} {f : Fault} (h : convert position name ty field = .error f) :
    f = .invalidInput position name ty (String.ofList field) ∨
      f = .inputLength position 1 field.length := by
  cases ty with
  | text =>
      cases h
      exact Or.inl rfl
  | empty =>
      cases h
      exact Or.inl rfl
  | letra =>
      simp only [convert] at h
      split at h <;> cases h
      exact Or.inr rfl
  | _ =>
      simp only [convert] at h
      split at h <;> cases h
      exact Or.inl rfl

theorem Store.find?_of_get {s : Store} {name : String} {f : Fault} (h : s.get name = .error f) :
    f = .undefined name ∧ s.find? name = none := by
  unfold get at h
  split at h
  · cases h
  · rename_i absent
    cases h
    exact ⟨rfl, absent⟩

theorem Store.fault_of_define {s : Store} {name : String} {ty : Ty} {value : Value} {f : Fault}
    (fits : ty.compatible value.ty = true) (h : s.define name ty value = .error f) :
    f = .overflow .conversion := by
  unfold define at h
  cases hc : coerce name ty value with
  | ok stored =>
      rw [hc] at h
      cases h
  | error g =>
      rw [hc] at h
      cases h
      exact overflow_of_coerce fits hc

theorem Store.fault_of_assign {s : Store} {name : String} {value : Value} {f : Fault}
    (fits : ∀ cell, s.find? name = some cell → cell.ty.compatible value.ty = true)
    (h : s.assign name value = .error f) :
    f = .undefined name ∧ s.find? name = none ∨ f = .overflow .conversion := by
  unfold assign at h
  cases hf : s.find? name with
  | none =>
      rw [hf] at h
      cases h
      exact Or.inl ⟨rfl, rfl⟩
  | some cell =>
      simp only [hf] at h
      cases hc : coerce name cell.ty value with
      | ok stored =>
          rw [hc] at h
          cases h
      | error g =>
          rw [hc] at h
          cases h
          exact Or.inr (overflow_of_coerce (fits cell hf) hc)

namespace Exec

theorem ofExcept_eq_error {α : Type} {r : Except Fault α} {m n : Machine} {f : Fault}
    (h : ofExcept r m = .error (.fault f) n) : r = .error f ∧ n = m := by
  cases r with
  | ok a => cases h
  | error g =>
      cases h
      exact ⟨rfl, rfl⟩

theorem ofExcept_eq_ok {α : Type} {r : Except Fault α} {m n : Machine} {a : α}
    (h : ofExcept r m = .ok a n) : r = .ok a ∧ n = m := by
  cases r with
  | ok b =>
      cases h
      exact ⟨rfl, rfl⟩
  | error g => cases h

theorem define_eq_error {name : String} {ty : Ty} {value : Value} {m n : Machine} {f : Fault}
    (h : define name ty value m = .error (.fault f) n) :
    m.store.define name ty value = .error f ∧ n = m := by
  rcases bind_eq_error (p := ofExcept (m.store.define name ty value)) h with h | ⟨_, _, _, h⟩
  · exact ofExcept_eq_error h
  · cases h

theorem assign_eq_error {name : String} {value : Value} {m n : Machine} {f : Fault}
    (h : assign name value m = .error (.fault f) n) :
    m.store.assign name value = .error f ∧ n = m := by
  rcases bind_eq_error (p := ofExcept (m.store.assign name value)) h with h | ⟨_, _, _, h⟩
  · exact ofExcept_eq_error h
  · cases h

theorem readLine_eq_error {m n : Machine} {f : Fault} (h : readLine m = .error (.fault f) n) :
    ∃ reason, f = .unreadable reason := by
  unfold readLine at h
  rw [get_bind] at h
  generalize m.lines.next = step at h
  obtain ⟨read, lines⟩ := step
  cases read with
  | ok line => cases h
  | error reason =>
      cases h
      exact ⟨reason, rfl⟩

theorem storeFields_absent {position : Position} {name : String} {names : List String}
    {field : List Char} {fields : List (List Char)} {m : Machine}
    (h : m.store.find? name = none) :
    storeFields position (name :: names) (field :: fields) m =
      .error (.fault (.undefined name)) m := by
  rw [storeFields, get_bind, Store.typeOf?, h]
  rfl

theorem storeFields_cell {position : Position} {name : String} {names : List String}
    {field : List Char} {fields : List (List Char)} {m : Machine} {cell : Cell}
    (h : m.store.find? name = some cell) :
    storeFields position (name :: names) (field :: fields) m =
      (do
        let value ← ofExcept (Input.convert position name cell.ty field)
        let _ ← assign name value
        storeFields position names fields : Exec Unit) m := by
  rw [storeFields, get_bind, Store.typeOf?, h]
  rfl

variable {table : Table Ty} {start : Moment}

/-- A value that goes with the type of a declared name is refused only where the name has
no cell or the value does not fit into it. -/
theorem assign_admissible {name : String} {v : Value} {n : Machine} {f : Fault}
    (declared : table.contains name = true)
    (fits : ∀ cell, n.store.find? name = some cell → cell.ty.compatible v.ty = true)
    (h : n.store.assign name v = .error f) : f.Admissible table start n := by
  rcases Store.fault_of_assign fits h with ⟨rfl, absent⟩ | rfl
  · exact .undefined declared absent
  · exact .overflow _

/-- Storing what was read fails because a field is no value of its variable, or
because a variable has no cell. -/
theorem storeFields_admissible {position : Position} {names : List String}
    {fields : List (List Char)} {m n : Machine} {f : Fault}
    (declared : ∀ name ∈ names, table.contains name = true)
    (h : storeFields position names fields m = .error (.fault f) n) :
    f.Admissible table start n := by
  induction names generalizing fields m with
  | nil => cases h
  | cons name names ih =>
      cases fields with
      | nil => cases h
      | cons field fields =>
          have known := declared name (List.mem_cons_self ..)
          cases hf : m.store.find? name with
          | none =>
              rw [storeFields_absent hf] at h
              cases h
              exact .undefined known hf
          | some cell =>
              rw [storeFields_cell hf] at h
              rcases bind_eq_error h with failed | ⟨value, k, converted, failed⟩
              · obtain ⟨refused, rfl⟩ := ofExcept_eq_error failed
                rcases Input.fault_of_convert refused with rfl | rfl
                · exact .invalidInput ..
                · exact .inputLength ..
              · obtain ⟨accepted, rfl⟩ := ofExcept_eq_ok converted
                rcases bind_eq_error failed with failed | ⟨_, _, _, failed⟩
                · obtain ⟨refused, rfl⟩ := assign_eq_error failed
                  refine assign_admissible known (fun c hc => ?_) refused
                  cases hf.symm.trans hc
                  rw [Input.ty_of_convert accepted]
                  exact Ty.compatible_iff.mpr (Or.inl rfl)
                · exact ih (fun other mem => declared other (List.mem_cons_of_mem _ mem)) failed

theorem read_admissible {position : Position} {targets : List String} {m n : Machine} {f : Fault}
    (declared : ∀ name ∈ targets, table.contains name = true)
    (h : Exec.read position targets m = .error (.fault f) n) : f.Admissible table start n := by
  rcases bind_eq_error h with h | ⟨line, k, _, h⟩
  · obtain ⟨reason, rfl⟩ := readLine_eq_error h
    exact .unreadable reason
  · dsimp only at h
    split at h
    · cases h
      exact .inputLength ..
    · exact storeFields_admissible declared h

end Exec

/-- A fault that is raised at a moment of a well-typed program is admissible. -/
theorem Raises.admissible {table : Table Ty} {base : Store} {start p : Moment} {f : Fault}
    {n : Machine} (raised : Raises p f n) (sound : p.Sound table base) (reached : Reaches start p) :
    f.Admissible table start n := by
  obtain ⟨within, follows⟩ := sound
  cases raised with
  | @assign _ name _ _ _ v _ hv h =>
      rcases within with typed | ⟨_, ⟨⟩⟩
      cases typed with
      | assign found typed fits =>
          obtain ⟨follows, same⟩ := typed.ensures_eval.ok follows hv
          refine assign_admissible (Table.contains_iff.mpr ⟨_, found⟩) (fun cell hcell => ?_) h
          have declared := (follows.agrees name cell hcell).1
          rw [Option.some.inj (declared.symm.trans found), same]
          exact fits
  | binary hl hr h =>
      rcases within with typed | ⟨_, ⟨⟩⟩
      cases typed with
      | binary leftTyped rightTyped types =>
          obtain ⟨between, sameLeft⟩ := leftTyped.ensures_eval.ok follows hl
          obtain ⟨_, sameRight⟩ := rightTyped.ensures_eval.ok between hr
          rw [← sameLeft, ← sameRight] at types
          rcases Value.apply_typed types with ⟨v, hv, _⟩ | ⟨g, hg, cause⟩
          · cases h.symm.trans hv
          · cases h.symm.trans hg
            cases cause with
            | divisionByZero => exact .divisionByZero
            | overflow a => exact .overflow _
            | unordered o own unordered =>
                subst own
                exact .unordered reached hl hr unordered
  | not hv h =>
      rcases within with typed | ⟨_, ⟨⟩⟩
      cases typed with
      | not typed truth _ =>
          obtain ⟨_, same⟩ := typed.ensures_eval.ok follows hv
          obtain ⟨b, hb⟩ := Value.negate_of_ty (same.trans truth)
          cases h.symm.trans hb
  | var h =>
      rcases within with typed | ⟨_, ⟨⟩⟩
      cases typed with
      | var found =>
          obtain ⟨rfl, absent⟩ := Store.find?_of_get h
          exact .undefined (Table.contains_iff.mpr ⟨_, found⟩) absent
  | condition hv h =>
      obtain ⟨_, _, typed, known⟩ := within
      cases typed with
      | condition typed truth =>
          obtain ⟨_, same⟩ := (typed.mono known).ensures_eval.ok follows hv
          obtain ⟨b, hb⟩ := Value.truth_of_ty (same.trans truth) .condition
          cases h.symm.trans hb
  | @plain ty _ _ _ _ h =>
      have fits := Ty.compatible_iff.mpr (Or.inl (Value.ty_initial ty).symm)
      cases Store.fault_of_define fits h
      exact .overflow _
  | start hv h =>
      obtain ⟨_, _, typed, known⟩ := within
      cases typed with
      | bindingsStart _ fresh typed fits others =>
          have larger := (Table.extends_insert fresh _).trans (others.table_extends.trans known)
          obtain ⟨_, same⟩ := (typed.mono larger).ensures_eval.ok follows hv
          rw [← same] at fits
          cases Store.fault_of_define fits h
          exact .overflow _
  | read h =>
      obtain ⟨_, _, typed, known⟩ := within
      cases typed with
      | read _ declared =>
          exact read_admissible (fun name mem => known.contains (declared name mem)) h

/-- From the moment on, the run comes to one at which the fault is raised. -/
def Moment.ComesTo (p : Moment) (f : Fault) (n : Machine) : Prop :=
  ∃ q, Reaches p q ∧ Raises q f n

section

variable {f : Fault} {m n : Machine}

theorem Moment.ComesTo.enters {p q : Moment} (h : q.ComesTo f n) (step : Enters p q) :
    p.ComesTo f n := by
  obtain ⟨r, reached, raised⟩ := h
  exact ⟨r, .head step reached, raised⟩

theorem Raises.comesTo {p : Moment} (h : Raises p f n) : p.ComesTo f n := ⟨p, .refl, h⟩

theorem Expr.comesTo_of_eval {e : Expr} (h : e.eval m = .error (.fault f) n) :
    Moment.ComesTo (.expr e, m) f n := by
  induction e generalizing m with
  | assign note name value ih =>
      rcases bind_eq_error h with h | ⟨v, k, hv, h⟩
      · exact (ih h).enters .assigned
      · obtain ⟨refused, rfl⟩ := assign_eq_error h
        exact (Raises.assign hv refused).comesTo
  | binary note op left right ihl ihr =>
      rcases bind_eq_error h with h | ⟨v, k, hl, h⟩
      · exact (ihl h).enters .left
      · rcases bind_eq_error h with h | ⟨w, j, hr, h⟩
        · exact (ihr h).enters (.right hl)
        · obtain ⟨refused, rfl⟩ := ofExcept_eq_error h
          exact (Raises.binary hl hr refused).comesTo
  | not note operand ih =>
      rcases bind_eq_error h with h | ⟨v, k, hv, h⟩
      · exact (ih h).enters .negated
      · obtain ⟨refused, rfl⟩ := ofExcept_eq_error h
        exact (Raises.not hv refused).comesTo
  | var note name =>
      obtain ⟨absent, rfl⟩ := ofExcept_eq_error (r := m.store.get name) h
      exact (Raises.var absent).comesTo
  | literal note value => cases h
  | blank note => cases h

theorem Expr.comesTo_of_test {e : Expr} (h : e.test m = .error (.fault f) n) :
    Moment.ComesTo (.condition e, m) f n := by
  rcases bind_eq_error h with h | ⟨v, k, hv, h⟩
  · exact (comesTo_of_eval h).enters .asked
  · obtain ⟨refused, rfl⟩ := ofExcept_eq_error h
    exact (Raises.condition hv refused).comesTo

/-- The passes of a loop fail in one of them, however many are left. -/
theorem Phrase.comesTo_of_passes {test step : Expr} {body : List Stmt} {limit : Nat}
    (inBody : ∀ {m : Machine}, Stmt.runAll limit body m = .error (.fault f) n →
      Moment.ComesTo (.stmts body, m) f n)
    {left : Nat}
    (h : repeatWhile test.test
      (do
        Stmt.runAll limit body
        let _ ← step.eval)
      left m = .error (.fault f) n) :
    Moment.ComesTo (.passes test step body, m) f n := by
  induction left generalizing m with
  | zero => cases h
  | succ left ih =>
      rcases bind_eq_error h with h | ⟨holds, k, ht, h⟩
      · exact (Expr.comesTo_of_test h).enters .retests
      · cases holds with
        | false => cases h
        | true =>
            rcases bind_eq_error h with h | ⟨_, j, hpass, h⟩
            · rcases bind_eq_error h with h | ⟨_, j, hb, h⟩
              · exact (inBody h).enters (.pass ht)
              · rcases bind_eq_error h with h | ⟨_, _, _, h⟩
                · exact (Expr.comesTo_of_eval h).enters (.update ht hb)
                · cases h
            · obtain ⟨_, i, hb, hs⟩ := bind_eq_ok hpass
              obtain ⟨_, _, hs, last⟩ := bind_eq_ok hs
              cases last
              exact (ih h).enters (.nextPass ht hb hs)

/-- A run that stops with a fault came to a moment at which the fault was raised. -/
theorem Phrase.Typed.comesTo_of_run {before after : Table Ty} {phrase : Phrase} {limit : Nat}
    (typed : Phrase.Typed before phrase after) (h : phrase.run limit m = .error (.fault f) n) :
    Moment.ComesTo (phrase, m) f n := by
  induction typed generalizing m with
  | condition =>
      rcases bind_eq_error h with h | ⟨_, _, _, h⟩
      · exact Expr.comesTo_of_test h
      · cases h
  | bindingsNil => cases h
  | @bindingsPlain _ _ ty name _ _ _ _ ih =>
      rcases bind_eq_error (p := define name ty (.initial ty)) h with h | ⟨_, k, hd, h⟩
      · obtain ⟨refused, rfl⟩ := define_eq_error h
        exact (Raises.plain refused).comesTo
      · exact (ih h).enters (.nextBinding (bind_of_ok (f := fun _ => pure ()) hd))
  | bindingsStart _ _ _ _ _ ih =>
      rcases bind_eq_error h with h | ⟨v, k, hv, h⟩
      · exact (Expr.comesTo_of_eval h).enters .start
      · rcases bind_eq_error h with h | ⟨_, j, hd, h⟩
        · obtain ⟨refused, rfl⟩ := define_eq_error h
          exact (Raises.start hv refused).comesTo
        · exact (ih h).enters (.nextBinding ((bind_of_ok hv).trans (bind_of_ok hd)))
  | itemsNil => cases h
  | itemsBlank => cases h
  | itemsCons _ _ ih =>
      rcases bind_eq_error h with h | ⟨v, k, hv, h⟩
      · exact (Expr.comesTo_of_eval h).enters .item
      · exact (ih h).enters (.nextItem (bind_of_ok hv))
  | declare _ _ ih => exact (ih h).enters .declares
  | read => exact (Raises.read h).comesTo
  | print _ _ ih => exact (ih h).enters .prints
  | branch _ _ _ _ _ chosen others last =>
      rcases bind_eq_error h with h | ⟨holds, k, ht, h⟩
      · exact (Expr.comesTo_of_test h).enters .decides
      · cases holds with
        | true => exact (chosen h).enters (.chosen ht)
        | false =>
            rcases bind_eq_error h with h | ⟨found, j, hf, h⟩
            · exact (others (bind_of_error h)).enters (.refused ht)
            · cases found with
              | true => cases h
              | false => exact (last h).enters (.exhausted ht hf)
  | loop _ _ ih =>
      rcases bind_eq_error h with h | ⟨v, k, hv, h⟩
      · exact (Expr.comesTo_of_eval h).enters .starts
      · exact (ih h).enters (.repeats hv)
  | block _ ih => exact (ih h).enters .inside
  | expr =>
      rcases bind_eq_error h with h | ⟨_, _, _, h⟩
      · exact (Expr.comesTo_of_eval h).enters .evaluates
      · cases h
  | stmtsNil => cases h
  | stmtsCons _ _ head others =>
      rcases bind_eq_error h with h | ⟨_, k, hs, h⟩
      · exact (head h).enters .first
      · exact (others h).enters (.next hs)
  | armsNil => cases h
  | armsCons _ _ _ _ chosen others =>
      rcases bind_eq_error h with h | ⟨_, _, _, h⟩
      · rcases bind_eq_error h with h | ⟨holds, k, ht, h⟩
        · exact (Expr.comesTo_of_test h).enters .arm
        · cases holds with
          | true =>
              rcases bind_eq_error h with h | ⟨_, _, _, h⟩
              · exact (chosen h).enters (.armChosen ht)
              · cases h
          | false => exact (others (bind_of_error h)).enters (.nextArm ht)
      · cases h
  | otherwiseNone => cases h
  | otherwiseSome _ ih => exact (ih h).enters .fallback
  | passes _ _ _ _ ih => exact comesTo_of_passes ih h

end

/-- The faults of a well-typed program on cells that agree with its names. -/
theorem Program.Typed.fault_admissible {before after table : Table Ty} {program : Program}
    (typed : program.Typed before after) (known : after.Extends table) {limit : Nat}
    {m n : Machine} {f : Fault} (agrees : m.store.Agrees table)
    (h : Stmt.runAll limit program m = .error (.fault f) n) :
    f.Admissible table (.stmts program, m) n := by
  obtain ⟨p, reached, raised⟩ := Phrase.Typed.comesTo_of_run typed h
  have start : Moment.Sound table m.store (.stmts program, m) :=
    ⟨⟨_, _, typed, known⟩, agrees.follows⟩
  exact raised.admissible (start.reaches reached) reached

end Sulti
