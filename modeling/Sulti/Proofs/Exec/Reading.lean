import Mathlib.Data.List.Forall2
import Sulti.Proofs.Exec.Faults
import Sulti.Proofs.Exec.Coupling

/-!
What `DAWAT` does to the variables. It takes one line and stores a prefix of its
fields, up to the first one that is no value of its variable; everything else
stays as it was. Whether a field is a value of its variable can be told from the
store before: a field that is stored changes no type, so that a variable may
stand among the targets more than once.

Storing never fails on its own. A field that converts gives a value of the type
of the cell, and such a value is stored as it is.
-/

namespace Sulti

namespace Store

/-- The value of a field for a variable, or why there is none: the variable has no cell,
or the field does not convert to the type of the cell. -/
def receive (position : Position) (s : Store) (target : String × List Char) :
    Except Fault Value :=
  match s.typeOf? target.1 with
  | none => .error (.undefined target.1)
  | some ty => Input.convert position target.1 ty target.2

/-- Changes what the cell of a variable holds. -/
def hold (s : Store) (name : String) (value : Value) : Store :=
  match s.find? name with
  | none => s
  | some cell => s.insert name ⟨cell.ty, value⟩

/-- Changes what the cells of variables hold, from left to right. -/
def holdAll (s : Store) (values : List (String × Value)) : Store :=
  values.foldl (fun s entry => s.hold entry.1 entry.2) s

@[simp] theorem holdAll_nil (s : Store) : s.holdAll [] = s := rfl

@[simp] theorem holdAll_cons (s : Store) (name : String) (value : Value)
    (rest : List (String × Value)) :
    s.holdAll ((name, value) :: rest) = (s.hold name value).holdAll rest := rfl

theorem find?_hold_of_ne {name other : String} (h : other ≠ name) (s : Store) (value : Value) :
    (s.hold name value).find? other = s.find? other := by
  unfold hold
  split
  · rfl
  · rw [Table.find?_insert, if_neg h]

theorem typeOf?_hold (s : Store) (name other : String) (value : Value) :
    (s.hold name value).typeOf? other = s.typeOf? other := by
  by_cases same : other = name
  · subst same
    unfold hold
    split
    · rfl
    · rename_i cell found
      simp [typeOf?, Table.find?_insert, found]
  · simp [typeOf?, find?_hold_of_ne same]

theorem typeOf?_holdAll (s : Store) (values : List (String × Value)) (name : String) :
    (s.holdAll values).typeOf? name = s.typeOf? name := by
  induction values generalizing s with
  | nil => rfl
  | cons entry rest ih => rw [holdAll_cons, ih, typeOf?_hold]

theorem find?_holdAll_of_notMem {name : String} {values : List (String × Value)}
    (h : name ∉ values.map Prod.fst) (s : Store) :
    (s.holdAll values).find? name = s.find? name := by
  induction values generalizing s with
  | nil => rfl
  | cons entry rest ih =>
      simp only [List.map_cons, List.mem_cons, not_or] at h
      rw [holdAll_cons, ih h.2, find?_hold_of_ne h.1]

/-- What a field is for a variable only depends on the types of the cells. -/
theorem receive_hold (position : Position) (s : Store) (name : String) (value : Value) :
    (s.hold name value).receive position = s.receive position := by
  funext target
  simp only [receive, typeOf?_hold]

/-- A value of the type of the cell is stored as it is. -/
theorem coerce_of_ty {ty : Ty} {value : Value} (h : value.ty = ty) (name : String) :
    coerce name ty value = .ok value := by
  subst h
  cases value <;> rfl

theorem fault_of_receive {position : Position} {s : Store} {name : String} {field : List Char}
    {f : Fault} (h : s.receive position (name, field) = .error f) :
    f = .undefined name ∧ s.find? name = none ∨
      (∃ ty, s.typeOf? name = some ty ∧
        f = .invalidInput position name ty (String.ofList field)) ∨
      f = .inputLength position 1 field.length := by
  unfold receive at h
  split at h
  · rename_i absent
    cases h
    exact Or.inl ⟨rfl, by simpa [typeOf?] using absent⟩
  · rename_i ty found
    right
    rcases Input.fault_of_convert h with rfl | rfl
    · exact Or.inl ⟨ty, found, rfl⟩
    · exact Or.inr rfl

end Store

theorem Lines.next_eq_ok {l rest : Lines} {line : String} (h : l.next = (.ok line, rest)) :
    l = { rest with pending := .ok line :: rest.pending } := by
  unfold next at h
  split at h
  · cases h
  · rename_i read behind pending
    cases h
    obtain ⟨_, exhausted⟩ := l
    cases pending
    rfl

namespace Exec

theorem storeFields_of_receive {position : Position} {name : String} {field : List Char}
    {m : Machine} {value : Value} (h : m.store.receive position (name, field) = .ok value)
    (names : List String) (fields : List (List Char)) :
    storeFields position (name :: names) (field :: fields) m =
      storeFields position names fields { m with store := m.store.hold name value } := by
  unfold Store.receive Store.typeOf? at h
  cases found : m.store.find? name with
  | none => simp [found] at h
  | some cell =>
      simp only [found, Option.map_some] at h
      have stored : Store.coerce name cell.ty value = .ok value :=
        Store.coerce_of_ty (Input.ty_of_convert h) name
      have assigned : assign name value m =
          .ok value { m with store := m.store.hold name value } := by
        rw [assign_eq, bind_of_ok (cell_of_find? found), put_of_ok stored, Store.hold, found]
        rfl
      rw [storeFields_cell found, h]
      change (assign name value >>= fun _ => storeFields position names fields) m = _
      rw [bind_of_ok assigned]

theorem storeFields_of_refused {position : Position} {name : String} {field : List Char}
    {m : Machine} {f : Fault} (h : m.store.receive position (name, field) = .error f)
    (names : List String) (fields : List (List Char)) :
    storeFields position (name :: names) (field :: fields) m = .error (.fault f) m := by
  unfold Store.receive Store.typeOf? at h
  cases found : m.store.find? name with
  | none =>
      simp only [found, Option.map_none, Except.error.injEq] at h
      rw [storeFields_absent found, h]
  | some cell =>
      simp only [found, Option.map_some] at h
      rw [storeFields_cell found, h]
      rfl

theorem read_of_error {m : Machine} {reason : String} {rest : Lines}
    (h : m.lines.next = (.error reason, rest)) (position : Position) (targets : List String) :
    Exec.read position targets m =
      .error (.fault (.unreadable reason)) { m with lines := rest } := by
  rw [read_eq, bind_of_error (readFields_of_error h)]

theorem read_of_short {m : Machine} {line : String} {rest : Lines}
    (h : m.lines.next = (.ok line, rest)) (position : Position) {targets : List String}
    (short : (Text.fields line).length < targets.length) :
    Exec.read position targets m =
      .error (.fault (.inputLength position targets.length (Text.fields line).length))
        { m with lines := rest } := by
  rw [read_eq, bind_of_ok (readFields_of_ok h), if_pos short]
  rfl

theorem read_of_enough {m : Machine} {line : String} {rest : Lines}
    (h : m.lines.next = (.ok line, rest)) (position : Position) {targets : List String}
    (enough : targets.length ≤ (Text.fields line).length) :
    Exec.read position targets m =
      storeFields position targets (Text.fields line) { m with lines := rest } := by
  rw [read_eq, bind_of_ok (readFields_of_ok h), if_neg (by omega)]

/-- Fields are stored from left to right as long as they are values of their variables. -/
theorem storeFields_prefix (position : Position) (names : List String)
    (fields : List (List Char)) (m : Machine) :
    ∃ front values, List.Forall₂ (fun target value => m.store.receive position target = .ok value)
        front values ∧
      let after := { m with store := m.store.holdAll ((front.map Prod.fst).zip values) }
      (names.zip fields = front ∧ storeFields position names fields m = .ok () after ∨
        ∃ target behind f, names.zip fields = front ++ target :: behind ∧
          m.store.receive position target = .error f ∧
          storeFields position names fields m = .error (.fault f) after) := by
  induction names generalizing fields m with
  | nil => exact ⟨[], [], .nil, Or.inl ⟨rfl, rfl⟩⟩
  | cons name names ih =>
      cases fields with
      | nil => exact ⟨[], [], .nil, Or.inl ⟨rfl, rfl⟩⟩
      | cons field fields =>
          cases received : m.store.receive position (name, field) with
          | error f =>
              have refused := storeFields_of_refused received names fields
              exact ⟨[], [], .nil, Or.inr ⟨_, _, f, rfl, received, refused⟩⟩
          | ok value =>
              obtain ⟨front, values, valid, outcome⟩ :=
                ih fields { m with store := m.store.hold name value }
              rw [Store.receive_hold] at valid outcome
              refine ⟨(name, field) :: front, value :: values, .cons received valid, ?_⟩
              rw [storeFields_of_receive received]
              simpa using outcome

/-- All that a read can fail with. -/
theorem fault_of_read {position : Position} {targets : List String} {m n : Machine} {f : Fault}
    (h : Exec.read position targets m = .error (.fault f) n) :
    (∃ reason, f = .unreadable reason) ∨ (∃ name, f = .undefined name) ∨
      (∃ name ty field, f = .invalidInput position name ty field) ∨
      ∃ expected found, f = .inputLength position expected found := by
  rcases next : m.lines.next with ⟨reason | line, rest⟩
  · rw [read_of_error next] at h
    cases h
    exact Or.inl ⟨reason, rfl⟩
  · by_cases short : (Text.fields line).length < targets.length
    · rw [read_of_short next position short] at h
      cases h
      exact Or.inr (Or.inr (Or.inr ⟨_, _, rfl⟩))
    · rw [read_of_enough next position (by omega)] at h
      obtain ⟨_, _, _, ⟨_, ended⟩ | ⟨⟨name, field⟩, _, g, _, refused, stopped⟩⟩ :=
        storeFields_prefix position targets (Text.fields line) { m with lines := rest }
      · rw [ended] at h
        cases h
      · rw [stopped] at h
        cases h
        rcases Store.fault_of_receive refused with ⟨rfl, _⟩ | ⟨ty, _, rfl⟩ | rfl
        · exact Or.inr (Or.inl ⟨name, rfl⟩)
        · exact Or.inr (Or.inr (Or.inl ⟨name, ty, _, rfl⟩))
        · exact Or.inr (Or.inr (Or.inr ⟨_, _, rfl⟩))

end Exec

namespace Stmt

open Exec

/-- `DAWAT` takes one line, if there is one, and nothing is stored if it has too few fields.
Otherwise the fields before the first that is no value of its variable are stored, from
left to right, and the statement fails with the fault of that field, if there is one. No
cell changes its type, and no cell but those of these variables changes. Storing itself does
not fail: no value is refused by its cell, and none overflows. -/
theorem run_read (limit : Nat) (position : Position) (targets : List String) (m : Machine) :
    let run := (Stmt.read position targets).run limit m
    (∀ reason rest, m.lines.next = (.error reason, rest) →
      run = .error (.fault (.unreadable reason)) { m with lines := rest }) ∧
    (∀ line rest, m.lines.next = (.ok line, rest) →
      let fields := Text.fields line
      m.lines = { rest with pending := .ok line :: rest.pending } ∧
      (fields.length < targets.length →
        run = .error (.fault (.inputLength position targets.length fields.length))
          { m with lines := rest }) ∧
      (targets.length ≤ fields.length →
        ∃ front values,
          List.Forall₂ (fun target value => m.store.receive position target = .ok value)
            front values ∧
          let after : Machine :=
            { m with store := m.store.holdAll ((front.map Prod.fst).zip values), lines := rest }
          (∀ name, after.store.typeOf? name = m.store.typeOf? name) ∧
          (∀ name, name ∉ front.map Prod.fst →
            after.store.find? name = m.store.find? name) ∧
          (targets.zip fields = front ∧ run = .ok () after ∨
            ∃ name field behind f, targets.zip fields = front ++ (name, field) :: behind ∧
              m.store.receive position (name, field) = .error f ∧
              (f = .undefined name ∧ m.store.find? name = none ∨
                (∃ ty, m.store.typeOf? name = some ty ∧
                  f = .invalidInput position name ty (String.ofList field)) ∨
                f = .inputLength position 1 field.length) ∧
              run = .error (.fault f) after))) ∧
    ∀ f n, run = .error (.fault f) n →
      (∀ name expected found, f ≠ .unstorable name expected found) ∧
      ∀ during, f ≠ .overflow during := by
  intro run
  have failed : ∀ reason rest, m.lines.next = (.error reason, rest) →
      run = .error (.fault (.unreadable reason)) { m with lines := rest } := by
    intro reason rest next
    exact read_of_error next position targets
  refine ⟨failed, ?_, ?_⟩
  · intro line rest next fields
    refine ⟨Lines.next_eq_ok next, read_of_short next position, ?_⟩
    intro enough
    have stores : run = storeFields position targets fields { m with lines := rest } :=
      read_of_enough next position enough
    obtain ⟨front, values, valid, outcome⟩ :=
      storeFields_prefix position targets fields { m with lines := rest }
    have names : ((front.map Prod.fst).zip values).map Prod.fst = front.map Prod.fst := by
      rw [List.map_fst_zip]
      simp [valid.length_eq]
    refine ⟨front, values, valid, fun name => Store.typeOf?_holdAll .., ?_, ?_⟩
    · intro name other
      exact Store.find?_holdAll_of_notMem (by rwa [names]) _
    · rw [stores]
      rcases outcome with all | ⟨⟨name, field⟩, behind, f, split, refused, result⟩
      · exact Or.inl all
      · exact Or.inr ⟨name, field, behind, f, split, refused,
          Store.fault_of_receive refused, result⟩
  · intro f n stopped
    rcases fault_of_read stopped with ⟨_, rfl⟩ | ⟨_, rfl⟩ | ⟨_, _, _, rfl⟩ | ⟨_, _, rfl⟩ <;> simp

/-- A variable that stands twice among the targets, and behind it a field that is no truth
value. The field that is too many is not looked at, and the next line stays unread. -/
theorem run_read_repeated :
    let store (n : Numero) : Store :=
      (Table.empty.insert "x" ⟨.numero, .numero n⟩).insert "t" ⟨.tinuod, .tinuod false⟩
    let m : Machine := ⟨store .zero, .ofList ["0, 1, yes, 5", "7"], ""⟩
    (Stmt.read .start ["x", "x", "t"]).run 0 m =
      .error (.fault (.invalidInput .start "t" .tinuod "yes"))
        ⟨store .one, .ofList ["7"], ""⟩ := by
  intro store m
  have next : m.lines.next = (.ok "0, 1, yes, 5", .ofList ["7"]) := rfl
  have fields : Text.fields "0, 1, yes, 5" = [['0'], ['1'], ['y', 'e', 's'], ['5']] := by
    decide +kernel
  have zero : m.store.receive .start ("x", ['0']) = .ok (.numero .zero) := by
    decide +kernel
  have one : m.store.receive .start ("x", ['1']) = .ok (.numero .one) := by
    decide +kernel
  have yes : m.store.receive .start ("t", ['y', 'e', 's']) =
      .error (.invalidInput .start "t" .tinuod "yes") := by
    decide +kernel
  obtain ⟨_, _, taken⟩ := (run_read 0 .start ["x", "x", "t"] m).2.1 _ _ next
  rw [fields] at taken
  obtain ⟨front, values, valid, _, _, outcome⟩ := taken (by decide)
  rcases outcome with ⟨rfl, _⟩ | ⟨name, field, behind, f, split, refused, _, result⟩
  · rcases valid with _ | ⟨_, _ | ⟨_, _ | ⟨third, _⟩⟩⟩
    cases yes.symm.trans third
  · -- The first two fields convert, so it is the third one.
    rcases valid with _ | ⟨first, _ | ⟨second, _ | ⟨third, _⟩⟩⟩
    · cases split
      cases zero.symm.trans refused
    · cases split
      cases one.symm.trans refused
    · cases split
      cases zero.symm.trans first
      cases one.symm.trans second
      cases yes.symm.trans refused
      exact result
    · simp at split

end Stmt

end Sulti
