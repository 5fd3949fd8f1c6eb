import Sulti.Proofs.Exec.Invariant

/-!
From single steps to whole programs. However long a program runs, its machine
is only touched in four ways: the cell of a variable is looked up, a cell is
written, the fields of a line are read, and text is printed. So a property of
actions that sequences keep holds of the run of every program as soon as it
holds of these four, on the variables that the program names. Only the look-up
can miss a cell.

Nothing is asked of the types of the program.
-/

namespace Sulti

namespace Expr

/-- The variables that occur in an expression. -/
def names : Expr → List String
  | .assign _ name value => name :: value.names
  | .binary _ _ left right => left.names ++ right.names
  | .not _ operand => operand.names
  | .var _ name => [name]
  | .literal _ _ | .blank _ => []

/-- The variables that an expression stores into. -/
def targets : Expr → List String
  | .assign _ name value => name :: value.targets
  | .binary _ _ left right => left.targets ++ right.targets
  | .not _ operand => operand.targets
  | .var _ _ | .literal _ _ | .blank _ => []

end Expr

namespace Stmt

/-- What `f` finds in the expressions that variables start from, and the
variables themselves. -/
def gatherBindings (f : Expr → List String) : List (String × Option Expr) → List String
  | [] => []
  | (name, none) :: rest => name :: gatherBindings f rest
  | (name, some start) :: rest => name :: (f start ++ gatherBindings f rest)

mutual

/-- What `f` finds in the expressions of a statement, and the variables that the
statement declares or reads into. -/
def gather (f : Expr → List String) : Stmt → List String
  | .declare _ bindings => gatherBindings f bindings
  | .read _ targets => targets
  | .print items => items.flatMap f
  | .branch condition body others otherwise =>
      f condition ++ (gatherAll f body ++ (gatherArms f others ++ gatherOtherwise f otherwise))
  | .loop start condition step body =>
      f start ++ (f condition ++ (f step ++ gatherAll f body))
  | .block body => gatherAll f body
  | .expr e => f e

def gatherAll (f : Expr → List String) : List Stmt → List String
  | [] => []
  | first :: rest => first.gather f ++ gatherAll f rest

def gatherArms (f : Expr → List String) : List (Expr × List Stmt) → List String
  | [] => []
  | (condition, body) :: rest => f condition ++ (gatherAll f body ++ gatherArms f rest)

def gatherOtherwise (f : Expr → List String) : Option (List Stmt) → List String
  | none => []
  | some body => gatherAll f body

end

end Stmt

namespace Program

/-- The variables that occur in a program. -/
def names (program : Program) : List String := Stmt.gatherAll Expr.names program

/-- The variables that a program assigns to, reads into or declares. -/
def targets (program : Program) : List String := Stmt.gatherAll Expr.targets program

end Program

/-! Neither operators nor conversions look for a variable. -/

theorem Value.truth_ne_undefined (use : TruthUse) (v : Value) (name : String) :
    v.truth use ≠ .error (.undefined name) := by
  cases v <;> simp [truth]

theorem Value.negate_ne_undefined (v : Value) (name : String) :
    v.negate ≠ .error (.undefined name) := by
  cases v <;> simp [negate, truth, bind, Except.bind, pure, Except.pure]

theorem Value.calculate_ne_undefined (a : Arith) (left right : Value) (name : String) :
    calculate a left right ≠ some (.error (.undefined name)) := by
  unfold calculate
  split
  · split <;> simp
  · cases left.toReal? <;> cases right.toReal? <;> simp

theorem Value.apply_ne_undefined (op : Op) (left right : Value) (name : String) :
    apply op left right ≠ .error (.undefined name) := by
  cases op with
  | arith a =>
      simp only [apply]
      split
      · simp
      · cases h : calculate a left right with
        | none => simp
        | some result =>
            rintro rfl
            exact calculate_ne_undefined a left right name h
  | order o =>
      simp only [apply]
      split <;> simp
  | eq =>
      simp only [apply]
      split <;> simp
  | ne =>
      simp only [apply]
      split <;> simp
  | and => cases left <;> cases right <;> simp [apply, truth, bind, Except.bind, pure, Except.pure]
  | or => cases left <;> cases right <;> simp [apply, truth, bind, Except.bind, pure, Except.pure]

theorem Store.coerce_ne_undefined (target : String) (ty : Ty) (value : Value) (name : String) :
    coerce target ty value ≠ .error (.undefined name) := by
  unfold coerce
  split
  · split <;> simp
  · simp
  · split <;> simp

theorem Input.convert_ne_undefined (position : Position) (target : String) (ty : Ty)
    (field : List Char) (name : String) :
    convert position target ty field ≠ .error (.undefined name) := by
  cases ty with
  | text => simp [convert]
  | empty => simp [convert]
  | _ =>
      simp only [convert]
      split <;> simp

namespace Exec

/-! The four ways in which a machine is touched. -/

/-- The cell of a variable, which has to have one. -/
def cell (name : String) : Exec Cell := do
  let machine ← get
  match machine.store.find? name with
  | some cell => return cell
  | none => throw (.fault (.undefined name))

def write (name : String) (cell : Cell) : Exec Unit :=
  modify fun machine => { machine with store := machine.store.insert name cell }

/-- Writes a value as one of the given type and yields what was written. -/
def put (name : String) (ty : Ty) (value : Value) : Exec Value := do
  let stored ← ofExcept (Store.coerce name ty value)
  write name ⟨ty, stored⟩
  return stored

/-- The fields of the next line of input. -/
def readFields : Exec (List (List Char)) := do
  let line ← readLine
  return Text.fields line

def print (text : String) : Exec Unit :=
  modify fun machine => { machine with output := machine.output ++ text }

theorem cell_of_find? {name : String} {m : Machine} {c : Cell} (h : m.store.find? name = some c) :
    cell name m = .ok c m := by
  rw [cell, get_bind, h]
  rfl

theorem cell_of_absent {name : String} {m : Machine} (h : m.store.find? name = none) :
    cell name m = .error (.fault (.undefined name)) m := by
  rw [cell, get_bind, h]
  rfl

theorem put_of_ok {name : String} {ty : Ty} {value stored : Value}
    (h : Store.coerce name ty value = .ok stored) :
    put name ty value = (do
      write name ⟨ty, stored⟩
      return stored) := by
  rw [put, h]
  rfl

theorem put_of_error {name : String} {ty : Ty} {value : Value} {f : Fault}
    (h : Store.coerce name ty value = .error f) : put name ty value = throw (.fault f) := by
  rw [put, h]
  rfl

theorem eval_var (note : Note) (name : String) :
    (Expr.var note name).eval = (do
      let c ← cell name
      return c.value) := by
  funext m
  rw [Expr.eval, get_bind, Store.get]
  cases h : m.store.find? name with
  | some c => rw [bind_of_ok (cell_of_find? h)]; rfl
  | none => rw [bind_of_error (cell_of_absent h)]; rfl

theorem define_eq (name : String) (ty : Ty) (value : Value) :
    define name ty value = (do
      let _ ← put name ty value) := by
  funext m
  rw [define, get_bind, Store.define]
  cases h : Store.coerce name ty value with
  | ok stored => rw [put_of_ok h]; rfl
  | error f => rw [put_of_error h]; rfl

theorem assign_eq (name : String) (value : Value) :
    assign name value = (do
      let c ← cell name
      put name c.ty value) := by
  funext m
  rw [assign, get_bind, Store.assign]
  cases h : m.store.find? name with
  | some c =>
      rw [bind_of_ok (cell_of_find? h)]
      cases hc : Store.coerce name c.ty value with
      | ok stored => rw [put_of_ok hc]; simp only [hc]; rfl
      | error f => rw [put_of_error hc]; simp only [hc]; rfl
  | none => rw [bind_of_error (cell_of_absent h)]; rfl

theorem storeFields_cons (position : Position) (name : String) (names : List String)
    (field : List Char) (fields : List (List Char)) :
    storeFields position (name :: names) (field :: fields) = (do
      let c ← cell name
      let value ← ofExcept (Input.convert position name c.ty field)
      let _ ← assign name value
      storeFields position names fields) := by
  funext m
  rw [storeFields, get_bind, Store.typeOf?]
  cases h : m.store.find? name with
  | some c => rw [bind_of_ok (cell_of_find? h)]; rfl
  | none => rw [bind_of_error (cell_of_absent h)]; rfl

theorem read_eq (position : Position) (targets : List String) :
    Exec.read position targets = (do
      let fields ← readFields
      if fields.length < targets.length then
        throw (.fault (.inputLength position targets.length fields.length))
      else
        storeFields position targets fields) := by
  rw [Exec.read, readFields, bind_assoc]
  simp only [pure_bind]

theorem readFields_of_ok {m : Machine} {line : String} {lines : Lines}
    (h : m.lines.next = (.ok line, lines)) :
    readFields m = .ok (Text.fields line) { m with lines } := by
  have read : readLine m = .ok line { m with lines } := by
    rw [readLine, get_bind, h]
    rfl
  rw [readFields, bind_of_ok read]
  rfl

theorem readFields_of_error {m : Machine} {reason : String} {lines : Lines}
    (h : m.lines.next = (.error reason, lines)) :
    readFields m = .error (.fault (.unreadable reason)) { m with lines } := by
  have read : readLine m = .error (.fault (.unreadable reason)) { m with lines } := by
    rw [readLine, get_bind, h]
    rfl
  rw [readFields, bind_of_error read]

/-- Sequences keep the property `P`, and it holds of what may be done to a machine:
looking up a variable that may be `seen`, and writing one that may be `stored`, with a
value of the type of its cell. Anything else fails for other causes than a missing cell. -/
structure Lifts (P : ∀ {α : Type}, Exec α → Prop) (seen stored : String → Prop) : Prop where
  pure {α : Type} (a : α) : P (pure a : Exec α)
  throw {α : Type} {s : Stop} (h : ∀ name, s ≠ .fault (.undefined name)) : P (throw s : Exec α)
  bind {α β : Type} {p : Exec α} {f : α → Exec β} (hp : P p) (hf : ∀ a, P (f a)) : P (p >>= f)
  cell {name : String} (h : seen name) : P (cell name)
  write {name : String} (h : stored name) (c : Cell) (typed : c.value.ty = c.ty) :
    P (write name c)
  readFields : P readFields
  print (text : String) : P (print text)

namespace Lifts

variable {P : ∀ {α : Type}, Exec α → Prop} {seen stored : String → Prop}
  (lifts : Lifts P seen stored)

include lifts

theorem ofExcept {α : Type} {r : Except Fault α} (h : ∀ name, r ≠ .error (.undefined name)) :
    P (ofExcept r) := by
  cases r with
  | ok a => exact lifts.pure a
  | error f =>
      apply lifts.throw
      rintro name ⟨⟩
      exact h name rfl

theorem put {name : String} (h : stored name) (ty : Ty) (value : Value) :
    P (put name ty value) := by
  cases hc : Store.coerce name ty value with
  | ok stored =>
      rw [put_of_ok hc]
      exact lifts.bind (lifts.write h _ (Store.ty_of_coerce hc)) fun _ => lifts.pure stored
  | error f =>
      rw [put_of_error hc]
      apply lifts.throw
      rintro _ ⟨⟩
      exact Store.coerce_ne_undefined name ty value _ hc

theorem define {name : String} (h : stored name) (ty : Ty) (value : Value) :
    P (define name ty value) := by
  rw [define_eq]
  exact lifts.bind (lifts.put h ty value) fun _ => lifts.pure ()

theorem assign {name : String} (hs : seen name) (ht : stored name) (value : Value) :
    P (assign name value) := by
  rw [assign_eq]
  exact lifts.bind (lifts.cell hs) fun c => lifts.put ht c.ty value

theorem storeFields (position : Position) {names : List String} (fields : List (List Char))
    (hs : ∀ name ∈ names, seen name) (ht : ∀ name ∈ names, stored name) :
    P (storeFields position names fields) := by
  induction names generalizing fields with
  | nil => exact lifts.pure ()
  | cons name names ih =>
      cases fields with
      | nil => exact lifts.pure ()
      | cons field fields =>
          obtain ⟨seenFirst, seenRest⟩ := List.forall_mem_cons.mp hs
          obtain ⟨storedFirst, storedRest⟩ := List.forall_mem_cons.mp ht
          rw [storeFields_cons]
          apply lifts.bind (lifts.cell seenFirst)
          intro c
          apply lifts.bind (lifts.ofExcept (Input.convert_ne_undefined position name c.ty field))
          intro value
          apply lifts.bind (lifts.assign seenFirst storedFirst value)
          intro _
          exact ih fields seenRest storedRest

theorem read (position : Position) {targets : List String} (hs : ∀ name ∈ targets, seen name)
    (ht : ∀ name ∈ targets, stored name) : P (Exec.read position targets) := by
  rw [read_eq]
  apply lifts.bind lifts.readFields
  intro fields
  split
  · exact lifts.throw (by simp)
  · exact lifts.storeFields position fields hs ht

theorem repeatWhile {test : Exec Bool} {pass : Exec Unit} (ht : P test) (hp : P pass)
    (limit : Nat) : P (repeatWhile test pass limit) := by
  induction limit with
  | zero => exact lifts.throw (by simp)
  | succ limit ih =>
      apply lifts.bind ht
      intro holds
      cases holds with
      | true => exact lifts.bind hp fun _ => ih
      | false => exact lifts.pure ()

theorem eval {e : Expr} (hs : ∀ name ∈ e.names, seen name)
    (ht : ∀ name ∈ e.targets, stored name) : P e.eval := by
  induction e with
  | assign note name value ih =>
      obtain ⟨seenName, seenValue⟩ := List.forall_mem_cons.mp hs
      obtain ⟨storedName, storedValue⟩ := List.forall_mem_cons.mp ht
      exact lifts.bind (ih seenValue storedValue) fun v => lifts.assign seenName storedName v
  | binary note op left right ihl ihr =>
      obtain ⟨seenLeft, seenRight⟩ := List.forall_mem_append.mp hs
      obtain ⟨storedLeft, storedRight⟩ := List.forall_mem_append.mp ht
      apply lifts.bind (ihl seenLeft storedLeft)
      intro l
      apply lifts.bind (ihr seenRight storedRight)
      intro r
      exact lifts.ofExcept (Value.apply_ne_undefined op l r)
  | not note operand ih =>
      apply lifts.bind (ih hs ht)
      intro v
      exact lifts.ofExcept v.negate_ne_undefined
  | var note name =>
      rw [eval_var]
      exact lifts.bind (lifts.cell (hs name (List.mem_singleton_self name))) fun c =>
        lifts.pure c.value
  | literal note value => exact lifts.pure _
  | blank note => exact lifts.pure _

theorem test {e : Expr} (hs : ∀ name ∈ e.names, seen name)
    (ht : ∀ name ∈ e.targets, stored name) : P e.test :=
  lifts.bind (lifts.eval hs ht) fun v => lifts.ofExcept (v.truth_ne_undefined .condition)

theorem runBindings (ty : Ty) {bindings : List (String × Option Expr)}
    (hs : ∀ name ∈ Stmt.gatherBindings Expr.names bindings, seen name)
    (ht : ∀ name ∈ Stmt.gatherBindings Expr.targets bindings, stored name) :
    P (Stmt.runBindings ty bindings) := by
  induction bindings with
  | nil => exact lifts.pure ()
  | cons binding rest ih =>
      obtain ⟨name, start⟩ := binding
      cases start with
      | none =>
          obtain ⟨storedName, storedRest⟩ := List.forall_mem_cons.mp ht
          apply lifts.bind (lifts.pure _)
          intro value
          apply lifts.bind (lifts.define storedName ty value)
          intro _
          exact ih (List.forall_mem_cons.mp hs).2 storedRest
      | some e =>
          obtain ⟨seenStart, seenRest⟩ := List.forall_mem_append.mp (List.forall_mem_cons.mp hs).2
          obtain ⟨storedName, others⟩ := List.forall_mem_cons.mp ht
          obtain ⟨storedStart, storedRest⟩ := List.forall_mem_append.mp others
          apply lifts.bind (lifts.eval seenStart storedStart)
          intro value
          apply lifts.bind (lifts.define storedName ty value)
          intro _
          exact ih seenRest storedRest

theorem runItems {items : List Expr} (hs : ∀ name ∈ items.flatMap Expr.names, seen name)
    (ht : ∀ name ∈ items.flatMap Expr.targets, stored name) : P (Stmt.runItems items) := by
  induction items with
  | nil => exact lifts.pure ()
  | cons item rest ih =>
      rw [List.flatMap_cons] at hs ht
      obtain ⟨seenItem, seenRest⟩ := List.forall_mem_append.mp hs
      obtain ⟨storedItem, storedRest⟩ := List.forall_mem_append.mp ht
      apply lifts.bind (lifts.eval seenItem storedItem)
      intro value
      exact lifts.bind (lifts.print value.render) fun _ => ih seenRest storedRest

variable (limit : Nat)

mutual

theorem run (s : Stmt) (hs : ∀ name ∈ s.gather Expr.names, seen name)
    (ht : ∀ name ∈ s.gather Expr.targets, stored name) : P (s.run limit) := by
  cases s with
  | declare ty bindings => exact lifts.runBindings ty hs ht
  | read position targets => exact lifts.read position hs ht
  | print items => exact lifts.runItems hs ht
  | branch condition body others otherwise =>
      obtain ⟨seenTest, seenRest⟩ := List.forall_mem_append.mp hs
      obtain ⟨seenBody, seenRest⟩ := List.forall_mem_append.mp seenRest
      obtain ⟨seenOthers, seenLast⟩ := List.forall_mem_append.mp seenRest
      obtain ⟨storedTest, storedRest⟩ := List.forall_mem_append.mp ht
      obtain ⟨storedBody, storedRest⟩ := List.forall_mem_append.mp storedRest
      obtain ⟨storedOthers, storedLast⟩ := List.forall_mem_append.mp storedRest
      rw [Stmt.run]
      apply lifts.bind (lifts.test seenTest storedTest)
      intro holds
      cases holds with
      | true => exact runAll body seenBody storedBody
      | false =>
          apply lifts.bind (runFirst others seenOthers storedOthers)
          intro found
          cases found with
          | true => exact lifts.pure ()
          | false => exact runOtherwise otherwise seenLast storedLast
  | loop start condition step body =>
      obtain ⟨seenStart, seenRest⟩ := List.forall_mem_append.mp hs
      obtain ⟨seenTest, seenRest⟩ := List.forall_mem_append.mp seenRest
      obtain ⟨seenStep, seenBody⟩ := List.forall_mem_append.mp seenRest
      obtain ⟨storedStart, storedRest⟩ := List.forall_mem_append.mp ht
      obtain ⟨storedTest, storedRest⟩ := List.forall_mem_append.mp storedRest
      obtain ⟨storedStep, storedBody⟩ := List.forall_mem_append.mp storedRest
      rw [Stmt.run]
      apply lifts.bind (lifts.eval seenStart storedStart)
      intro _
      apply lifts.repeatWhile (lifts.test seenTest storedTest)
      apply lifts.bind (runAll body seenBody storedBody)
      intro _
      exact lifts.bind (lifts.eval seenStep storedStep) fun _ => lifts.pure ()
  | block body => exact runAll body hs ht
  | expr e => exact lifts.bind (lifts.eval hs ht) fun _ => lifts.pure ()

theorem runAll (body : List Stmt) (hs : ∀ name ∈ Stmt.gatherAll Expr.names body, seen name)
    (ht : ∀ name ∈ Stmt.gatherAll Expr.targets body, stored name) :
    P (Stmt.runAll limit body) := by
  cases body with
  | nil => exact lifts.pure ()
  | cons first rest =>
      obtain ⟨seenFirst, seenRest⟩ := List.forall_mem_append.mp hs
      obtain ⟨storedFirst, storedRest⟩ := List.forall_mem_append.mp ht
      rw [Stmt.runAll]
      exact lifts.bind (run first seenFirst storedFirst) fun _ => runAll rest seenRest storedRest

theorem runFirst (others : List (Expr × List Stmt))
    (hs : ∀ name ∈ Stmt.gatherArms Expr.names others, seen name)
    (ht : ∀ name ∈ Stmt.gatherArms Expr.targets others, stored name) :
    P (Stmt.runFirst limit others) := by
  cases others with
  | nil => exact lifts.pure false
  | cons arm rest =>
      obtain ⟨condition, body⟩ := arm
      obtain ⟨seenTest, seenRest⟩ := List.forall_mem_append.mp hs
      obtain ⟨seenBody, seenRest⟩ := List.forall_mem_append.mp seenRest
      obtain ⟨storedTest, storedRest⟩ := List.forall_mem_append.mp ht
      obtain ⟨storedBody, storedRest⟩ := List.forall_mem_append.mp storedRest
      rw [Stmt.runFirst]
      apply lifts.bind (lifts.test seenTest storedTest)
      intro holds
      cases holds with
      | true => exact lifts.bind (runAll body seenBody storedBody) fun _ => lifts.pure true
      | false => exact runFirst rest seenRest storedRest

theorem runOtherwise (body : Option (List Stmt))
    (hs : ∀ name ∈ Stmt.gatherOtherwise Expr.names body, seen name)
    (ht : ∀ name ∈ Stmt.gatherOtherwise Expr.targets body, stored name) :
    P (Stmt.runOtherwise limit body) := by
  cases body with
  | none => exact lifts.pure ()
  | some body => exact runAll body hs ht

end

end Lifts

end Exec

/-- A run ends or stops where its statements do. -/
theorem Machine.run_cases (limit : Nat) (program : Program) (m : Machine) :
    (∃ n, Stmt.runAll limit program { m with output := "" } = .ok () n ∧
      m.run limit program = (.ok n.output, { n with output := "" })) ∨
    ∃ s n, Stmt.runAll limit program { m with output := "" } = .error s n ∧
      m.run limit program = (.error s, { n with output := "" }) := by
  unfold Machine.run
  cases h : (Stmt.runAll limit program).run { m with output := "" } with
  | ok _ n => exact Or.inl ⟨n, h, rfl⟩
  | error s n => exact Or.inr ⟨s, n, h, rfl⟩

end Sulti
