import Sulti.Proofs.Binary64.Truncation
import Sulti.Proofs.Exec.Locality
import Sulti.Proofs.Exec.Reading

/-!
What is stored has the type of its cell, whoever stores it. A cell is given to a name, a
value is stored into one that is there, or a program is run, which may be any tree and may
stop anywhere; after any history of these every cell holds a value of its own type. It
does not matter what the program would have been allowed to do, because the conversion
on the way into a cell is made where the cell is written.

That conversion is exact. A real becomes the integer it is cut down to, or nothing is
stored; it is never moved to the end of the range.
-/

namespace Sulti

open Exec

/-- The integer is the number that the real stands for, without its fraction. -/
def Numero.Truncates (n : Numero) (x : Float) : Prop :=
  ∃ q, Binary64.encoded? x.toBits = some q ∧ n.val = towardZero q

theorem Numero.truncates_of_ofReal? {x : Float} {n : Numero} (h : ofReal? x = some n) :
    n.Truncates x := by
  rw [← Float.ofBits_toBits x, ofReal?_ofBits] at h
  obtain ⟨q, number, fits⟩ := Option.bind_eq_some_iff.mp h
  exact ⟨q, number, val_of_ofInt? fits⟩

/-- Every cell holds a value of its own type. -/
def Store.Typed (s : Store) : Prop :=
  ∀ name cell, s.find? name = some cell → cell.value.ty = cell.ty

theorem Store.Typed.insert {s : Store} (h : s.Typed) (name : String) {c : Cell}
    (typed : c.value.ty = c.ty) : Store.Typed (Table.insert s name c) := by
  intro other cell found
  rw [Table.find?_insert] at found
  split at found
  · cases found
    exact typed
  · exact h other cell found

theorem Store.get_insert (s : Store) (name : String) (c : Cell) :
    Store.get (Table.insert s name c) name = .ok c.value := by
  rw [Store.get, Table.find?_insert, if_pos rfl]

/-! A single call, which either writes one cell or changes nothing. -/

namespace Exec

/-- What a call leaves behind, also where it fails. -/
def leaves {α : Type} (p : Exec α) (m : Machine) : Machine :=
  match p m with
  | .ok _ n => n
  | .error _ n => n

theorem define_cases (name : String) (ty : Ty) (value : Value) (m : Machine) :
    (∃ stored, Store.coerce name ty value = .ok stored ∧
      define name ty value m = .ok () { m with store := m.store.insert name ⟨ty, stored⟩ }) ∨
    ∃ f, define name ty value m = .error (.fault f) m := by
  rw [define_eq]
  cases h : Store.coerce name ty value with
  | ok stored =>
      rw [put_of_ok h]
      exact Or.inl ⟨stored, rfl, rfl⟩
  | error f =>
      rw [put_of_error h]
      exact Or.inr ⟨f, rfl⟩

theorem assign_cases (name : String) (value : Value) (m : Machine) :
    (∃ cell stored, m.store.find? name = some cell ∧ Store.coerce name cell.ty value = .ok stored ∧
      assign name value m =
        .ok stored { m with store := m.store.insert name ⟨cell.ty, stored⟩ }) ∨
    ∃ f, assign name value m = .error (.fault f) m := by
  rw [assign_eq]
  cases found : m.store.find? name with
  | none =>
      rw [bind_of_error (cell_of_absent found)]
      exact Or.inr ⟨_, rfl⟩
  | some cell =>
      rw [bind_of_ok (cell_of_find? found)]
      cases h : Store.coerce name cell.ty value with
      | ok stored =>
          rw [put_of_ok h]
          exact Or.inl ⟨cell, stored, rfl, h, rfl⟩
      | error f =>
          rw [put_of_error h]
          exact Or.inr ⟨f, rfl⟩

/-- What came of storing the real `x` into the `NUMERO` of a name, on the machine `k`: the name
holds `x` without its fraction, or that is no `NUMERO` and the fault leaves `k` as it was. -/
def Cuts {α : Type} (name : String) (x : Float) (k : Machine) (fault : Fault)
    (result : EStateM.Result Stop Machine α) : Prop :=
  (∃ n a after, Numero.ofReal? x = some n ∧ n.Truncates x ∧ result = .ok a after ∧
    after.store.get name = .ok (.numero n)) ∨
  Numero.ofReal? x = none ∧ result = .error (.fault fault) k

theorem Cuts.bind_pure {α β : Type} {name : String} {x : Float} {k : Machine} {fault : Fault}
    {p : Exec α} (h : Cuts name x k fault (p k)) (b : β) :
    Cuts name x k fault ((p >>= fun _ => pure b) k) := by
  rcases h with ⟨n, a, after, cut, exactly, ok, held⟩ | ⟨none, failed⟩
  · rw [bind_of_ok ok]
    exact Or.inl ⟨n, b, after, cut, exactly, rfl, held⟩
  · rw [bind_of_error failed]
    exact Or.inr ⟨none, rfl⟩

/-- On the way into a `NUMERO` it does not matter who has looked up the cell. -/
theorem cuts_put (name : String) (x : Float) (m : Machine) :
    Cuts name x m (.overflow .conversion) (put name .numero (.tipik x) m) := by
  cases hx : Numero.ofReal? x with
  | some n =>
      have stored : Store.coerce name .numero (.tipik x) = .ok (.numero n) := by
        simp only [Store.coerce, hx]
      rw [put_of_ok stored]
      exact Or.inl ⟨n, _, _, hx, Numero.truncates_of_ofReal? hx, rfl, Store.get_insert ..⟩
  | none =>
      have refused : Store.coerce name .numero (.tipik x) = .error (.overflow .conversion) := by
        simp only [Store.coerce, hx]
      rw [put_of_error refused]
      exact Or.inr ⟨hx, rfl⟩

theorem cuts_define (name : String) (x : Float) (m : Machine) :
    Cuts name x m (.overflow .conversion) (define name .numero (.tipik x) m) := by
  rw [define_eq]
  exact (cuts_put name x m).bind_pure ()

theorem cuts_assign {name : String} {m : Machine} (h : m.store.typeOf? name = some .numero)
    (x : Float) : Cuts name x m (.overflow .conversion) (assign name (.tipik x) m) := by
  obtain ⟨cell, found, integer⟩ := Option.map_eq_some_iff.mp h
  rw [assign_eq, bind_of_ok (cell_of_find? found), integer]
  exact cuts_put name x m

/-- A field of a line is cut down before it is stored. -/
theorem cuts_storeFields {name : String} {m : Machine} {field : List Char} {x : Float}
    (h : m.store.typeOf? name = some .numero)
    (real : (Decimal.readInt? field).bind Numero.ofInt? = none)
    (number : Decimal.readReal? field = some x) (position : Position) :
    Cuts name x m (.invalidInput position name .numero (String.ofList field))
      (storeFields position [name] [field] m) := by
  have received : m.store.receive position (name, field) =
      Input.convert position name .numero field := by
    rw [Store.receive, h]
  have read : Input.readNumero? field = Numero.ofReal? x := by
    simp only [Input.readNumero?, real, number, Option.bind_some]
  cases hx : Numero.ofReal? x with
  | some n =>
      have value : m.store.receive position (name, field) = .ok (.numero n) := by
        simp only [received, Input.convert, read, hx]
      obtain ⟨cell, found, _⟩ := Option.map_eq_some_iff.mp h
      rw [storeFields_of_receive value]
      refine Or.inl ⟨n, (), _, hx, Numero.truncates_of_ofReal? hx, rfl, ?_⟩
      simp only [Store.hold, found, Store.get_insert]
  | none =>
      have refused : m.store.receive position (name, field) =
          .error (.invalidInput position name .numero (String.ofList field)) := by
        simp only [received, Input.convert, read, hx]
      rw [storeFields_of_refused refused]
      exact Or.inr ⟨hx, rfl⟩

/-- A stored value is the one that is found from then on, and no name changes its type. -/
theorem kept_of_assign {name : String} {value stored : Value} {m n : Machine}
    (h : assign name value m = .ok stored n) :
    (∀ other, n.store.typeOf? other = m.store.typeOf? other) ∧ n.store.get name = .ok stored := by
  rcases assign_cases name value m with ⟨cell, v, found, _, ok⟩ | ⟨_, failed⟩
  · cases h.symm.trans ok
    constructor
    · intro other
      by_cases same : other = name
      · subst same
        simp [Store.typeOf?, Table.find?_insert, found]
      · simp [Store.typeOf?, Table.find?_insert, same]
    · exact Store.get_insert ..
  · cases h.symm.trans failed

theorem unchanged_of_define {name : String} {ty : Ty} {value : Value} {m n : Machine} {s : Stop}
    (h : define name ty value m = .error s n) : n = m := by
  rcases define_cases name ty value m with ⟨_, _, ok⟩ | ⟨_, failed⟩
  · cases h.symm.trans ok
  · cases h.symm.trans failed
    rfl

theorem unchanged_of_assign {name : String} {value : Value} {m n : Machine} {s : Stop}
    (h : assign name value m = .error s n) : n = m := by
  rcases assign_cases name value m with ⟨_, _, _, _, ok⟩ | ⟨_, failed⟩
  · cases h.symm.trans ok
  · cases h.symm.trans failed
    rfl

end Exec

/-! Histories of calls. -/

/-- What may be done to the variables from outside. A program is any tree, with any lines to
read and any limit on its loops. -/
inductive Act where
  | define (name : String) (ty : Ty) (value : Value)
  | assign (name : String) (value : Value)
  | run (lines : Lines) (limit : Nat) (program : Program)

namespace Machine

def perform (m : Machine) : Act → Machine
  | .define name ty value => (Exec.define name ty value).leaves m
  | .assign name value => (Exec.assign name value).leaves m
  | .run lines limit program => (Machine.run limit program { m with lines }).2

/-- The machine behind a history of acts, from one without variables. -/
def after (acts : List Act) : Machine := acts.foldl perform (.new (.ofList []))

theorem typed_perform {m : Machine} (h : m.store.Typed) (act : Act) :
    (m.perform act).store.Typed := by
  cases act with
  | define name ty value =>
      rcases define_cases name ty value m with ⟨stored, coerced, ok⟩ | ⟨f, failed⟩
      · rw [perform, leaves, ok]
        exact h.insert name (Store.ty_of_coerce coerced)
      · rw [perform, leaves, failed]
        exact h
  | assign name value =>
      rcases assign_cases name value m with ⟨cell, stored, _, coerced, ok⟩ | ⟨f, failed⟩
      · rw [perform, leaves, ok]
        exact h.insert name (Store.ty_of_coerce coerced)
      · rw [perform, leaves, failed]
        exact h
  | run lines limit program =>
      exact run_store (fun s name c _ typed hs => hs.insert name typed) limit h

theorem typed_after (acts : List Act) : (after acts).store.Typed := by
  suffices ∀ m : Machine, m.store.Typed → (acts.foldl perform m).store.Typed from
    this _ (by rintro name cell ⟨⟩)
  intro m h
  induction acts generalizing m with
  | nil => exact h
  | cons act acts ih => exact ih _ (typed_perform h act)

/-- What becomes of reals that are stored into a `NUMERO` from the machine `m` on: in a call, by
an assignment or a declaration of a program, or in a field of a line that is no integer. -/
structure CutsReals (m : Machine) : Prop where
  define (name : String) (x : Float) :
    Cuts name x m (.overflow .conversion) (Exec.define name .numero (.tipik x) m)
  assign (name : String) (x : Float) (h : m.store.typeOf? name = some .numero) :
    Cuts name x m (.overflow .conversion) (Exec.assign name (.tipik x) m)
  assignment (note : Note) (name : String) (e : Expr) (x : Float) (k : Machine)
    (value : e.eval m = .ok (.tipik x) k) (h : k.store.typeOf? name = some .numero) :
    Cuts name x k (.overflow .conversion) ((Expr.assign note name e).eval m)
  declaration (name : String) (e : Expr) (x : Float) (k : Machine)
    (value : e.eval m = .ok (.tipik x) k) :
    Cuts name x k (.overflow .conversion) (Stmt.runBindings .numero [(name, some e)] m)
  field (position : Position) (name : String) (text : List Char) (x : Float)
    (h : m.store.typeOf? name = some .numero)
    (real : (Decimal.readInt? text).bind Numero.ofInt? = none)
    (number : Decimal.readReal? text = some x) :
    Cuts name x m (.invalidInput position name .numero (String.ofList text))
      (Exec.storeFields position [name] [text] m)

theorem cutsReals (m : Machine) : m.CutsReals where
  define name x := cuts_define name x m
  assign name x h := cuts_assign h x
  assignment note name e x k value h := by
    rw [Expr.eval, bind_of_ok value]
    exact cuts_assign h x
  declaration name e x k value := by
    rw [Stmt.runBindings, bind_of_ok value]
    exact (cuts_define name x k).bind_pure ()
  field position name text x h real number := cuts_storeFields h real number position

/-- Variables keep their types whatever is done to them. After any history of calls and of runs,
of trees well typed or not, that succeed or fail, every cell holds a value of its type. Storing
changes neither the names nor their types and yields what is found from then on; a call that
fails changes nothing; and a real goes into a `NUMERO` without its fraction or not at all. The
last three hold on every machine, so also in the middle of a run. -/
theorem storing_typed :
    (∀ acts name cell, (after acts).store.find? name = some cell → cell.value.ty = cell.ty) ∧
    (∀ (m n : Machine) (name : String) (value stored : Value),
      Exec.assign name value m = .ok stored n →
        (∀ other, n.store.typeOf? other = m.store.typeOf? other) ∧
        n.store.get name = .ok stored) ∧
    (∀ (m n : Machine) (name : String) (ty : Ty) (value : Value) (stop : Stop),
      (Exec.define name ty value m = .error stop n → n = m) ∧
      (Exec.assign name value m = .error stop n → n = m)) ∧
    ∀ m : Machine, m.CutsReals := by
  refine ⟨typed_after, ?_, ?_, cutsReals⟩
  · intro m n name value stored
    exact kept_of_assign
  · intro m n name ty value stop
    exact ⟨unchanged_of_define, unchanged_of_assign⟩

/-- An expression that has stored into `n` fails further out, and what it stored is still there.
Then `-3.9` is stored as `-3`, while a letter and `10^20` change nothing. -/
theorem storing_typed_nested :
    let note : Note := ⟨.numero, ⟨1, 1⟩⟩
    let inner := Expr.assign note "n" (.literal note (.numero .one))
    let outer := Expr.assign note "n"
      (.binary note (.arith .add) inner (.literal note (.letra 'a')))
    let m := after [.define "n" .numero (.numero .zero), .run (.ofList []) 0 [.expr outer]]
    m.store.find? "n" = some ⟨.numero, .numero .one⟩ ∧
    (∃ cell, m.store.find? "n" = some cell ∧ cell.value.ty = cell.ty) ∧
    (∃ n stored k, Exec.assign "n" (.tipik (Float.ofBits 0xc00f333333333333)) m = .ok stored k ∧
      k.store.get "n" = .ok (.numero n) ∧ n.val = -3) ∧
    (∃ k, Exec.assign "n" (.letra 'a') m = .error (.fault (.unstorable "n" .numero .letra)) k ∧
      k = m) ∧
    Exec.assign "n" (.tipik (Float.ofBits 0x4415af1d78b58c40)) m =
      .error (.fault (.overflow .conversion)) m := by
  intro note inner outer m
  obtain ⟨typed, _, unchanged, cuts⟩ := storing_typed
  have held : m.store.find? "n" = some ⟨.numero, .numero .one⟩ := by decide
  have integer : m.store.typeOf? "n" = some .numero := by rw [Store.typeOf?, held]; rfl
  refine ⟨held, ⟨_, held, typed _ "n" _ held⟩, ?_, ?_, ?_⟩
  · have value : Numero.ofReal? (Float.ofBits 0xc00f333333333333) =
        some ⟨-3, by decide, by decide⟩ := by decide
    rcases (cuts m).assign "n" _ integer with ⟨n, stored, k, cut, _, ok, found⟩ | ⟨none, _⟩
    · cases value.symm.trans cut
      exact ⟨_, stored, k, ok, found, rfl⟩
    · cases value.symm.trans none
  · have refused : Exec.assign "n" (.letra 'a') m =
        .error (.fault (.unstorable "n" .numero .letra)) m := by
      rw [assign_eq, bind_of_ok (cell_of_find? held)]
      rfl
    exact ⟨m, refused, (unchanged m m "n" .numero (.letra 'a') _).2 refused⟩
  · have value : Numero.ofReal? (Float.ofBits 0x4415af1d78b58c40) = none := by decide
    rcases (cuts m).assign "n" _ integer with ⟨n, stored, k, cut, _⟩ | ⟨_, failed⟩
    · cases value.symm.trans cut
    · exact failed

end Machine

end Sulti
