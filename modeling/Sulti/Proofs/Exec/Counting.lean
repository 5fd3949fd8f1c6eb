import Mathlib.Data.List.Basic
import Sulti.Proofs.Exec.Locality

/-!
Loops that count. A loop that starts a `NUMERO` variable at `a`, goes on while
it is at most `b` and adds one to it after each pass runs its body once for
each integer from `a` to `b`, provided that the body does not store into the
variable. What such a loop does is what setting the variable to these integers
in turn does, up to the fault of a pass that fails.

The variable ends up one above `b`. For the greatest integer there is no such
value, and the loop fails in its last step, when all passes are done.
-/

namespace Sulti

namespace Numero

/-- The integers from `a` to `b`, in order. -/
def upTo (a b : Numero) : List Numero :=
  (List.range (b.val + 1 - a.val).toNat).filterMap fun k : Nat => ofInt? (a.val + k)

theorem val_upTo (a b : Numero) :
    (upTo a b).map val = (List.range (b.val + 1 - a.val).toNat).map fun k : Nat => a.val + k := by
  have fits : ∀ k ∈ List.range (b.val + 1 - a.val).toNat,
      (ofInt? (a.val + (k : Int))).map val = some (a.val + k) := by
    intro k member
    have count := List.mem_range.mp member
    have lower := a.lower
    have upper := b.upper
    rw [ofInt?, dif_pos ⟨by omega, by omega⟩]
    rfl
  rw [upTo, List.map_filterMap, List.filterMap_congr fits]
  simp

theorem upTo_of_lt {a b : Numero} (h : b.val < a.val) : upTo a b = [] := by
  have none : (b.val + 1 - a.val).toNat = 0 := by omega
  simp [upTo, none]

theorem upTo_of_le {a b next : Numero} (h : a.val ≤ b.val) (hn : next.val = a.val + 1) :
    upTo a b = a :: upTo next b := by
  have count : (b.val + 1 - a.val).toNat = (b.val + 1 - next.val).toNat + 1 := by omega
  have shift : ∀ k : Nat, ofInt? (a.val + (k + 1 : Nat)) = ofInt? (next.val + k) := by
    intro k
    rw [hn]
    congr 1
    omega
  rw [upTo, count, List.range_succ_eq_map, List.filterMap_cons, List.filterMap_map]
  simp only [Int.ofNat_zero, Int.add_zero, ofInt?_val, Function.comp_def, Nat.succ_eq_add_one,
    shift]
  rfl

theorem upTo_of_eq {a b : Numero} (h : a.val = b.val) : upTo a b = [a] := by
  have one : (b.val + 1 - a.val).toNat = 1 := by omega
  simp [upTo, one, ofInt?_val]

end Numero

open Exec

/-- An operation on operands that leave the machine as it is. -/
theorem Expr.eval_binary {left right : Expr} {l r : Value} {m : Machine}
    (hl : left.eval m = .ok l m) (hr : right.eval m = .ok r m) (note : Note) (op : Op) :
    (Expr.binary note op left right).eval m = ofExcept (l.apply op r) m := by
  rw [Expr.eval, bind_of_ok hl, bind_of_ok hr]

/-- An expression that has the same integer as its value on every machine and leaves the
machine as it is: a literal, or a sign in front of one. -/
def Expr.Yields (e : Expr) (n : Numero) : Prop := ∀ m, e.eval m = .ok (.numero n) m

theorem Expr.yields_literal (note : Note) (n : Numero) :
    (Expr.literal note (.numero n)).Yields n := fun _ => rfl

theorem Expr.yields_negative {zero e : Expr} {n k : Numero} (hz : zero.Yields .zero)
    (he : e.Yields n) (hk : k.val = -n.val) (note : Note) :
    (Expr.binary note (.arith .sub) zero e).Yields k := by
  intro m
  have difference : Numero.zero.sub? n = some k := by
    simp [Numero.sub?, Numero.zero, ← hk, Numero.ofInt?_val]
  rw [Expr.eval_binary (hz m) (he m)]
  simp [Value.apply, Value.calculate, Arith.onIntegers, Arith.divides, difference]
  rfl

/-- Sets a `NUMERO` variable to each of the integers in turn and runs the body after
each setting. -/
def Exec.forEach (name : String) (body : Exec Unit) : List Numero → Exec Unit
  | [] => return ()
  | n :: rest => do
      write name ⟨.numero, .numero n⟩
      body
      forEach name body rest

/-- Sets a `NUMERO` variable to an integer that an addition has led to, if it fits. -/
def Exec.leave (name : String) (n : Int) : Exec Unit :=
  match Numero.ofInt? n with
  | some next => write name ⟨.numero, .numero next⟩
  | none => throw (.fault (.overflow (.arith .add)))

namespace Stmt

/-- The condition `name <= bound`. -/
def counterTest (note : Nat → Note) (name : String) (bound : Expr) : Expr :=
  .binary (note 1) (.order .le) (.var (note 2) name) bound

/-- The step `name = name + 1`, which is also what `name++` stands for. -/
def counterStep (note : Nat → Note) (name : String) : Expr :=
  .assign (note 3) name
    (.binary (note 4) (.arith .add) (.var (note 5) name) (.literal (note 6) (.numero .one)))

/-- The loop `ALANG SA (name = start, name <= bound, name = name + 1)`. Its nodes may
have any notes. -/
def counting (note : Nat → Note) (name : String) (start bound : Expr) (body : List Stmt) : Stmt :=
  .loop (.assign (note 0) name start) (counterTest note name bound) (counterStep note name) body

end Stmt

/-- The machine with a `NUMERO` variable set to an integer. -/
def Machine.set (m : Machine) (name : String) (n : Numero) : Machine :=
  { m with store := m.store.insert name ⟨.numero, .numero n⟩ }

theorem Machine.find?_set (m : Machine) (name : String) (n : Numero) :
    (m.set name n).store.find? name = some ⟨.numero, .numero n⟩ := by
  simp [Machine.set, Table.find?_insert]

section

variable {name : String} {m : Machine} {k : Numero}

theorem assign_numero {c : Cell} (found : m.store.find? name = some c) (numero : c.ty = .numero)
    (n : Numero) : Exec.assign name (.numero n) m = .ok (.numero n) (m.set name n) := by
  rw [assign_eq, bind_of_ok (cell_of_find? found), numero]
  rfl

theorem eval_counter (found : m.store.find? name = some ⟨.numero, .numero k⟩) (note : Note) :
    (Expr.var note name).eval m = .ok (.numero k) m := by
  rw [eval_var, bind_of_ok (cell_of_find? found)]
  rfl

theorem eval_counterTest {bound : Expr} {b : Numero} (hb : bound.Yields b)
    (found : m.store.find? name = some ⟨.numero, .numero k⟩) (note : Nat → Note) :
    (Stmt.counterTest note name bound).test m = .ok (decide (k.val ≤ b.val)) m := by
  have holds : (compare k.val b.val).isLE = decide (k.val ≤ b.val) := by
    rw [Bool.eq_iff_iff, decide_eq_true_iff, Int.isLE_compare]
  have value : (Stmt.counterTest note name bound).eval m =
      .ok (.tinuod (decide (k.val ≤ b.val))) m := by
    rw [Stmt.counterTest, Expr.eval_binary (eval_counter found _) (hb m)]
    simp only [Value.apply, Value.compare?, Order.holds, holds]
    rfl
  rw [Expr.test, bind_of_ok value]
  rfl

/-- The step adds one, as long as the next integer fits. -/
theorem eval_counterStep {next : Numero} (found : m.store.find? name = some ⟨.numero, .numero k⟩)
    (hn : next.val = k.val + 1) (note : Nat → Note) :
    (Stmt.counterStep note name).eval m = .ok (.numero next) (m.set name next) := by
  have sum : k.add? .one = some next := by
    simp [Numero.add?, Numero.one, ← hn, Numero.ofInt?_val]
  have value := Expr.eval_binary (eval_counter found (note 5))
    (Expr.yields_literal (note 6) .one m) (note 4) (.arith .add)
  simp only [Value.apply, Value.calculate, Arith.onIntegers, sum] at value
  rw [Stmt.counterStep, Expr.eval, bind_of_ok value]
  exact assign_numero found rfl next

/-- Behind the greatest integer there is no next one. -/
theorem eval_counterStep_overflow (found : m.store.find? name = some ⟨.numero, .numero k⟩)
    (greatest : k.val = 9223372036854775807) (note : Nat → Note) :
    (Stmt.counterStep note name).eval m = .error (.fault (.overflow (.arith .add))) m := by
  have sum : k.add? .one = none := by
    rw [Numero.add?, Numero.ofInt?_eq_none_iff, greatest]
    exact Or.inr (by decide)
  have value := Expr.eval_binary (eval_counter found (note 5))
    (Expr.yields_literal (note 6) .one m) (note 4) (.arith .add)
  simp only [Value.apply, Value.calculate, Arith.onIntegers, sum] at value
  rw [Stmt.counterStep, Expr.eval, bind_of_error value]

end

/-- A body that does not store into a variable leaves its cell as it is. -/
theorem Stmt.find?_of_runAll {name : String} {body : List Stmt}
    (other : name ∉ Program.targets body) {limit : Nat} {m n : Machine}
    (run : Stmt.runAll limit body m = .ok () n) : n.store.find? name = m.store.find? name := by
  have keeps : ∀ (s : Store) (target : String) (c : Cell), target ∈ Program.targets body →
      c.value.ty = c.ty → s.find? name = m.store.find? name →
      (s.insert target c).find? name = m.store.find? name := by
    intro s target c member _ same
    have apart : name ≠ target := by
      rintro rfl
      exact other member
    rw [Table.find?_insert, if_neg apart, same]
  have kept : Ensures (fun m' => m'.store.find? name = m.store.find? name) (fun _ => True)
      (Stmt.runAll limit body) :=
    (lifts_store keeps).runAll limit body (fun _ _ => trivial) fun _ member => member
  exact (kept.ok rfl run).1

theorem Exec.leave_of_fits {name : String} {n : Int} {next : Numero} (h : next.val = n)
    (m : Machine) : leave name n m = .ok () (m.set name next) := by
  rw [leave, ← h, Numero.ofInt?_val]
  rfl

theorem Exec.leave_of_overflow {name : String} {n : Int} (h : 9223372036854775807 < n)
    (m : Machine) : leave name n m = .error (.fault (.overflow (.arith .add))) m := by
  rw [leave, Numero.ofInt?_eq_none_iff.mpr (Or.inr h)]
  rfl

/-- What follows an action only matters where the action leads to. -/
theorem Exec.bind_congr_of_ok {α β : Type} {p : Exec α} {f g : α → Exec β} {m : Machine}
    (h : ∀ a n, p m = .ok a n → f a n = g a n) : (p >>= f) m = (p >>= g) m := by
  cases hp : p m with
  | ok a n => rw [bind_of_ok hp, bind_of_ok hp, h a n hp]
  | error s n => rw [bind_of_error hp, bind_of_error hp]

theorem Exec.forEach_cons_bind (name : String) (body : Exec Unit) (n : Numero)
    (rest : List Numero) (f : Unit → Exec Unit) (m : Machine) :
    (forEach name body (n :: rest) >>= f) m =
      (body >>= fun _ => forEach name body rest >>= f) (m.set name n) := by
  have set : write name ⟨.numero, .numero n⟩ m = .ok () (m.set name n) := rfl
  rw [forEach, bind_assoc, bind_of_ok set, bind_assoc]

/-- What is left of a loop that counts, from a pass on that starts at `k`: the passes for
`k` and the integers behind it, and then one more step, which may not fit. -/
theorem repeatWhile_counts {note : Nat → Note} {name : String} {bound : Expr} {b : Numero}
    {body : List Stmt} {limit : Nat} (hb : bound.Yields b)
    (other : name ∉ Program.targets body) (passes : Nat) (k : Numero) (m : Machine)
    (ample : (b.val + 1 - k.val).toNat < passes) :
    repeatWhile (Stmt.counterTest note name bound).test
        (do
          Stmt.runAll limit body
          let _ ← (Stmt.counterStep note name).eval)
        passes (m.set name k) =
      (do
        forEach name (Stmt.runAll limit body) (k.upTo b)
        leave name (max k.val (b.val + 1))) m := by
  -- On the passes that are allowed. The body keeps the counter, so that each pass starts
  -- from a machine on which the counter was just set.
  induction passes generalizing k m with
  | zero => omega
  | succ passes ih =>
      have test := eval_counterTest hb (m.find?_set name k) note
      rw [repeatWhile, bind_of_ok test]
      have upper := b.upper
      by_cases more : k.val ≤ b.val
      · have counter {n : Machine} (run : Stmt.runAll limit body (m.set name k) = .ok () n) :
            n.store.find? name = some ⟨.numero, .numero k⟩ := by
          rw [Stmt.find?_of_runAll other run, m.find?_set]
        rw [if_pos (decide_eq_true more), bind_assoc]
        by_cases greatest : k.val = 9223372036854775807
        · have last : k.val = b.val := by omega
          rw [Numero.upTo_of_eq last, forEach_cons_bind]
          apply bind_congr_of_ok
          intro _ n run
          have step := eval_counterStep_overflow (counter run) greatest note
          rw [bind_assoc, bind_of_error step, forEach, pure_bind, leave_of_overflow]
          omega
        · obtain ⟨next, hn⟩ : ∃ next : Numero, next.val = k.val + 1 :=
            ⟨⟨k.val + 1, by have := k.lower; omega, by omega⟩, rfl⟩
          rw [Numero.upTo_of_le more hn, forEach_cons_bind]
          apply bind_congr_of_ok
          intro _ n run
          have step := eval_counterStep (counter run) hn note
          have stop : max k.val (b.val + 1) = max next.val (b.val + 1) := by omega
          rw [bind_assoc, bind_of_ok step, pure_bind, ih next n (by omega), stop]
      · have stop : max k.val (b.val + 1) = k.val := by omega
        rw [if_neg (by simpa using more), Numero.upTo_of_lt (by omega), stop, forEach, pure_bind,
          leave_of_fits rfl]
        rfl

namespace Stmt

/-- A loop that counts is its passes, and then the step that leads behind the last integer
or does not fit. -/
theorem run_counting {note : Nat → Note} {name : String} {start bound : Expr} {a b : Numero}
    {body : List Stmt} {limit : Nat} {m : Machine} (ha : start.Yields a) (hb : bound.Yields b)
    (other : name ∉ Program.targets body) (numero : m.store.typeOf? name = some .numero)
    (ample : (b.val + 1 - a.val).toNat < limit) :
    (counting note name start bound body).run limit m =
      (do
        forEach name (runAll limit body) (a.upTo b)
        leave name (max a.val (b.val + 1))) m := by
  obtain ⟨c, found, ty⟩ := Option.map_eq_some_iff.mp numero
  have set : (Expr.assign (note 0) name start).eval m = .ok (.numero a) (m.set name a) := by
    rw [Expr.eval, bind_of_ok (ha m)]
    exact assign_numero found ty a
  rw [counting, Stmt.run, bind_of_ok set]
  exact repeatWhile_counts hb other limit a m ample

/-- A loop that counts a `NUMERO` variable from `a` to `b`, with a body that does not store
into it, does what setting the variable to `a`, `a + 1` and so on up to `b` and running the
body after each setting does. If a pass stops, the loop stops like it. If none does, the loop
ends with the variable at `b + 1`, or at `a` if that is above, except for the greatest `b`:
then the step after the last pass overflows. The limit only has to allow the passes, and is
the same for the loops inside the body on both sides. -/
theorem counting_passes (note : Nat → Note) {name : String} {start bound : Expr} {a b : Numero}
    {body : List Stmt} {limit : Nat} {m : Machine} (ha : start.Yields a) (hb : bound.Yields b)
    (other : name ∉ Program.targets body) (numero : m.store.typeOf? name = some .numero)
    (ample : (b.val + 1 - a.val).toNat < limit) :
    let values := a.upTo b
    let passes := forEach name (runAll limit body) values m
    let loop := (counting note name start bound body).run limit m
    values.map Numero.val = (List.range (b.val + 1 - a.val).toNat).map (fun k : Nat => a.val + k) ∧
    (∀ s n, passes = .error s n → loop = .error s n) ∧
    ∀ n, passes = .ok () n →
      (b.val < 9223372036854775807 → ∃ last : Numero, last.val = max a.val (b.val + 1) ∧
        loop = .ok () { n with store := n.store.insert name ⟨.numero, .numero last⟩ }) ∧
      (b.val = 9223372036854775807 → loop = .error (.fault (.overflow (.arith .add))) n) := by
  intro values passes loop
  have whole : loop = (forEach name (runAll limit body) values >>= fun _ =>
      leave name (max a.val (b.val + 1))) m := run_counting ha hb other numero ample
  have lower := a.lower
  have upper := a.upper
  refine ⟨Numero.val_upTo a b, ?_, ?_⟩
  · intro s n stopped
    rw [whole, bind_of_error stopped]
  · intro n ended
    rw [whole, bind_of_ok ended]
    constructor
    · intro below
      obtain ⟨last, hlast⟩ : ∃ last : Numero, last.val = max a.val (b.val + 1) :=
        ⟨⟨max a.val (b.val + 1), by omega, by omega⟩, rfl⟩
      exact ⟨last, hlast, leave_of_fits hlast n⟩
    · intro greatest
      exact leave_of_overflow (by omega) n

/-- Counting from minus one to zero with a body that prints the counter, and counting up to
the greatest integer, which ends in the overflow. -/
theorem counting_passes_negative :
    let note : Nat → Note := fun _ => ⟨.numero, .start⟩
    let greatest : Numero := ⟨9223372036854775807, by decide, by decide⟩
    let literal (n : Numero) : Expr := .literal (note 0) (.numero n)
    let minusOne : Expr := .binary (note 0) (.arith .sub) (literal .zero) (literal .one)
    let body : List Stmt := [.print [.var (note 0) "i"]]
    let i (n : Numero) : Store := Table.empty.insert "i" ⟨.numero, .numero n⟩
    let m : Machine := ⟨i .zero, .ofList [], ""⟩
    (counting note "i" minusOne (literal .zero) body).run 3 m =
      .ok () ⟨i .one, .ofList [], "-10"⟩ ∧
    (counting note "i" (literal greatest) (literal greatest) body).run 3 m =
      .error (.fault (.overflow (.arith .add)))
        ⟨i greatest, .ofList [], "9223372036854775807"⟩ := by
  intro note greatest literal minusOne body i m
  have hl (n : Numero) : (literal n).Yields n := Expr.yields_literal _ n
  have other : "i" ∉ Program.targets body := by decide
  have numero : m.store.typeOf? "i" = some .numero := by decide
  constructor
  · have passes : forEach "i" (runAll 3 body) (Numero.upTo ⟨-1, by decide, by decide⟩ .zero) m =
        .ok () ⟨i .zero, .ofList [], "-10"⟩ := rfl
    have hm : minusOne.Yields ⟨-1, by decide, by decide⟩ :=
      Expr.yields_negative (hl .zero) (hl .one) rfl _
    obtain ⟨_, _, ends⟩ := counting_passes note hm (hl .zero) other numero (by decide : 2 < 3)
    obtain ⟨⟨n, _, _⟩, rfl, run⟩ := (ends _ passes).1 (by decide)
    rw [run]
    rfl
  · have digits : "" ++ (Value.numero greatest).render = "9223372036854775807" := by
      decide +kernel
    have passes : forEach "i" (runAll 3 body) (greatest.upTo greatest) m =
        .ok () ⟨i greatest, .ofList [], "9223372036854775807"⟩ := by
      rw [← digits]
      rfl
    obtain ⟨_, _, ends⟩ :=
      counting_passes note (hl greatest) (hl greatest) other numero (by decide : 1 < 3)
    exact (ends _ passes).2 rfl

end Stmt

end Sulti
