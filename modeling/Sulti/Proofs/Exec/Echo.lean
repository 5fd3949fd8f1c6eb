import Sulti.Proofs.Alike
import Sulti.Proofs.Exec.Soundness

/-!
Runs that only differ in what was printed before, in the places of the program
and in a higher limit. None of these decides what a run does as long as it
succeeds: it prints the same and leaves the same cells and lines.
-/

namespace Sulti

/-- The machine, had this been printed before. -/
def Machine.behind (m : Machine) (printed : String) : Machine :=
  { m with output := printed ++ m.output }

theorem Machine.behind_empty (m : Machine) : m.behind "" = m := by simp [Machine.behind]

theorem Machine.behind_output (m : Machine) :
    Machine.behind { m with output := "" } m.output = m := by simp [Machine.behind]

namespace Exec

variable {α β : Type} {printed : String}

/-- Wherever `p` succeeds, `q` does behind other output, with the same result. -/
def Echoes (printed : String) (p q : Exec α) : Prop :=
  ∀ m a n, p m = .ok a n → q (m.behind printed) = .ok a (n.behind printed)

theorem Echoes.bind {p q : Exec α} {f g : α → Exec β} (h : Echoes printed p q)
    (hfg : ∀ a, Echoes printed (f a) (g a)) : Echoes printed (p >>= f) (q >>= g) := by
  intro m b n hb
  obtain ⟨a, k, ha, hf⟩ := bind_eq_ok hb
  rw [bind_of_ok (h m a k ha)]
  exact hfg a k b n hf

theorem echoes_pure (a : α) : Echoes printed (pure a) (pure a) := by
  intro m b n h
  cases h
  rfl

theorem echoes_throw (s : Stop) (q : Exec α) : Echoes printed (throw s) q := nofun

theorem echoes_ofExcept {r r' : Except Fault α} (h : ∀ a, r = .ok a → r' = .ok a) :
    Echoes printed (ofExcept r) (ofExcept r') := by
  cases r with
  | ok a =>
      rw [h a rfl]
      exact echoes_pure a
  | error f => exact echoes_throw _ _

/-- An action that looks at the machine, but not at its output. -/
theorem echoes_get_bind {f g : Machine → Exec α}
    (h : ∀ m, Echoes printed (f m) (g (m.behind printed))) :
    Echoes printed (get >>= f) (get >>= g) := fun m => h m m

theorem echoes_set {m : Machine} :
    Echoes printed (set m : Exec Unit) (set (m.behind printed)) := by
  intro _ _ _ h
  cases h
  rfl

theorem echoes_define (name : String) (ty : Ty) (value : Value) :
    Echoes printed (define name ty value) (define name ty value) :=
  echoes_get_bind fun _ => (echoes_ofExcept fun _ => id).bind fun _ => echoes_set

theorem echoes_assign (name : String) (value : Value) :
    Echoes printed (assign name value) (assign name value) :=
  echoes_get_bind fun _ => (echoes_ofExcept fun _ => id).bind fun _ =>
    echoes_set.bind fun _ => echoes_pure _

theorem echoes_readLine : Echoes printed readLine readLine := by
  refine echoes_get_bind fun m => ?_
  rw [show (m.behind printed).lines = m.lines from rfl]
  generalize m.lines.next = result
  obtain ⟨found, lines⟩ := result
  refine (echoes_set (m := { m with lines })).bind fun _ => ?_
  cases found with
  | ok line => exact echoes_pure line
  | error reason => exact echoes_throw _ _

/-- A higher limit makes no difference to a loop that ends. -/
theorem echoes_repeatWhile {test test' : Exec Bool} {pass pass' : Exec Unit} {limit limit' : Nat}
    (ht : Echoes printed test test') (hp : Echoes printed pass pass') (hl : limit ≤ limit') :
    Echoes printed (repeatWhile test pass limit) (repeatWhile test' pass' limit') := by
  induction limit generalizing limit' with
  | zero => exact echoes_throw _ _
  | succ limit ih =>
      obtain ⟨limit', rfl⟩ : ∃ k, limit' = k + 1 := ⟨limit' - 1, by omega⟩
      refine ht.bind fun holds => ?_
      cases holds with
      | true => exact hp.bind fun _ => ih (by omega)
      | false => exact echoes_pure ()

theorem convert_of_ok {position : Position} {name : String} {ty : Ty} {field : List Char}
    {v : Value} (position' : Position) (h : Input.convert position name ty field = .ok v) :
    Input.convert position' name ty field = .ok v := by
  cases ty with
  | text => cases h
  | empty => cases h
  | _ =>
      simp only [Input.convert] at h ⊢
      split at h
      · exact h
      · cases h

theorem echoes_storeFields (position position' : Position) (targets : List String)
    (fields : List (List Char)) :
    Echoes printed (storeFields position targets fields)
      (storeFields position' targets fields) := by
  induction targets generalizing fields with
  | nil => exact echoes_pure ()
  | cons name targets ih =>
      cases fields with
      | nil => exact echoes_pure ()
      | cons field fields =>
          refine echoes_get_bind fun m => ?_
          rw [show (m.behind printed).store = m.store from rfl]
          cases m.store.typeOf? name with
          | none => exact echoes_throw _ _
          | some ty =>
              refine (echoes_ofExcept fun _ => convert_of_ok position').bind fun value => ?_
              exact (echoes_assign name value).bind fun _ => ih fields

theorem echoes_read (position position' : Position) (targets : List String) :
    Echoes printed (Exec.read position targets) (Exec.read position' targets) := by
  refine echoes_readLine.bind fun line => ?_
  dsimp only
  split
  · exact echoes_throw _ _
  · exact echoes_storeFields position position' targets _

end Exec

open Exec

section

variable {printed : String} {place : Position → Position → Prop}

theorem Expr.Related.echoes_eval {e e' : Expr} (h : e.Related place e') :
    Echoes printed e.eval e'.eval := by
  induction h with
  | assign _ _ value => exact value.bind fun v => echoes_assign _ v
  | binary _ _ _ left right =>
      exact left.bind fun l => right.bind fun r => echoes_ofExcept fun _ => id
  | not _ _ operand => exact operand.bind fun v => echoes_ofExcept fun _ => id
  | var _ => exact echoes_get_bind fun m => echoes_ofExcept fun _ => id
  | literal _ => exact echoes_pure _
  | blank _ => exact echoes_pure _

theorem Expr.Related.echoes_test {e e' : Expr} (h : e.Related place e') :
    Echoes printed e.test e'.test :=
  h.echoes_eval.bind fun _ => echoes_ofExcept fun _ => id

theorem echoes_show (value : Value) :
    Echoes printed (modify fun m => { m with output := m.output ++ value.render } : Exec Unit)
      (modify fun m => { m with output := m.output ++ value.render }) := by
  intro m _ n h
  cases h
  have joined : printed ++ m.output ++ value.render = printed ++ (m.output ++ value.render) :=
    String.append_assoc ..
  change EStateM.Result.ok ()
    (⟨m.store, m.lines, printed ++ m.output ++ value.render⟩ : Machine) = _
  rw [joined]
  rfl

/-- What a phrase does, an alike one does behind other output. Of alternatives, the
same one is chosen. -/
def Phrase.EchoedBy (printed : String) (limit limit' : Nat) : Phrase → Phrase → Prop
  | .arms others, .arms others' =>
      Echoes printed (Stmt.runFirst limit others) (Stmt.runFirst limit' others')
  | p, q => Echoes printed (p.run limit) (q.run limit')

theorem Phrase.Related.echoedBy {p q : Phrase} (h : p.Related place q) {limit limit' : Nat}
    (hl : limit ≤ limit') : p.EchoedBy printed limit limit' q := by
  induction h with
  | bindingsNil => exact echoes_pure ()
  | bindingsPlain _ others =>
      exact (echoes_pure _).bind fun value => (echoes_define _ _ value).bind fun _ => others
  | bindingsStart hs _ others =>
      exact hs.echoes_eval.bind fun value => (echoes_define _ _ value).bind fun _ => others
  | itemsNil => exact echoes_pure ()
  | itemsCons hi _ others =>
      exact hi.echoes_eval.bind fun value => (echoes_show value).bind fun _ => others
  | declare _ bindings => exact bindings
  | read _ => exact echoes_read _ _ _
  | print _ items => exact items
  | branch ht _ _ _ body others last =>
      refine ht.echoes_test.bind fun holds => ?_
      cases holds with
      | true => exact body
      | false =>
          refine Echoes.bind others fun found => ?_
          cases found with
          | true => exact echoes_pure ()
          | false => exact last
  | loop hs ht hu _ body =>
      refine hs.echoes_eval.bind fun _ => echoes_repeatWhile ht.echoes_test ?_ hl
      exact Echoes.bind body fun _ => hu.echoes_eval.bind fun _ => echoes_pure ()
  | block _ body => exact body
  | expr h => exact h.echoes_eval.bind fun _ => echoes_pure ()
  | stmtsNil => exact echoes_pure ()
  | stmtsCons _ _ head others => exact Echoes.bind head fun _ => others
  | armsNil => exact echoes_pure false
  | armsCons ht _ _ body others =>
      refine ht.echoes_test.bind fun holds => ?_
      cases holds with
      | true => exact Echoes.bind body fun _ => echoes_pure true
      | false => exact others
  | otherwiseNone => exact echoes_pure ()
  | otherwiseSome _ body => exact body

end

theorem Stmt.runAll_append (limit : Nat) (first second : List Stmt) :
    Stmt.runAll limit (first ++ second) =
      (do
        Stmt.runAll limit first
        Stmt.runAll limit second) := by
  induction first with
  | nil => simp [Stmt.runAll]
  | cons s rest ih => simp [Stmt.runAll, ih]

/-- A run from empty output, and another one from empty output where it ended: one run
of programs that are alike prints both outputs and ends where the second did. -/
theorem Phrase.Alike.runAll_both {first second first' second' : List Stmt}
    {limit limit₁ limit₂ : Nat} {m n k : Machine}
    (alike₁ : Phrase.Alike (.stmts first) (.stmts first'))
    (alike₂ : Phrase.Alike (.stmts second) (.stmts second')) (h₁ : limit₁ ≤ limit)
    (h₂ : limit₂ ≤ limit)
    (ran₁ : Stmt.runAll limit₁ first { m with output := "" } = .ok () n)
    (ran₂ : Stmt.runAll limit₂ second { n with output := "" } = .ok () k) :
    Stmt.runAll limit (first' ++ second') { m with output := "" } = .ok () (k.behind n.output) := by
  have echo₁ : Echoes "" (Stmt.runAll limit₁ first) (Stmt.runAll limit first') :=
    alike₁.echoedBy h₁
  have echo₂ : Echoes n.output (Stmt.runAll limit₂ second) (Stmt.runAll limit second') :=
    alike₂.echoedBy h₂
  have again₁ := echo₁ _ _ _ ran₁
  have again₂ := echo₂ _ _ _ ran₂
  rw [Machine.behind_empty, Machine.behind_empty] at again₁
  rw [Machine.behind_output] at again₂
  rw [Stmt.runAll_append, bind_of_ok again₁, again₂]

end Sulti
