import Mathlib.Logic.Relation
import Sulti.Proofs.Exec.Soundness

/-!
A run from the inside. A moment is a part of the program that is about to be
run, with the machine it will be run on. Entering a moment says what is run
first, and what is run next once the parts before it have ended; the moments
reached from the start of a program are all that its run ever comes to.

A fault is raised at one of these moments, by the part itself and not by a
part of it. So what is known of every moment says which faults there can be.
-/

namespace Sulti

open Exec

abbrev Moment := Phrase × Machine

/-- From a part of a program that is about to be run, the run comes to a part of it. -/
inductive Enters : Moment → Moment → Prop where
  | assigned {note : Note} {name : String} {value : Expr} {m : Machine} :
      Enters (.expr (.assign note name value), m) (.expr value, m)
  | left {note : Note} {op : Op} {left right : Expr} {m : Machine} :
      Enters (.expr (.binary note op left right), m) (.expr left, m)
  | right {note : Note} {op : Op} {left right : Expr} {m n : Machine} {v : Value}
      (hl : left.eval m = .ok v n) : Enters (.expr (.binary note op left right), m) (.expr right, n)
  | negated {note : Note} {operand : Expr} {m : Machine} :
      Enters (.expr (.not note operand), m) (.expr operand, m)
  | asked {e : Expr} {m : Machine} : Enters (.condition e, m) (.expr e, m)
  | start {ty : Ty} {name : String} {e : Expr} {rest : List (String × Option Expr)} {m : Machine} :
      Enters (.bindings ty ((name, some e) :: rest), m) (.expr e, m)
  | nextBinding {ty : Ty} {first : String × Option Expr} {rest : List (String × Option Expr)}
      {m n : Machine} (h : Stmt.runBindings ty [first] m = .ok () n) :
      Enters (.bindings ty (first :: rest), m) (.bindings ty rest, n)
  | item {e : Expr} {rest : List Expr} {m : Machine} : Enters (.items (e :: rest), m) (.expr e, m)
  | nextItem {e : Expr} {rest : List Expr} {m n : Machine} (h : Stmt.runItems [e] m = .ok () n) :
      Enters (.items (e :: rest), m) (.items rest, n)
  | declares {ty : Ty} {bindings : List (String × Option Expr)} {m : Machine} :
      Enters (.stmt (.declare ty bindings), m) (.bindings ty bindings, m)
  | prints {items : List Expr} {m : Machine} : Enters (.stmt (.print items), m) (.items items, m)
  | decides {test : Expr} {body : List Stmt} {others : List (Expr × List Stmt)}
      {last : Option (List Stmt)} {m : Machine} :
      Enters (.stmt (.branch test body others last), m) (.condition test, m)
  | chosen {test : Expr} {body : List Stmt} {others : List (Expr × List Stmt)}
      {last : Option (List Stmt)} {m n : Machine} (h : test.test m = .ok true n) :
      Enters (.stmt (.branch test body others last), m) (.stmts body, n)
  | refused {test : Expr} {body : List Stmt} {others : List (Expr × List Stmt)}
      {last : Option (List Stmt)} {m n : Machine} (h : test.test m = .ok false n) :
      Enters (.stmt (.branch test body others last), m) (.arms others, n)
  | exhausted {test : Expr} {body : List Stmt} {others : List (Expr × List Stmt)}
      {last : Option (List Stmt)} {m n k : Machine} {limit : Nat} (h : test.test m = .ok false n)
      (none : Stmt.runFirst limit others n = .ok false k) :
      Enters (.stmt (.branch test body others last), m) (.otherwise last, k)
  | arm {test : Expr} {body : List Stmt} {rest : List (Expr × List Stmt)} {m : Machine} :
      Enters (.arms ((test, body) :: rest), m) (.condition test, m)
  | armChosen {test : Expr} {body : List Stmt} {rest : List (Expr × List Stmt)} {m n : Machine}
      (h : test.test m = .ok true n) : Enters (.arms ((test, body) :: rest), m) (.stmts body, n)
  | nextArm {test : Expr} {body : List Stmt} {rest : List (Expr × List Stmt)} {m n : Machine}
      (h : test.test m = .ok false n) : Enters (.arms ((test, body) :: rest), m) (.arms rest, n)
  | fallback {body : List Stmt} {m : Machine} : Enters (.otherwise (some body), m) (.stmts body, m)
  | starts {start test step : Expr} {body : List Stmt} {m : Machine} :
      Enters (.stmt (.loop start test step body), m) (.expr start, m)
  | repeats {start test step : Expr} {body : List Stmt} {m n : Machine} {v : Value}
      (h : start.eval m = .ok v n) :
      Enters (.stmt (.loop start test step body), m) (.passes test step body, n)
  | retests {test step : Expr} {body : List Stmt} {m : Machine} :
      Enters (.passes test step body, m) (.condition test, m)
  | pass {test step : Expr} {body : List Stmt} {m n : Machine} (h : test.test m = .ok true n) :
      Enters (.passes test step body, m) (.stmts body, n)
  | update {test step : Expr} {body : List Stmt} {m n k : Machine} {limit : Nat}
      (h : test.test m = .ok true n) (hb : Stmt.runAll limit body n = .ok () k) :
      Enters (.passes test step body, m) (.expr step, k)
  | nextPass {test step : Expr} {body : List Stmt} {m n k j : Machine} {limit : Nat} {v : Value}
      (h : test.test m = .ok true n) (hb : Stmt.runAll limit body n = .ok () k)
      (hs : step.eval k = .ok v j) :
      Enters (.passes test step body, m) (.passes test step body, j)
  | inside {body : List Stmt} {m : Machine} : Enters (.stmt (.block body), m) (.stmts body, m)
  | evaluates {e : Expr} {m : Machine} : Enters (.stmt (.expr e), m) (.expr e, m)
  | first {s : Stmt} {rest : List Stmt} {m : Machine} : Enters (.stmts (s :: rest), m) (.stmt s, m)
  | next {s : Stmt} {rest : List Stmt} {m n : Machine} {limit : Nat}
      (h : s.run limit m = .ok () n) : Enters (.stmts (s :: rest), m) (.stmts rest, n)

/-- The moments a run comes to, from one of them on. -/
abbrev Reaches : Moment → Moment → Prop := Relation.ReflTransGen Enters

/-- The fault that a part of a program raises itself, its own parts having ended,
and the machine as it is then. -/
inductive Raises : Moment → Fault → Machine → Prop where
  | assign {note : Note} {name : String} {value : Expr} {m n : Machine} {v : Value} {f : Fault}
      (hv : value.eval m = .ok v n) (h : n.store.assign name v = .error f) :
      Raises (.expr (.assign note name value), m) f n
  | binary {note : Note} {op : Op} {left right : Expr} {m n k : Machine} {v w : Value} {f : Fault}
      (hl : left.eval m = .ok v n) (hr : right.eval n = .ok w k) (h : v.apply op w = .error f) :
      Raises (.expr (.binary note op left right), m) f k
  | not {note : Note} {operand : Expr} {m n : Machine} {v : Value} {f : Fault}
      (hv : operand.eval m = .ok v n) (h : v.negate = .error f) :
      Raises (.expr (.not note operand), m) f n
  | var {note : Note} {name : String} {m : Machine} {f : Fault} (h : m.store.get name = .error f) :
      Raises (.expr (.var note name), m) f m
  | condition {e : Expr} {m n : Machine} {v : Value} {f : Fault} (hv : e.eval m = .ok v n)
      (h : v.truth .condition = .error f) : Raises (.condition e, m) f n
  | plain {ty : Ty} {name : String} {rest : List (String × Option Expr)} {m : Machine} {f : Fault}
      (h : m.store.define name ty (.initial ty) = .error f) :
      Raises (.bindings ty ((name, none) :: rest), m) f m
  | start {ty : Ty} {name : String} {e : Expr} {rest : List (String × Option Expr)}
      {m n : Machine} {v : Value} {f : Fault} (hv : e.eval m = .ok v n)
      (h : n.store.define name ty v = .error f) :
      Raises (.bindings ty ((name, some e) :: rest), m) f n
  | read {position : Position} {targets : List String} {m n : Machine} {f : Fault}
      (h : Exec.read position targets m = .error (.fault f) n) :
      Raises (.stmt (.read position targets), m) f n

/-- A part of a program whose names are all in the table. An expression may also be
a blank. -/
def Phrase.Within (table : Table Ty) : Phrase → Prop
  | .expr e => e.Typed table ∨ ∃ position, e = .blank ⟨.empty, position⟩
  | phrase => ∃ before after, Phrase.Typed before phrase after ∧ after.Extends table

/-- What is known of every moment of a run. -/
structure Moment.Sound (table : Table Ty) (base : Store) (p : Moment) : Prop where
  within : p.1.Within table
  follows : Machine.Follows table base p.2

section

variable {table : Table Ty} {base : Store}

/-- An expression that ends yields a value of the type it carries, blanks included. -/
theorem Moment.Sound.ty_of_eval {e : Expr} {m n : Machine} {v : Value}
    (h : Sound table base (.expr e, m)) (hv : e.eval m = .ok v n) :
    v.ty = e.ty ∧ Machine.Follows table base n := by
  rcases h.within with typed | ⟨position, rfl⟩
  · obtain ⟨follows, same⟩ := typed.ensures_eval.ok h.follows hv
    exact ⟨same, follows⟩
  · cases hv
    exact ⟨rfl, h.follows⟩

theorem Expr.Typed.follows_of_eval {e : Expr} (typed : e.Typed table) {m n : Machine} {v : Value}
    (follows : Machine.Follows table base m) (h : e.eval m = .ok v n) :
    Machine.Follows table base n :=
  (typed.ensures_eval.ok follows h).1

theorem Phrase.Typed.follows_of_run {before after : Table Ty} {phrase : Phrase}
    (typed : Phrase.Typed before phrase after) (known : after.Extends table) (limit : Nat)
    {m n : Machine} (follows : Machine.Follows table base m)
    (h : phrase.run limit m = .ok () n) : Machine.Follows table base n :=
  ((typed.ensures_run known limit).ok follows h).1

theorem Phrase.Typed.follows_of_test {before : Table Ty} {test : Expr}
    (typed : Phrase.Typed before (.condition test) before) (known : before.Extends table)
    {m n : Machine} {b : Bool} (follows : Machine.Follows table base m)
    (h : test.test m = .ok b n) : Machine.Follows table base n :=
  ((typed.ensures_run known 0).of_drop.ok follows h).1

theorem Phrase.Typed.follows_of_arms {before after : Table Ty} {others : List (Expr × List Stmt)}
    (typed : Phrase.Typed before (.arms others) after) (known : after.Extends table) {limit : Nat}
    {m n : Machine} {b : Bool} (follows : Machine.Follows table base m)
    (h : Stmt.runFirst limit others m = .ok b n) : Machine.Follows table base n :=
  ((typed.ensures_run known limit).of_drop.ok follows h).1

namespace Moment.Sound

variable {m : Machine} {q : Moment}

theorem enters_expr {e : Expr} (h : Sound table base (.expr e, m)) (step : Enters (.expr e, m) q) :
    Sound table base q := by
  obtain ⟨within, follows⟩ := h
  rcases within with typed | ⟨_, rfl⟩
  · cases typed with
    | assign _ typed _ =>
        cases step with
        | assigned => exact ⟨.inl typed, follows⟩
    | binary hl hr _ =>
        cases step with
        | left => exact ⟨.inl hl, follows⟩
        | right hv => exact ⟨.inl hr, hl.follows_of_eval follows hv⟩
    | not typed _ _ =>
        cases step with
        | negated => exact ⟨.inl typed, follows⟩
    | var _ => cases step
    | literal => cases step
  · cases step

theorem enters_bindings {ty : Ty} {bindings : List (String × Option Expr)}
    (h : Sound table base (.bindings ty bindings, m)) (step : Enters (.bindings ty bindings, m) q) :
    Sound table base q := by
  obtain ⟨⟨_, _, typed, known⟩, follows⟩ := h
  -- What the first binding does is what a declaration of it alone does.
  cases typed with
  | bindingsNil => cases step
  | bindingsPlain declarable fresh others =>
      have alone := Phrase.Typed.bindingsPlain declarable fresh .bindingsNil
      have larger := others.table_extends.trans known
      cases step with
      | nextBinding ran => exact ⟨⟨_, _, others, known⟩, alone.follows_of_run larger 0 follows ran⟩
  | bindingsStart declarable fresh typed fits others =>
      have alone := Phrase.Typed.bindingsStart declarable fresh typed fits .bindingsNil
      have larger := others.table_extends.trans known
      cases step with
      | start => exact ⟨.inl (typed.mono ((Table.extends_insert fresh _).trans larger)), follows⟩
      | nextBinding ran => exact ⟨⟨_, _, others, known⟩, alone.follows_of_run larger 0 follows ran⟩

theorem enters_items {items : List Expr} (h : Sound table base (.items items, m))
    (step : Enters (.items items, m) q) : Sound table base q := by
  obtain ⟨⟨_, _, typed, known⟩, follows⟩ := h
  cases typed with
  | itemsNil => cases step
  | itemsBlank =>
      cases step with
      | item => exact ⟨.inr ⟨_, rfl⟩, follows⟩
      | nextItem ran =>
          have kept := Phrase.Typed.itemsBlank.follows_of_run known 0 follows ran
          exact ⟨⟨_, _, .itemsNil, known⟩, kept⟩
  | itemsCons typed others =>
      have alone := Phrase.Typed.itemsCons typed .itemsNil
      cases step with
      | item => exact ⟨.inl (typed.mono known), follows⟩
      | nextItem ran => exact ⟨⟨_, _, others, known⟩, alone.follows_of_run known 0 follows ran⟩

theorem enters_branch {test : Expr} {body : List Stmt} {others : List (Expr × List Stmt)}
    {last : Option (List Stmt)} (h : Sound table base (.stmt (.branch test body others last), m))
    (step : Enters (.stmt (.branch test body others last), m) q) : Sound table base q := by
  obtain ⟨⟨_, _, typed, known⟩, follows⟩ := h
  cases typed with
  | branch head chosen others last =>
      have afterOthers := last.table_extends.trans known
      have afterBody := others.table_extends.trans afterOthers
      have afterTest := chosen.table_extends.trans afterBody
      cases step with
      | decides => exact ⟨⟨_, _, head, afterTest⟩, follows⟩
      | chosen ran => exact ⟨⟨_, _, chosen, afterBody⟩, head.follows_of_test afterTest follows ran⟩
      | refused ran =>
          exact ⟨⟨_, _, others, afterOthers⟩, head.follows_of_test afterTest follows ran⟩
      | exhausted ran none =>
          have asked := head.follows_of_test afterTest follows ran
          exact ⟨⟨_, _, last, known⟩, others.follows_of_arms afterOthers asked none⟩

theorem enters_arms {others : List (Expr × List Stmt)} (h : Sound table base (.arms others, m))
    (step : Enters (.arms others, m) q) : Sound table base q := by
  obtain ⟨⟨_, _, typed, known⟩, follows⟩ := h
  cases typed with
  | armsNil => cases step
  | armsCons head chosen others =>
      have afterBody := others.table_extends.trans known
      have afterTest := chosen.table_extends.trans afterBody
      cases step with
      | arm => exact ⟨⟨_, _, head, afterTest⟩, follows⟩
      | armChosen ran =>
          exact ⟨⟨_, _, chosen, afterBody⟩, head.follows_of_test afterTest follows ran⟩
      | nextArm ran => exact ⟨⟨_, _, others, known⟩, head.follows_of_test afterTest follows ran⟩

theorem enters_passes {test step : Expr} {body : List Stmt}
    (h : Sound table base (.passes test step body, m))
    (entry : Enters (.passes test step body, m) q) : Sound table base q := by
  obtain ⟨⟨_, _, typed, known⟩, follows⟩ := h
  have again := typed
  cases typed with
  | passes head update repeated =>
      have afterTest := repeated.table_extends.trans known
      have asked {n : Machine} {b : Bool} (ran : test.test m = .ok b n) :=
        head.follows_of_test afterTest follows ran
      cases entry with
      | retests => exact ⟨⟨_, _, head, afterTest⟩, follows⟩
      | pass ran => exact ⟨⟨_, _, repeated, known⟩, asked ran⟩
      | update ran hb =>
          exact ⟨.inl (update.mono afterTest), repeated.follows_of_run known _ (asked ran) hb⟩
      | nextPass ran hb hs =>
          have passed := repeated.follows_of_run known _ (asked ran) hb
          exact ⟨⟨_, _, again, known⟩, (update.mono afterTest).follows_of_eval passed hs⟩

theorem enters_stmt {s : Stmt} (h : Sound table base (.stmt s, m))
    (step : Enters (.stmt s, m) q) : Sound table base q := by
  have whole := h
  obtain ⟨⟨_, _, typed, known⟩, follows⟩ := h
  cases typed with
  | declare _ typed =>
      cases step with
      | declares => exact ⟨⟨_, _, typed, known⟩, follows⟩
  | read _ => cases step
  | print _ typed =>
      cases step with
      | prints => exact ⟨⟨_, _, typed, known⟩, follows⟩
  | branch _ _ _ _ => exact whole.enters_branch step
  | loop typed repeated =>
      have larger := typed.mono (repeated.table_extends.trans known)
      cases step with
      | starts => exact ⟨.inl larger, follows⟩
      | repeats ran => exact ⟨⟨_, _, repeated, known⟩, larger.follows_of_eval follows ran⟩
  | block typed =>
      cases step with
      | inside => exact ⟨⟨_, _, typed, known⟩, follows⟩
  | expr typed =>
      cases step with
      | evaluates => exact ⟨.inl (typed.mono known), follows⟩

/-- What is known of a moment is known of those that are entered from it. -/
theorem enters {p : Moment} (h : Sound table base p) (step : Enters p q) :
    Sound table base q := by
  obtain ⟨phrase, m⟩ := p
  cases phrase with
  | expr e => exact h.enters_expr step
  | condition e =>
      obtain ⟨⟨_, _, typed, known⟩, follows⟩ := h
      cases typed with
      | condition typed _ =>
          cases step with
          | asked => exact ⟨.inl (typed.mono known), follows⟩
  | bindings ty bindings => exact h.enters_bindings step
  | items items => exact h.enters_items step
  | stmt s => exact h.enters_stmt step
  | stmts body =>
      obtain ⟨⟨_, _, typed, known⟩, follows⟩ := h
      cases typed with
      | stmtsNil => cases step
      | stmtsCons head others =>
          have larger := others.table_extends.trans known
          cases step with
          | first => exact ⟨⟨_, _, head, larger⟩, follows⟩
          | next ran => exact ⟨⟨_, _, others, known⟩, head.follows_of_run larger _ follows ran⟩
  | arms others => exact h.enters_arms step
  | otherwise body =>
      obtain ⟨⟨_, _, typed, known⟩, follows⟩ := h
      cases typed with
      | otherwiseNone => cases step
      | otherwiseSome typed =>
          cases step with
          | fallback => exact ⟨⟨_, _, typed, known⟩, follows⟩
  | passes test update body => exact h.enters_passes step

end Moment.Sound

theorem Moment.Sound.reaches {p q : Moment} (h : Sound table base p) (run : Reaches p q) :
    Sound table base q := by
  induction run with
  | refl => exact h
  | tail _ step ih => exact ih.enters step

end

end Sulti
