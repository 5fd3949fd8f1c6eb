import Sulti.Exec
import Sulti.Proofs.Typing.Rules

/-!
What a run of a well-typed program keeps, whether it ends or stops. The rules
for actions are those of a program logic with one invariant: it is assumed of
the machine an action starts from and shown of the one it leaves behind, also
where the action fails.

The invariant here is that the cells agree with the table of declared names.
It is kept whatever the program does, because a value that does not fit is
never stored; that the program is well typed adds the types of its values.
-/

namespace Sulti

namespace Exec

variable {α β : Type}

/-- From a machine that satisfies the invariant the action leaves one that does,
and what it yields satisfies `Q`. -/
def Ensures (I : Machine → Prop) (Q : α → Prop) (p : Exec α) : Prop :=
  ∀ m, I m →
    match p m with
    | .ok a n => I n ∧ Q a
    | .error _ n => I n

section

variable {I : Machine → Prop}

/-- A sequence whose first action succeeds goes on with the second. -/
theorem bind_of_ok {p : Exec α} {f : α → Exec β} {m n : Machine} {a : α}
    (h : p m = .ok a n) : (p >>= f) m = f a n := by
  change EStateM.bind p f m = f a n
  unfold EStateM.bind
  rw [h]

theorem bind_of_error {p : Exec α} {f : α → Exec β} {m n : Machine} {s : Stop}
    (h : p m = .error s n) : (p >>= f) m = .error s n := by
  change EStateM.bind p f m = .error s n
  unfold EStateM.bind
  rw [h]

theorem get_bind {f : Machine → Exec α} (m : Machine) : (get >>= f) m = f m m := rfl

theorem bind_eq_ok {p : Exec α} {f : α → Exec β} {m n : Machine} {b : β}
    (h : (p >>= f) m = .ok b n) : ∃ a k, p m = .ok a k ∧ f a k = .ok b n := by
  match hp : p m with
  | .ok a k =>
      rw [bind_of_ok hp] at h
      exact ⟨a, k, rfl, h⟩
  | .error t k =>
      rw [bind_of_error hp] at h
      cases h

/-- A sequence fails in its first action or in its second. -/
theorem bind_eq_error {p : Exec α} {f : α → Exec β} {m n : Machine} {s : Stop}
    (h : (p >>= f) m = .error s n) :
    p m = .error s n ∨ ∃ a k, p m = .ok a k ∧ f a k = .error s n := by
  match hp : p m with
  | .ok a k =>
      rw [bind_of_ok hp] at h
      exact Or.inr ⟨a, k, rfl, h⟩
  | .error t k =>
      rw [bind_of_error hp] at h
      cases h
      exact Or.inl rfl

theorem Ensures.ok {p : Exec α} {Q : α → Prop} (h : Ensures I Q p) {m n : Machine} {a : α}
    (hm : I m) (hp : p m = .ok a n) : I n ∧ Q a := by
  have result := h m hm
  rw [hp] at result
  exact result

theorem Ensures.error {p : Exec α} {Q : α → Prop} (h : Ensures I Q p) {m n : Machine} {s : Stop}
    (hm : I m) (hp : p m = .error s n) : I n := by
  have result := h m hm
  rw [hp] at result
  exact result

theorem Ensures.bind {p : Exec α} {f : α → Exec β} {P : α → Prop} {Q : β → Prop}
    (hp : Ensures I P p) (hf : ∀ a, P a → Ensures I Q (f a)) : Ensures I Q (p >>= f) := by
  intro m hm
  match h : p m with
  | .ok a n =>
      obtain ⟨hn, ha⟩ := hp.ok hm h
      rw [bind_of_ok h]
      exact hf a ha n hn
  | .error s n =>
      rw [bind_of_error h]
      exact hp.error hm h

theorem Ensures.mono {p : Exec α} {P Q : α → Prop} (h : Ensures I P p) (hpq : ∀ a, P a → Q a) :
    Ensures I Q p := by
  intro m hm
  match hp : p m with
  | .ok a n =>
      obtain ⟨hn, ha⟩ := h.ok hm hp
      exact ⟨hn, hpq a ha⟩
  | .error s n => exact h.error hm hp

theorem ensures_pure {a : α} {Q : α → Prop} (h : Q a) : Ensures I Q (pure a : Exec α) :=
  fun _ hm => ⟨hm, h⟩

theorem ensures_throw {s : Stop} {Q : α → Prop} : Ensures I Q (throw s : Exec α) :=
  fun _ hm => hm

theorem ensures_ofExcept {r : Except Fault α} {Q : α → Prop} (h : ∀ a, r = .ok a → Q a) :
    Ensures I Q (ofExcept r) := by
  cases r with
  | ok a => exact ensures_pure (h a rfl)
  | error f => exact ensures_throw

/-- An action that looks at the machine looks at one that satisfies the invariant. -/
theorem ensures_get_bind {f : Machine → Exec α} {Q : α → Prop}
    (h : ∀ m, I m → Ensures I Q (f m)) : Ensures I Q (get >>= f) :=
  fun m hm => h m hm m hm

theorem ensures_set {m : Machine} (hm : I m) : Ensures I (fun _ => True) (set m : Exec Unit) :=
  fun _ _ => ⟨hm, trivial⟩

theorem ensures_modify {f : Machine → Machine} (h : ∀ m, I m → I (f m)) :
    Ensures I (fun _ => True) (modify f : Exec Unit) :=
  fun m hm => ⟨h m hm, trivial⟩

theorem ensures_repeatWhile {test : Exec Bool} {pass : Exec Unit}
    (ht : Ensures I (fun _ => True) test) (hp : Ensures I (fun _ => True) pass) (limit : Nat) :
    Ensures I (fun _ => True) (repeatWhile test pass limit) := by
  induction limit with
  | zero => exact ensures_throw
  | succ limit ih =>
      refine ht.bind fun holds _ => ?_
      cases holds with
      | true => exact hp.bind fun _ _ => ih
      | false => exact ensures_pure trivial

end

end Exec

namespace Store

/-- Every cell has the type that its name is declared with, and holds a value of
that type. -/
def Agrees (s : Store) (table : Table Ty) : Prop :=
  ∀ name cell, s.find? name = some cell →
    table.find? name = some cell.ty ∧ cell.value.ty = cell.ty

/-- The store agrees with the table, and no cell of `base` has been lost on the way
to it. -/
structure Follows (table : Table Ty) (base s : Store) : Prop where
  agrees : s.Agrees table
  keeps : ∀ name, base.contains name = true → s.contains name = true

theorem Agrees.follows {table : Table Ty} {s : Store} (h : s.Agrees table) :
    Follows table s s := ⟨h, fun _ found => found⟩

theorem Agrees.mono {table larger : Table Ty} {s : Store} (h : s.Agrees table)
    (extends' : table.Extends larger) : s.Agrees larger := by
  intro name cell found
  obtain ⟨declared, typed⟩ := h name cell found
  exact ⟨extends' name _ declared, typed⟩

theorem Follows.insert {table : Table Ty} {base s : Store} (h : Follows table base s)
    {name : String} {cell : Cell} (declared : table.find? name = some cell.ty)
    (typed : cell.value.ty = cell.ty) : Follows table base (s.insert name cell) := by
  constructor
  · intro other found hfound
    rw [Table.find?_insert] at hfound
    split at hfound
    · rename_i same
      cases hfound
      exact ⟨same ▸ declared, typed⟩
    · exact h.agrees other found hfound
  · intro other hother
    obtain ⟨found, hfound⟩ := Table.contains_iff.mp (h.keeps other hother)
    rw [Table.contains_iff, Table.find?_insert]
    split
    · exact ⟨cell, rfl⟩
    · exact ⟨found, hfound⟩

/-- Dropping names without a cell leaves the rest in step. -/
theorem Agrees.retain {table : Table Ty} {s : Store} (h : s.Agrees table) {keep : String → Bool}
    (kept : ∀ name, s.contains name = true → keep name = true) :
    s.Agrees (table.retain keep) := by
  intro name cell found
  obtain ⟨declared, typed⟩ := h name cell found
  rw [Table.find?_retain, kept name (Table.contains_iff.mpr ⟨cell, found⟩)]
  exact ⟨declared, typed⟩

/-- What starts in step with a table and goes on in step with a larger one keeps its
cells with their types. -/
theorem Follows.typeOf?_eq {table larger : Table Ty} {base s : Store}
    (h : Follows larger base s) (agrees : base.Agrees table) (growth : table.Extends larger)
    (name : String) (ty : Ty) (found : base.typeOf? name = some ty) :
    s.typeOf? name = some ty := by
  obtain ⟨old, hold, rfl⟩ := Option.map_eq_some_iff.mp found
  obtain ⟨new, hnew⟩ := Table.contains_iff.mp (h.keeps name (Table.contains_iff.mpr ⟨old, hold⟩))
  have before := growth _ _ (agrees name old hold).1
  have after := (h.agrees name new hnew).1
  rw [typeOf?, hnew, Option.map_some, Option.some.inj (after.symm.trans before)]

/-- A value that is stored has the type it is stored as. -/
theorem ty_of_coerce {name : String} {ty : Ty} {value stored : Value}
    (h : coerce name ty value = .ok stored) : stored.ty = ty := by
  unfold coerce at h
  split at h
  · split at h
    · cases h
      rfl
    · cases h
  · cases h
    rfl
  · split at h
    · rename_i same
      cases h
      exact same
    · cases h

/-- A value that may stand for another type is stored unless it does not fit. -/
theorem overflow_of_coerce {name : String} {ty : Ty} {value : Value} {f : Fault}
    (fits : ty.compatible value.ty = true) (h : coerce name ty value = .error f) :
    f = .overflow .conversion := by
  unfold coerce at h
  split at h
  · split at h
    · cases h
    · cases h
      rfl
  · cases h
  · rename_i notReal notInteger
    split at h
    · cases h
    · rename_i other
      rcases Ty.compatible_iff.mp fits with same | ⟨hty, hvalue⟩
      · exact absurd same.symm other
      · -- Two different numeric types are the two conversions, which were taken before.
        cases ty <;> cases hty
        · cases value <;> cases hvalue
          · exact absurd rfl other
          · exact absurd rfl (notReal _ rfl)
        · cases value <;> cases hvalue
          · exact absurd rfl (notInteger _ rfl)
          · exact absurd rfl other

end Store

end Sulti
