import Sulti.Op
import Sulti.Table

/-!
What the operations on a table do to the names that can be found in it. One
table extends another if every name that the other knows stands for the same
thing in it; a declaration of a fresh name extends a table, and keeping some
of the names is undone by nothing but a new declaration.
-/

namespace Sulti

namespace Table

variable {α : Type}

theorem contains_iff {t : Table α} {name : String} :
    t.contains name = true ↔ ∃ a, t.find? name = some a := by
  rw [contains, Option.isSome_iff_exists]

theorem contains_eq_false_iff {t : Table α} {name : String} :
    t.contains name = false ↔ t.find? name = none := by
  rw [contains, Option.isSome_eq_false_iff, Option.isNone_iff_eq_none]

theorem contains_insert (t : Table α) (name other : String) (a : α) :
    (t.insert name a).contains other = (decide (other = name) || t.contains other) := by
  by_cases same : other = name <;> simp [contains, find?_insert, same]

theorem find?_retain (t : Table α) (keep : String → Bool) (name : String) :
    (t.retain keep).find? name = if keep name then t.find? name else none := by
  obtain ⟨entries⟩ := t
  change findEntry name (entries.filter fun entry => keep entry.1) =
    if keep name then findEntry name entries else none
  induction entries with
  | nil => simp [findEntry]
  | cons entry rest ih =>
      obtain ⟨other, a⟩ := entry
      by_cases same : other = name
      · subst same
        cases kept : keep other with
        | true => simp [kept, findEntry]
        | false => simpa [kept] using ih
      · cases kept : keep other with
        | true => simpa [kept, findEntry, same] using ih
        | false => simpa [kept, findEntry, same] using ih

/-- Every name stands in `u` for what it stands for in `t`. -/
def Extends (t u : Table α) : Prop :=
  ∀ name a, t.find? name = some a → u.find? name = some a

theorem Extends.refl (t : Table α) : t.Extends t := fun _ _ found => found

theorem Extends.trans {t u v : Table α} (first : t.Extends u) (second : u.Extends v) :
    t.Extends v := fun name a found => second name a (first name a found)

theorem extends_insert {t : Table α} {name : String} (fresh : t.find? name = none) (a : α) :
    t.Extends (t.insert name a) := by
  intro other b found
  rw [find?_insert]
  split
  · rename_i same
    rw [same, fresh] at found
    cases found
  · exact found

theorem Extends.contains {t u : Table α} (h : t.Extends u) {name : String}
    (found : t.contains name = true) : u.contains name = true := by
  obtain ⟨a, ha⟩ := contains_iff.mp found
  exact contains_iff.mpr ⟨a, h name a ha⟩

end Table

namespace Ty

/-- The types that a declaration can name. -/
def Declarable : Ty → Prop
  | .text | .empty => False
  | _ => True

instance : DecidablePred Declarable
  | .text | .empty => isFalse id
  | .numero | .tipik | .letra | .tinuod => isTrue trivial

theorem declarable_of_ofWord? {word : String} {ty : Ty} (h : ofWord? word = some ty) :
    ty.Declarable := by
  unfold ofWord? at h
  split at h <;> cases h <;> trivial

theorem compatible_iff {a b : Ty} :
    a.compatible b = true ↔ a = b ∨ a.isNumeric = true ∧ b.isNumeric = true := by
  simp [compatible]

/-- Nothing but a truth value may stand for one. -/
theorem eq_tinuod_of_compatible {ty : Ty} (h : compatible .tinuod ty = true) : ty = .tinuod := by
  cases ty <;> simp [compatible, isNumeric] at h ⊢

/-- A blank may stand for nothing that is declared. -/
theorem not_compatible_empty {ty : Ty} (h : ty ≠ .empty) : ty.compatible .empty = false := by
  cases ty <;> simp_all [compatible, isNumeric]

end Ty

/-- A table in which every name has a type that can be declared. -/
def Table.AllDeclarable (t : Table Ty) : Prop :=
  ∀ name ty, t.find? name = some ty → ty.Declarable

theorem Table.allDeclarable_empty : (Table.empty : Table Ty).AllDeclarable := by
  intro name ty found
  cases found

theorem Table.AllDeclarable.insert {t : Table Ty} (h : t.AllDeclarable) (name : String) {ty : Ty}
    (hty : ty.Declarable) : (t.insert name ty).AllDeclarable := by
  intro other found hfound
  rw [Table.find?_insert] at hfound
  split at hfound
  · cases hfound
    exact hty
  · exact h other found hfound

theorem Table.AllDeclarable.retain {t : Table Ty} (h : t.AllDeclarable) (keep : String → Bool) :
    (t.retain keep).AllDeclarable := by
  intro name ty found
  rw [Table.find?_retain] at found
  split at found
  · exact h name ty found
  · cases found

end Sulti
