import Sulti.Proofs.Typing.Rules

/-!
What a program declares, in the order of its text. There are no scopes, so the
names of inner blocks count as those of the program, and the table that the
static rules leave behind a program is the one before it with these names.
-/

namespace Sulti

namespace Stmt

mutual

def declared : Stmt → List (String × Ty)
  | .declare ty bindings => bindings.map fun (name, _) => (name, ty)
  | .branch _ body others otherwise =>
      declaredAll body ++ (declaredArms others ++ declaredOtherwise otherwise)
  | .loop _ _ _ body | .block body => declaredAll body
  | .read _ _ | .print _ | .expr _ => []

def declaredAll : List Stmt → List (String × Ty)
  | [] => []
  | first :: rest => first.declared ++ declaredAll rest

def declaredArms : List (Expr × List Stmt) → List (String × Ty)
  | [] => []
  | (_, body) :: rest => declaredAll body ++ declaredArms rest

def declaredOtherwise : Option (List Stmt) → List (String × Ty)
  | none => []
  | some body => declaredAll body

end

end Stmt

def Phrase.declared : Phrase → List (String × Ty)
  | .bindings ty names => names.map fun (name, _) => (name, ty)
  | .stmt s => s.declared
  | .stmts body | .passes _ _ body => Stmt.declaredAll body
  | .arms others => Stmt.declaredArms others
  | .otherwise body => Stmt.declaredOtherwise body
  | .expr _ | .condition _ | .items _ => []

def Table.insertAll {α : Type} (t : Table α) (entries : List (String × α)) : Table α :=
  entries.foldl (fun t (name, a) => t.insert name a) t

theorem Table.insertAll_append {α : Type} (t : Table α) (first second : List (String × α)) :
    t.insertAll (first ++ second) = (t.insertAll first).insertAll second :=
  List.foldl_append

/-- The static rules add to the table what is declared, and nothing else. -/
theorem Phrase.Typed.table_eq {before after : Table Ty} {phrase : Phrase}
    (typed : Phrase.Typed before phrase after) : after = before.insertAll phrase.declared := by
  induction typed with
  | bindingsPlain _ _ _ ih => exact ih
  | bindingsStart _ _ _ _ _ ih => exact ih
  | declare _ _ ih =>
      rw [ih, Phrase.declared, Phrase.declared, Stmt.declared]
  | branch _ _ _ _ _ chosen alternatives final =>
      rw [final, alternatives, chosen]
      simp only [Phrase.declared, Stmt.declared, Table.insertAll_append]
  | loop _ _ ih =>
      rw [ih, Phrase.declared, Phrase.declared, Stmt.declared]
  | block _ ih =>
      rw [ih, Phrase.declared, Phrase.declared, Stmt.declared]
  | stmtsCons _ _ head others =>
      rw [others, head]
      simp only [Phrase.declared, Stmt.declaredAll, Table.insertAll_append]
  | armsCons _ _ _ _ chosen others =>
      rw [others, chosen]
      simp only [Phrase.declared, Stmt.declaredArms, Table.insertAll_append]
  | otherwiseSome _ ih =>
      rw [ih, Phrase.declared, Phrase.declared, Stmt.declaredOtherwise]
  | passes _ _ _ _ ih => exact ih
  | _ =>
      simp [Phrase.declared, Stmt.declared, Stmt.declaredAll, Stmt.declaredArms,
        Stmt.declaredOtherwise, Table.insertAll]

end Sulti
