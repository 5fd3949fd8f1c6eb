import Sulti.Expr

/-!
Statements and programs. There are no scopes: a declaration holds from where
it stands to the end of the program, whatever block it stands in.
-/

namespace Sulti

inductive Stmt where
  /-- Variables of one type, each with the expression it starts from, if any. -/
  | declare (ty : Ty) (bindings : List (String × Option Expr))
  /-- Reads one line into variables. -/
  | read (position : Position) (targets : List String)
  | print (items : List Expr)
  /-- Runs the first body whose condition holds, or else the last one, if any. -/
  | branch (condition : Expr) (body : List Stmt) (others : List (Expr × List Stmt))
      (otherwise : Option (List Stmt))
  | loop (start condition step : Expr) (body : List Stmt)
  | block (body : List Stmt)
  | expr (e : Expr)

abbrev Program := List Stmt

end Sulti
