import Frontend.Program.Basic
import Frontend.Traversal.Program

/-!
# Walks of a program

A walk visits the declarations of the program's own module and drops what nothing owns afterwards.
-/

namespace Frontend

def Program.visiting {σ α : Type} (user : σ) (visit : VisitM σ α) : ProgramM (α × σ) := do
  let p ← get
  match visit.run ⟨p.store, user⟩ with
  | .ok (a, final) =>
    set { p with store := final.store }
    return (a, final.user)
  | .error fault => throw fault

def Program.walk {σ : Type} (v : Visitor σ) (user : σ) (withGenerics : Bool) : ProgramM σ := do
  let ((), user) ← Program.visiting user (v.visitModule (← get).this withGenerics)
  modify Program.collect
  return user

end Frontend
