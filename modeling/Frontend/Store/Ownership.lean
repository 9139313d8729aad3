import Frontend.Expr.Subtrees
import Frontend.Store.Basic

/-!
# Ownership

An object exists as long as something owns it: a module owns what is registered in it, a tree owns
the variables it names and the annotations it carries, a bound annotation owns its structure, a
rewriter owns what its rules put in, and the surroundings of a program own what they hold. Links
from types, from calls to functions and from structures to their parents own nothing.
`Store.collect` drops what is not owned, and again what only that owned, until nothing is left to
drop; objects that own each other in a ring stay.
-/

namespace Frontend

structure Holdings where
  functions : List FunctionId := []
  structs : List StructId := []
  enumerations : List EnumId := []
  annots : List AnnotId := []
  vars : List VarId := []
  modules : List ModuleId := []
  rewriters : List RewriterId := []
  deriving Inhabited

namespace Holdings

def append (a b : Holdings) : Holdings where
  functions := a.functions ++ b.functions
  structs := a.structs ++ b.structs
  enumerations := a.enumerations ++ b.enumerations
  annots := a.annots ++ b.annots
  vars := a.vars ++ b.vars
  modules := a.modules ++ b.modules
  rewriters := a.rewriters ++ b.rewriters

instance : Append Holdings := ⟨append⟩

def ofExpr (e : Expr) : Holdings := { vars := e.vars, annots := e.annots }

def ofOption (e : Option Expr) : Holdings := (e.map ofExpr).getD {}

def ofAnnots (uses : List AnnotUse) : Holdings := { annots := uses.map (·.annot) }

def join (l : List Holdings) : Holdings := l.foldr (· ++ ·) {}

end Holdings

def Function.holdings (f : Function) : Holdings :=
  { vars := f.args } ++ .ofOption f.body ++ .ofAnnots f.annots

def Struct.holdings (x : Struct) : Holdings :=
  .join (x.fields.map fun f => .ofOption f.init) ++ .ofAnnots x.annots

def Enumeration.holdings (e : Enumeration) : Holdings :=
  .join (e.entries.map fun x => .ofOption x.2)

def Annot.holdings (a : Annot) : Holdings := { structs := a.bound?.toList }

def Variable.holdings (v : Variable) : Holdings := .ofOption v.init

def Module.holdings (m : Module) : Holdings where
  functions := m.functions.values ++ m.generics.values
  structs := m.structs.values ++ m.structOrder
  enumerations := m.enumerations.values
  annots := m.annots.values
  vars := m.globals.values ++ m.globalOrder
  rewriters := m.rewriters

def RuleAction.holdings : RuleAction → Holdings
  | remove | type _ => {}
  | expr value => .ofExpr value
  | field value => .ofExpr value.value
  | var value => { vars := [value] }
  | function value => { functions := [value] }
  | struct value => { structs := [value] }
  | enumeration value => { enumerations := [value] }

def Script.holdings (s : Script) : Holdings := .join (s.rules.map (·.action.holdings))

def Rewriter.holdings (r : Rewriter) : Holdings := (r.script?.map Script.holdings).getD {}

structure Marks (kind : ObjectKind) where
  flags : Array Bool

namespace Marks

def ofList {kind : ObjectKind} (size : Nat) (ids : List (Id kind)) : Marks kind :=
  ⟨ids.foldl (fun flags id => flags.setIfInBounds id.index true) (Array.replicate size false)⟩

def contains {kind : ObjectKind} (m : Marks kind) (id : Id kind) : Bool :=
  m.flags[id.index]?.getD false

end Marks

def Table.owned {kind : ObjectKind} {α : Type} (t : Table kind α) (ids : List (Id kind)) :
    Table kind α :=
  t.restrict (Marks.ofList t.slots.size ids).contains

namespace Store

def holdings (s : Store) : Holdings :=
  .join (s.functions.toList.map (·.2.holdings)) ++ .join (s.structs.toList.map (·.2.holdings)) ++
    .join (s.enumerations.toList.map (·.2.holdings)) ++
    .join (s.annots.toList.map (·.2.holdings)) ++
    .join (s.vars.toList.map (·.2.holdings)) ++
    .join (s.modules.toList.map (·.2.holdings)) ++
    .join (s.rewriters.toList.map (·.2.holdings))

def count (s : Store) : Nat :=
  s.functions.count + s.structs.count + s.enumerations.count + s.annots.count +
    s.vars.count + s.modules.count + s.rewriters.count

/-- Drops the objects that are neither held from outside nor owned by another object. -/
def sweep (s : Store) (outside : Holdings) : Store :=
  let h := outside ++ s.holdings
  { functions := s.functions.owned h.functions
    structs := s.structs.owned h.structs
    enumerations := s.enumerations.owned h.enumerations
    annots := s.annots.owned h.annots
    vars := s.vars.owned h.vars
    modules := s.modules.owned h.modules
    rewriters := s.rewriters.owned h.rewriters }

def sweepMany (outside : Holdings) : Nat → Store → Store
  | 0, s => s
  | rounds + 1, s =>
    let swept := s.sweep outside
    if swept.count = s.count then s else sweepMany outside rounds swept

/-- Drops everything that is not owned. Every round but the last drops an object. -/
def collect (s : Store) (outside : Holdings) : Store := sweepMany outside (s.count + 1) s

end Store

end Frontend
