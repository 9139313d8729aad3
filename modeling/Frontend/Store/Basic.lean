import Frontend.Decl.Basic
import Frontend.Script.Basic

/-!
# The store of declarations

One table for each kind of object. Everything that refers to a declaration does so by its id; a
declaration is gone once nothing owns it, and then its id looks up to nothing.
-/

namespace Frontend

structure Store where
  functions : Table .function Function := {}
  structs : Table .struct Struct := {}
  enumerations : Table .enumeration Enumeration := {}
  annots : Table .annot Annot := {}
  vars : Table .var Variable := {}
  modules : Table .module Module := {}
  rewriters : Table .rewriter Rewriter := {}
  deriving Inhabited

namespace Store

def function? (s : Store) (id : FunctionId) : Option Function := s.functions.get? id

def struct? (s : Store) (id : StructId) : Option Struct := s.structs.get? id

def enumeration? (s : Store) (id : EnumId) : Option Enumeration := s.enumerations.get? id

def annot? (s : Store) (id : AnnotId) : Option Annot := s.annots.get? id

def module? (s : Store) (id : ModuleId) : Option Module := s.modules.get? id

def rewriter? (s : Store) (id : RewriterId) : Option Rewriter := s.rewriters.get? id

/-- A variable; variables are owned by everything that names them. -/
def var (s : Store) (id : VarId) : Variable := (s.vars.get? id).getD default

def module (s : Store) (id : ModuleId) : Module := (s.module? id).getD default

def addFunction (s : Store) (f : Function) : FunctionId × Store :=
  (s.functions.nextId, { s with functions := s.functions.push f })

def addStruct (s : Store) (x : Struct) : StructId × Store :=
  (s.structs.nextId, { s with structs := s.structs.push x })

def addEnumeration (s : Store) (e : Enumeration) : EnumId × Store :=
  (s.enumerations.nextId, { s with enumerations := s.enumerations.push e })

def addAnnot (s : Store) (a : Annot) : AnnotId × Store :=
  (s.annots.nextId, { s with annots := s.annots.push a })

def addVariable (s : Store) (v : Variable) : VarId × Store :=
  (s.vars.nextId, { s with vars := s.vars.push v })

def addModule (s : Store) (m : Module) : ModuleId × Store :=
  (s.modules.nextId, { s with modules := s.modules.push m })

def addRewriter (s : Store) (r : Rewriter) : RewriterId × Store :=
  (s.rewriters.nextId, { s with rewriters := s.rewriters.push r })

def modifyFunction (s : Store) (id : FunctionId) (f : Function → Function) : Store :=
  { s with functions := s.functions.modify id f }

def modifyStruct (s : Store) (id : StructId) (f : Struct → Struct) : Store :=
  { s with structs := s.structs.modify id f }

def modifyEnumeration (s : Store) (id : EnumId) (f : Enumeration → Enumeration) : Store :=
  { s with enumerations := s.enumerations.modify id f }

def modifyVariable (s : Store) (id : VarId) (f : Variable → Variable) : Store :=
  { s with vars := s.vars.modify id f }

def modifyModule (s : Store) (id : ModuleId) (f : Module → Module) : Store :=
  { s with modules := s.modules.modify id f }

def modifyRewriter (s : Store) (id : RewriterId) (f : Rewriter → Rewriter) : Store :=
  { s with rewriters := s.rewriters.modify id f }

end Store

end Frontend
