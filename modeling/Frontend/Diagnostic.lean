import Frontend.Span

/-!
# Compilation errors

Errors of the compiled program are collected as values. A `Problem` is the cause, `Problem.report`
phrases it, and `CompileError.diagnostic` lays it out for display: one primary label at the
location, secondary labels at the notes bound to code, and the other notes in order.
-/

namespace Frontend

inductive ErrorKind where
  | syntaxError | moduleNotFound | argumentAlreadyDeclared | invalidAnnot
  | functionAlreadyDeclared | cantPipe | localVariableAlreadyDeclared | enumerationNotFound
  | globalVariableAlreadyDeclared | enumerationValueAlreadyDeclared | enumerationAlreadyDeclared
  | structureFieldAlreadyDeclared | structureAlreadyDeclared | annotationNotFound | typeNotFound
  | structureNotFound | handleNotFound | typeAliasNotFound | functionNotFound
  | typeAliasAlreadyDeclared | annotationAlreadyDeclared | structureFieldCycle
  | optimizationMacroFailed | optimizationDidNotConverge | unspecified
  deriving DecidableEq, Repr, Inhabited

namespace ErrorKind

def code : ErrorKind → String
  | syntaxError => "E0001" | moduleNotFound => "E0002" | argumentAlreadyDeclared => "E0003"
  | invalidAnnot => "E0004" | functionAlreadyDeclared => "E0005" | cantPipe => "E0006"
  | localVariableAlreadyDeclared => "E0007" | enumerationNotFound => "E0008"
  | globalVariableAlreadyDeclared => "E0009" | enumerationValueAlreadyDeclared => "E0010"
  | enumerationAlreadyDeclared => "E0011" | structureFieldAlreadyDeclared => "E0012"
  | structureAlreadyDeclared => "E0013" | annotationNotFound => "E0014" | typeNotFound => "E0015"
  | structureNotFound => "E0016" | handleNotFound => "E0017" | typeAliasNotFound => "E0018"
  | functionNotFound => "E0019" | typeAliasAlreadyDeclared => "E0020"
  | annotationAlreadyDeclared => "E0021" | structureFieldCycle => "E0022"
  | optimizationMacroFailed => "E0023" | optimizationDidNotConverge => "E0024"
  | unspecified => "E0099"

def name : ErrorKind → String
  | syntaxError => "SyntaxError" | moduleNotFound => "ModuleNotFound"
  | argumentAlreadyDeclared => "ArgumentAlreadyDeclared"
  | invalidAnnot => "InvalidAnnotation"
  | functionAlreadyDeclared => "FunctionAlreadyDeclared" | cantPipe => "CantPipe"
  | localVariableAlreadyDeclared => "LocalVariableAlreadyDeclared"
  | enumerationNotFound => "EnumerationNotFound"
  | globalVariableAlreadyDeclared => "GlobalVariableAlreadyDeclared"
  | enumerationValueAlreadyDeclared => "EnumerationValueAlreadyDeclared"
  | enumerationAlreadyDeclared => "EnumerationAlreadyDeclared"
  | structureFieldAlreadyDeclared => "StructureFieldAlreadyDeclared"
  | structureAlreadyDeclared => "StructureAlreadyDeclared"
  | annotationNotFound => "AnnotationNotFound" | typeNotFound => "TypeNotFound"
  | structureNotFound => "StructureNotFound" | handleNotFound => "HandleNotFound"
  | typeAliasNotFound => "TypeAliasNotFound" | functionNotFound => "FunctionNotFound"
  | typeAliasAlreadyDeclared => "TypeAliasAlreadyDeclared"
  | annotationAlreadyDeclared => "AnnotationAlreadyDeclared"
  | structureFieldCycle => "StructureFieldCycle"
  | optimizationMacroFailed => "OptimizationMacroFailed"
  | optimizationDidNotConverge => "OptimizationDidNotConverge"
  | unspecified => "Unspecified"

def all : List ErrorKind :=
  [syntaxError, moduleNotFound, argumentAlreadyDeclared, invalidAnnot,
    functionAlreadyDeclared, cantPipe, localVariableAlreadyDeclared, enumerationNotFound,
    globalVariableAlreadyDeclared, enumerationValueAlreadyDeclared, enumerationAlreadyDeclared,
    structureFieldAlreadyDeclared, structureAlreadyDeclared, annotationNotFound, typeNotFound,
    structureNotFound, handleNotFound, typeAliasNotFound, functionNotFound,
    typeAliasAlreadyDeclared, annotationAlreadyDeclared, structureFieldCycle,
    optimizationMacroFailed, optimizationDidNotConverge, unspecified]

def ofName? (name : String) : Option ErrorKind := all.find? (·.name == name)

end ErrorKind

inductive DeclarationKind where
  | struct | handle | enumeration | typeAlias | annot | function | global
  deriving DecidableEq, Repr

namespace DeclarationKind

def text : DeclarationKind → String
  | struct => "structure"
  | handle => "handled type"
  | enumeration => "enumeration"
  | typeAlias => "type alias"
  | annot => "annotation"
  | function => "function"
  | global => "variable"

def all : List DeclarationKind :=
  [struct, handle, enumeration, typeAlias, annot, function, global]

end DeclarationKind

structure CompileError where
  kind : ErrorKind
  message : String
  /-- Details, such as a list of candidates. -/
  extra : Option String := none
  /-- How the problem can be fixed. -/
  fixme : Option String := none
  location : Option Span := none
  /-- Shown next to the code at the location. -/
  subtitle : Option String := none
  boundNotes : List (Span × String) := []
  freeNotes : List String := []
  deriving DecidableEq, Repr, Inhabited

namespace CompileError

def ofMessage (kind : ErrorKind) (message : String) : CompileError :=
  { kind, message }

def code (e : CompileError) : String := e.kind.code

/-- A span that points nowhere is no location. -/
def withLocation (e : CompileError) (span : Span) : CompileError :=
  { e with location := if span.isBuiltin then none else some span }

def withSubtitle (e : CompileError) (subtitle : String) : CompileError :=
  { e with subtitle := some subtitle }

def withExtra (e : CompileError) (extra : String) : CompileError :=
  { e with extra := if extra.isEmpty then none else some extra }

def withFixme (e : CompileError) (fixme : String) : CompileError :=
  { e with fixme := if fixme.isEmpty then none else some fixme }

/-- A note at a span that points nowhere is dropped. -/
def withBoundNote (e : CompileError) (span : Span) (note : String) : CompileError :=
  if span.isBuiltin then e else { e with boundNotes := e.boundNotes ++ [(span, note)] }

def withFreeNote (e : CompileError) (note : String) : CompileError :=
  { e with freeNotes := e.freeNotes ++ [note] }

def withPrevious (e : CompileError) (previous : Option Span) : CompileError :=
  match previous with
  | some span => e.withBoundNote span "previously declared here"
  | none => e

def text (e : CompileError) : String :=
  "error[" ++ e.code ++ "]: " ++ e.message ++
    (match e.location with | some span => " at " ++ span.text | none => "") ++
    (match e.extra with | some extra => "\n" ++ extra | none => "") ++
    (match e.fixme with | some fixme => "\nfixme: " ++ fixme | none => "")

end CompileError

structure DiagnosticLabel where
  primary : Bool
  file : Nat
  start : Nat
  stop : Nat
  message : String
  deriving DecidableEq, Repr

structure Diagnostic where
  code : String
  message : String
  labels : List DiagnosticLabel
  notes : List String
  deriving DecidableEq, Repr

def DiagnosticLabel.ofSpan? (primary : Bool) (message : String) (span : Span) :
    Option DiagnosticLabel :=
  match span.file with
  | .builtin => none
  | .source file => some ⟨primary, file, span.start, span.stop, message⟩

def CompileError.diagnostic (e : CompileError) : Diagnostic where
  code := e.code
  message := e.message
  labels :=
    (e.location.bind (DiagnosticLabel.ofSpan? true (e.subtitle.getD ""))).toList ++
      e.boundNotes.filterMap fun n => DiagnosticLabel.ofSpan? false n.2 n.1
  notes := e.extra.toList ++ (e.fixme.map ("fixme: " ++ ·)).toList ++ e.freeNotes

inductive Problem where
  | syntaxError (message : String)
  | moduleNotFound (name : String)
  | argumentAlreadyDeclared (name function : String) (previous : Option Span)
  | invalidAnnot (message annot : String)
  | functionAlreadyDeclared (name : String) (previous : Option Span)
  | cantPipe
  | localVariableAlreadyDeclared (name : String) (previous : Option Span)
  | enumerationNotFound (name : String)
  | enumerationValueNotFound (enumeration value : String)
  | enumerationAmbiguous (name : String) (candidates : List String)
  | globalVariableAlreadyDeclared (name : String) (previous : Option Span)
  | enumerationValueAlreadyDeclared (enumeration value : String)
  | enumerationAlreadyDeclared (name : String) (previous : Option Span)
  | structureFieldAlreadyDeclared (struct field : String) (previous : Option Span)
  | structureAlreadyDeclared (name : String) (previous : Option Span)
  | annotNotFound (name : String)
  | annotAmbiguous (name : String) (candidates : List String)
  /-- A name belongs to declarations of several categories. -/
  | ambiguousTypeName (name : String) (candidates : List String)
  | structureAmbiguous (name : String) (candidates : List String)
  | handleAmbiguous (name : String) (candidates : List String)
  | notAHandledType (name : String)
  | aliasAmbiguous (name : String) (candidates : List String)
  | callAmbiguous (name : String)
  | typeAliasAlreadyDeclared (name : String)
  | annotAlreadyDeclared (name : String)
  /-- Pairs of a structure and its field, along the cycle. -/
  | structureFieldCycle (steps : List (String × String))
  | rewriterFailed (module rewriter : String)
  | didNotConverge (rounds : Nat)
  deriving DecidableEq, Repr

namespace Problem

def candidateLines (candidates : List String) : String :=
  String.join (candidates.map ("\n    " ++ ·))

def candidatesNote (kind : DeclarationKind) (candidates : List String) : String :=
  s!"candidate {kind.text}s are:" ++ candidateLines candidates

private def qualifyHint : String := "use a module-qualified name, e.g. `module::name`"

private def tooMany (kind : ErrorKind) (name subtitle extra : String) : CompileError :=
  ((CompileError.ofMessage kind s!"too many options for {name}").withSubtitle subtitle).withExtra
    extra

private def redeclared (kind : ErrorKind) (message : String) (previous : Option Span) :
    CompileError :=
  ((CompileError.ofMessage kind message).withSubtitle "redeclared here").withPrevious previous

def phrase : Problem → CompileError
  | syntaxError message => .ofMessage .syntaxError message
  | moduleNotFound name =>
    (CompileError.ofMessage .moduleNotFound s!"required module `{name}` not found").withSubtitle
      "unknown module"
  | argumentAlreadyDeclared name function previous =>
    redeclared .argumentAlreadyDeclared
      s!"argument `{name}` is already declared in function `{function}`" previous
  | invalidAnnot message annot =>
    (CompileError.ofMessage .invalidAnnot message).withSubtitle s!"annotation `{annot}`"
  | functionAlreadyDeclared name previous =>
    ((CompileError.ofMessage .functionAlreadyDeclared
      s!"function `{name}` is already declared").withSubtitle
        "a function with the same signature already exists").withPrevious previous
  | cantPipe =>
    (CompileError.ofMessage .cantPipe "can only pipe into a function call").withSubtitle
      "not a call"
  | localVariableAlreadyDeclared name previous =>
    redeclared .localVariableAlreadyDeclared s!"local variable `{name}` is already declared"
      previous
  | enumerationNotFound name =>
    (CompileError.ofMessage .enumerationNotFound s!"enumeration `{name}` not found").withSubtitle
      "unknown enumeration"
  | enumerationValueNotFound enumeration value =>
    (CompileError.ofMessage .enumerationNotFound
      s!"enumeration value `{enumeration}::{value}` not found").withSubtitle
        s!"`{enumeration}` has no such value"
  | enumerationAmbiguous name candidates =>
    tooMany .enumerationNotFound s!"`{name}`" "ambiguous enumeration name"
      (candidatesNote .enumeration candidates)
  | globalVariableAlreadyDeclared name previous =>
    redeclared .globalVariableAlreadyDeclared s!"global variable `{name}` is already declared"
      previous
  | enumerationValueAlreadyDeclared enumeration value =>
    (CompileError.ofMessage .enumerationValueAlreadyDeclared
      s!"enumeration value `{value}` is already declared in `{enumeration}`").withSubtitle
        "duplicate value name"
  | enumerationAlreadyDeclared name previous =>
    redeclared .enumerationAlreadyDeclared s!"enumeration `{name}` is already declared" previous
  | structureFieldAlreadyDeclared struct field previous =>
    redeclared .structureFieldAlreadyDeclared
      s!"structure field `{field}` is already declared in `{struct}`" previous
  | structureAlreadyDeclared name previous =>
    redeclared .structureAlreadyDeclared s!"structure `{name}` is already declared" previous
  | annotNotFound name =>
    (CompileError.ofMessage .annotationNotFound s!"annotation `{name}` not found").withSubtitle
      "unknown annotation"
  | annotAmbiguous name candidates =>
    tooMany .annotationNotFound s!"annotation `{name}`" "ambiguous annotation name"
      (candidatesNote .annot candidates)
  | ambiguousTypeName name candidates =>
    (((CompileError.ofMessage .typeNotFound s!"undefined type `{name}`").withSubtitle
      "name refers to more than one kind of type").withExtra
        ("candidates are:" ++ candidateLines candidates)).withFixme qualifyHint
  | structureAmbiguous name candidates =>
    (tooMany .structureNotFound s!"`{name}`" "ambiguous structure name"
      (candidatesNote .struct candidates)).withFixme qualifyHint
  | handleAmbiguous name candidates =>
    tooMany .handleNotFound s!"`{name}`" "ambiguous handled type name"
      (candidatesNote .handle candidates)
  | notAHandledType name =>
    (CompileError.ofMessage .handleNotFound
      s!"annotation `{name}` is not a handled type annotation").withSubtitle
        "used as a type here"
  | aliasAmbiguous name candidates =>
    tooMany .typeAliasNotFound s!"`{name}`" "ambiguous type alias"
      (candidatesNote .typeAlias candidates)
  | callAmbiguous name =>
    (CompileError.ofMessage .functionNotFound s!"too many options for `{name}`").withSubtitle
      "several modules define this call"
  | typeAliasAlreadyDeclared name =>
    (CompileError.ofMessage .typeAliasAlreadyDeclared
      s!"type alias `{name}` is already declared").withSubtitle "redeclared here"
  | annotAlreadyDeclared name =>
    (CompileError.ofMessage .annotationAlreadyDeclared
      s!"annotation `{name}` is already declared").withSubtitle
        "handle type name clashes with an existing annotation"
  | structureFieldCycle steps =>
    let anchor := (steps.head?.map (·.1)).getD "?"
    let lines := "\n -> ".intercalate (steps.map fun s => s!"`{s.1}` (through field `{s.2}`)")
    ((CompileError.ofMessage .structureFieldCycle
      s!"structure `{anchor}` is a part of a structure cycle through fields").withSubtitle
        "field type starts a structure cycle").withFreeNote
          s!"Structure dependency cycle:\n    {lines}\n -> `{anchor}`"
  | rewriterFailed module rewriter =>
    .ofMessage .optimizationMacroFailed s!"optimization macro {module}::{rewriter} failed"
  | didNotConverge rounds =>
    ((CompileError.ofMessage .optimizationDidNotConverge
      s!"optimization did not converge after {rounds} passes").withFreeNote
        "an optimization macro likely keeps rewriting the same code").withFixme
          "raise `max_optimization_passes` or fix the macro"

def report (p : Problem) (span : Span) : CompileError := p.phrase.withLocation span

end Problem

end Frontend
