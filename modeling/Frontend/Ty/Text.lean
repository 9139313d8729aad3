import Frontend.Store.Basic

/-!
# Names and texts of types

`Ty.text` is a type as messages and dumps write it; `Ty.mangledName` is the compact name by which
overloads are told apart. Both name declarations through their links; a link to a declaration that
is gone has a text of its own.
-/

namespace Frontend

def Ty.dimsText (t : Ty) : String :=
  String.join (t.dims.map fun d =>
    if d = Ty.autoDim then "[]" else "[" ++ toString d.toInt ++ "]")

def Ty.qualifierText (t : Ty) : String :=
  (if t.isConst then " const" else "") ++ (if t.dropsConst then " -const" else "") ++
    (if t.isRefFlag then "&" else "") ++ (if t.dropsRef then " -&" else "") ++
    (if t.isTemporary then "#" else "")

def labelled : List String → List String → List String
  | name :: names, text :: texts => (name ++ ":" ++ text) :: labelled names texts
  | _, texts => texts

namespace Store

def typeTextWith (s : Store) (t : Ty) (first second : Option String) (args : List String) :
    String :=
  let body := match t.base with
    | .aliased => t.aliasName
    | .struct => ((t.struct?.bind s.struct?).map (·.name)).getD "structure"
    | .enum | .enum8 | .enum16 =>
      ((t.enum?.bind s.enumeration?).map (·.name)).getD t.base.name
    | .handle => ((t.annot?.bind s.annot?).map (·.name)).getD "handle"
    | .pointer => first.getD "void" ++ "?"
    | .array | .iterator =>
      match first with
      | some element => t.base.name ++ "<" ++ element ++ ">"
      | none => t.base.name
    | .table =>
      match first, second with
      | some key, some value => "table<" ++ key ++ ";" ++ value ++ ">"
      | _, _ => "table"
    | .block | .function | .lambda =>
      t.base.name ++ "<" ++
        (if args.isEmpty then "" else "(" ++ ";".intercalate args ++ ")") ++
        (match first with | some result => ":" ++ result ++ ">" | none => ">")
    | .tuple | .variant =>
      t.base.name ++ "<" ++ ";".intercalate (labelled t.argNames args) ++ ">"
    | base => base.name
  body ++ t.dimsText ++ t.qualifierText

mutual

def typeText (s : Store) : Ty → String
  | t@{ first, second, args, .. } =>
    s.typeTextWith t (s.typeTextOption first) (s.typeTextOption second) (s.typeTextList args)

def typeTextOption (s : Store) : Option Ty → Option String
  | none => none
  | some t => some (s.typeText t)

def typeTextList (s : Store) : List Ty → List String
  | [] => []
  | t :: ts => s.typeText t :: s.typeTextList ts

end

def mangledQualifiers (t : Ty) : String :=
  (if t.isConst then "C" else "") ++ (if t.isRefFlag then "&" else "") ++
    (if t.isTemporary then "#" else "") ++ (if t.isImplicit then "I" else "") ++
    (if t.dropsConst then "-C" else "") ++ (if t.dropsRef then "-&" else "") ++
    (if t.dropsDims then "-[]" else "") ++
    String.join (t.dims.map fun d => "[" ++ toString d.toInt ++ "]")

def mangledBase (s : Store) (t : Ty) : String :=
  match t.base with
  | .struct =>
    match t.struct?.bind s.struct? with
    | some x => "S<" ++ x.mangledName ++ ">"
    | none => "S<?>"
  | .enum | .enum8 | .enum16 =>
    let mark := match t.base with
      | .enum8 => "E8"
      | .enum16 => "E16"
      | _ => "E"
    match t.enum?.bind s.enumeration? with
    | some e => mark ++ "<" ++ e.mangledName ++ ">"
    | none => mark
  | .handle =>
    match t.annot?.bind s.annot? with
    | some a => "H<" ++ a.mangledName ++ ">"
    | none => "H<?>"
  | .aliased => "Y<" ++ t.aliasName ++ ">"
  | .auto => "."
  | .any => "*"
  | .pointer => "?"
  | .array => "A"
  | .table => "T"
  | .iterator => "G"
  | .block => "$"
  | .function => "@@"
  | .lambda => "@"
  | .tuple => "U"
  | .variant => "V"
  | base => base.name

mutual

def mangledType (s : Store) : Ty → String
  | t@{ first, second, args, .. } =>
    mangledQualifiers t ++ s.mangledOption "1" first ++ s.mangledOption "2" second ++
      (match args with
        | [] => ""
        | a :: as => "0<" ++ s.mangledType a ++ s.mangledRest as ++ ">") ++
      (if t.argNames.isEmpty then "" else "N<" ++ ";".intercalate t.argNames ++ ">") ++
      s.mangledBase t

def mangledOption (s : Store) (mark : String) : Option Ty → String
  | none => ""
  | some t => mark ++ "<" ++ s.mangledType t ++ ">"

def mangledRest (s : Store) : List Ty → String
  | [] => ""
  | t :: ts => ";" ++ s.mangledType t ++ s.mangledRest ts

end

end Store

end Frontend
