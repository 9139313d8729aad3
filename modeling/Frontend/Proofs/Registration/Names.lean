import Frontend.Decl.Text

/-!
# What the name of a function depends on

The mangled name of a function is the prefix of its module before a signature, the name and the
mangled types of the arguments. The signature reads the declarations that the types link to, and
nothing else of the store.
-/

namespace Frontend.Store

variable {s t : Store} {p : Ty → Bool} {u : Ty} {f : Function}

/-- The end of a compact name reads the declaration that the type links to. -/
theorem mangledBase_congr (hstruct : u.struct?.bind t.struct? = u.struct?.bind s.struct?)
    (henum : u.enum?.bind t.enumeration? = u.enum?.bind s.enumeration?)
    (hannot : u.annot?.bind t.annot? = u.annot?.bind s.annot?) :
    t.mangledBase u = s.mangledBase u := by
  unfold mangledBase
  rw [hstruct, henum, hannot]

mutual

theorem mangledType_congr (h : ∀ u, p u = false → t.mangledBase u = s.mangledBase u) :
    (u : Ty) → u.anyNested p = false → t.mangledType u = s.mangledType u
  | u@{ first, second, args, .. }, hu => by
    simp only [Ty.anyNested, Bool.or_eq_false_iff] at hu
    obtain ⟨⟨⟨hbase, hfirst⟩, hsecond⟩, hargs⟩ := hu
    cases args with
    | nil =>
      simp only [mangledType, h _ hbase, mangledOption_congr h "1" first hfirst,
        mangledOption_congr h "2" second hsecond]
    | cons a as =>
      simp only [Ty.anyNestedList, Bool.or_eq_false_iff] at hargs
      simp only [mangledType, h _ hbase, mangledOption_congr h "1" first hfirst,
        mangledOption_congr h "2" second hsecond, mangledType_congr h a hargs.1,
        mangledRest_congr h as hargs.2]

theorem mangledOption_congr (h : ∀ u, p u = false → t.mangledBase u = s.mangledBase u)
    (mark : String) : (u : Option Ty) → Ty.anyNestedOption p u = false →
      t.mangledOption mark u = s.mangledOption mark u
  | none, _ => rfl
  | some u, hu => by simp only [mangledOption, mangledType_congr h u hu]

theorem mangledRest_congr (h : ∀ u, p u = false → t.mangledBase u = s.mangledBase u) :
    (us : List Ty) → Ty.anyNestedList p us = false → t.mangledRest us = s.mangledRest us
  | [], _ => rfl
  | u :: us, hus => by
    simp only [Ty.anyNestedList, Bool.or_eq_false_iff] at hus
    simp only [mangledRest, mangledType_congr h u hus.1, mangledRest_congr h us hus.2]

end

mutual

theorem anyNested_never : (u : Ty) → u.anyNested (fun _ => false) = false
  | { first, second, args, .. } => by
    simp only [Ty.anyNested, anyNestedOption_never first, anyNestedOption_never second,
      anyNestedList_never args, Bool.or_self]

theorem anyNestedOption_never : (u : Option Ty) → Ty.anyNestedOption (fun _ => false) u = false
  | none => rfl
  | some u => anyNested_never u

theorem anyNestedList_never : (us : List Ty) → Ty.anyNestedList (fun _ => false) us = false
  | [] => rfl
  | u :: us => by
    simp only [Ty.anyNestedList, anyNested_never u, anyNestedList_never us, Bool.or_self]

end

def modulePrefix : Option String → String
  | some module => if module.isEmpty then "" else "@" ++ module ++ "::"
  | none => ""

/-- The part of a mangled name that the module of the function does not tell. -/
def signature (s : Store) (f : Function) : String :=
  f.name ++ String.join (f.args.map fun a => " " ++ s.mangledType (s.var a).type)

theorem mangledFunction_eq (s : Store) (f : Function) :
    s.mangledFunction f = modulePrefix f.module? ++ s.signature f := by
  unfold mangledFunction signature modulePrefix
  cases f.module? with
  | none => simp
  | some module =>
    by_cases h : module.isEmpty
    · simp [h]
    · simp [h, String.append_assoc]

def argumentLinks (s : Store) (p : Ty → Bool) (f : Function) : Bool :=
  f.args.any fun a => (s.var a).type.anyNested p

/-- The signature of a function is the same where its arguments and the declarations behind their
types are. -/
theorem signature_congr (htype : ∀ a ∈ f.args, (t.var a).type = (s.var a).type)
    (h : ∀ u, p u = false → t.mangledBase u = s.mangledBase u)
    (hf : s.argumentLinks p f = false) : t.signature f = s.signature f := by
  unfold signature
  congr 2
  refine List.map_congr_left fun a ha => ?_
  have hp : (s.var a).type.anyNested p = false := by
    unfold argumentLinks at hf
    rw [List.any_eq_false] at hf
    exact Bool.not_eq_true _ ▸ hf a ha
  rw [htype a ha, mangledType_congr h _ hp]

structure SameDeclarations (s t : Store) : Prop where
  structs : t.structs = s.structs
  enumerations : t.enumerations = s.enumerations
  annots : t.annots = s.annots
  vars : t.vars = s.vars

namespace SameDeclarations

theorem refl (s : Store) : s.SameDeclarations s := ⟨rfl, rfl, rfl, rfl⟩

theorem trans {u : Store} (h : s.SameDeclarations t) (h' : t.SameDeclarations u) :
    s.SameDeclarations u where
  structs := h'.structs.trans h.structs
  enumerations := h'.enumerations.trans h.enumerations
  annots := h'.annots.trans h.annots
  vars := h'.vars.trans h.vars

theorem type (h : s.SameDeclarations t) (a : VarId) : (t.var a).type = (s.var a).type := by
  rw [var, var, h.vars]

theorem signature (h : s.SameDeclarations t) (f : Function) : t.signature f = s.signature f := by
  have hstruct : t.struct? = s.struct? := by
    funext id
    rw [struct?, struct?, h.structs]
  have henum : t.enumeration? = s.enumeration? := by
    funext id
    rw [enumeration?, enumeration?, h.enumerations]
  have hannot : t.annot? = s.annot? := by
    funext id
    rw [annot?, annot?, h.annots]
  refine signature_congr (p := fun _ => false) (fun a _ => h.type a) (fun u _ => ?_) ?_
  · exact mangledBase_congr (by rw [hstruct]) (by rw [henum]) (by rw [hannot])
  · unfold argumentLinks
    rw [List.any_eq_false]
    intro a _
    rw [anyNested_never]
    exact Bool.false_ne_true

end SameDeclarations

end Frontend.Store
