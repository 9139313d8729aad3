import Mathlib.Data.List.Forall2
import Frontend.Proofs.Registration.Labels
import Frontend.Proofs.Registration.Stamping

/-!
# When two overloads are one

A module refuses a function whose compact name is taken. So of two functions of one name with equal
argument types the second is refused if all labels agree. Where a label differs, the first is not in
the way of the second.
-/

namespace Frontend.Store

variable {s : Store} {m : ModuleId} {x : Module} {id other : FunctionId} {f g : Function}
  {shelf : Shelf}

structure SameOverload (s : Store) (f g : Function) : Prop where
  name : f.name = g.name
  args : f.args.Forall₂ (fun a b => (s.var a).type.sameType (s.var b).type = true) g.args

def SameArgLabels (s : Store) (f g : Function) : Prop :=
  f.args.Forall₂ (fun a b => (s.var a).type.sameLabels (s.var b).type = true) g.args

def argumentsText (s : Store) (args : List VarId) : String :=
  String.join (args.map fun a => " " ++ s.mangledType (s.var a).type)

theorem argumentsText_cons (s : Store) (a : VarId) (args : List VarId) :
    s.argumentsText (a :: args) = " " ++ s.mangledType (s.var a).type ++ s.argumentsText args := by
  rw [argumentsText, List.map_cons, String.join_cons]
  rfl

theorem argumentsText_of_sameLabels {as bs : List VarId}
    (hsame : as.Forall₂ (fun a b => (s.var a).type.sameType (s.var b).type = true) bs)
    (hlabels : as.Forall₂ (fun a b => (s.var a).type.sameLabels (s.var b).type = true) bs) :
    s.argumentsText as = s.argumentsText bs := by
  induction hsame with
  | nil => rfl
  | cons hhead _ ih =>
    cases hlabels with
    | cons hlabel hlabels =>
      rw [argumentsText_cons, argumentsText_cons, ih hlabels,
        mangledType_of_sameLabels s _ _ hhead hlabel]

theorem argumentsText_cancel {as bs : List VarId}
    (hsame : as.Forall₂ (fun a b => (s.var a).type.sameType (s.var b).type = true) bs)
    (hplain : ∀ a ∈ as, (s.var a).type.hasMarkedLabel = false)
    (hplain' : ∀ b ∈ bs, (s.var b).type.hasMarkedLabel = false)
    (he : (s.argumentsText as).toList = (s.argumentsText bs).toList) :
    as.Forall₂ (fun a b => (s.var a).type.sameLabels (s.var b).type = true) bs := by
  induction hsame with
  | nil => exact .nil
  | cons hhead _ ih =>
    simp only [argumentsText_cons, String.toList_append, List.append_assoc] at he
    obtain ⟨hlabel, he⟩ := mangledType_cancel s _ _ hhead (hplain _ (.head _))
      (hplain' _ (.head _)) (List.append_cancel_left he)
    exact .cons hlabel
      (ih (fun a ha => hplain a (.tail _ ha)) (fun b hb => hplain' b (.tail _ hb)) he)

theorem signature_of_sameArgLabels (h : s.SameOverload f g) (hlabels : s.SameArgLabels f g) :
    s.signature f = s.signature g := by
  have hargs := argumentsText_of_sameLabels h.args hlabels
  unfold argumentsText at hargs
  rw [signature, signature, h.name, hargs]

theorem sameArgLabels_of_signature (h : s.SameOverload f g)
    (hf : s.argumentLinks Ty.marksLabel f = false) (hg : s.argumentLinks Ty.marksLabel g = false)
    (he : s.signature f = s.signature g) : s.SameArgLabels f g := by
  simp only [argumentLinks, List.any_eq_false, Bool.not_eq_true] at hf hg
  rw [signature, signature, h.name, ← String.toList_inj, String.toList_append,
    String.toList_append] at he
  exact argumentsText_cancel h.args hf hg (List.append_cancel_left he)

theorem registerOn_fst (hx : s.module? m = some x) :
    (s.registerOn shelf m id).1 = !(shelf.of x).contains (s.nameIn x.name id) := by
  cases h : (shelf.of x).find? (s.nameIn x.name id) with
  | some other => rw [registerOn_of_taken (module_of hx) h, NameMap.contains, h]; rfl
  | none => rw [registerOn_of_free (module_of hx) h, NameMap.contains, h]; rfl

/-- Accepted or refused, after a function has come to a module its name is taken, and no other
name is. -/
theorem contains_registerOn (shelf : Shelf) (id : FunctionId) (hx : s.module? m = some x) :
    ∃ y, (s.registerOn shelf m id).2.module? m = some y ∧ y.name = x.name ∧
      ∀ key, (shelf.of y).contains key =
        (key == s.nameIn x.name id || (shelf.of x).contains key) := by
  have hx' : (s.modifyFunction id (·.stamped x.name)).module? m = some x := hx
  cases h : (shelf.of x).find? (s.nameIn x.name id) with
  | some other =>
    refine ⟨x, by rw [registerOn_of_taken (module_of hx) h]; exact hx', rfl, fun key => ?_⟩
    by_cases same : key = s.nameIn x.name id
    · rw [same, NameMap.contains, h, Option.isSome_some, Bool.or_true]
    · rw [beq_false_of_ne same, Bool.false_or]
  | none =>
    rw [registerOn_of_free (module_of hx) h]
    refine ⟨_, module?_modifyModule hx' _, Shelf.name_put, fun key => ?_⟩
    rw [Shelf.of_put_self]
    by_cases same : key = s.nameIn x.name id
    · rw [same, NameMap.contains, NameMap.find?_insert_self, beq_self_eq_true, Bool.true_or]
      rfl
    · rw [NameMap.contains, NameMap.find?_insert_of_ne _ _ same, beq_false_of_ne same,
        Bool.false_or]
      rfl

/-- A function is refused after another of its signature, and else fares as without the other. -/
theorem registerOn_registerOn (hx : s.module? m = some x) (hf : s.function? id = some f)
    (hg : s.function? other = some g) :
    ((s.registerOn shelf m id).2.registerOn shelf m other).1 =
      (!(s.signature g == s.signature f) && (s.registerOn shelf m other).1) := by
  obtain ⟨y, hy, hname, hcontains⟩ := contains_registerOn shelf id hx
  have hs := s.stamps_registerOn shelf m id
  have hkey : (modulePrefix (some x.name) ++ s.signature g ==
      modulePrefix (some x.name) ++ s.signature f) = (s.signature g == s.signature f) := by
    rw [Bool.eq_iff_iff, beq_iff_eq, beq_iff_eq, String.append_right_inj]
  rw [registerOn_fst hy, registerOn_fst hx, hs.nameIn, hname, hcontains, nameIn_of hf, nameIn_of hg,
    hkey, Bool.not_or]

/-- Equal types have one compact name if their labels agree, and with plain labels only then. Of two
overloads with equal argument types the second is refused if the labels agree, and else, with plain
labels, the first is not in its way. -/
theorem sameType_names (s : Store) :
    (∀ a b : Ty, a.sameType b = true →
      (a.sameLabels b = true → s.mangledType a = s.mangledType b) ∧
      (a.hasMarkedLabel = false → b.hasMarkedLabel = false →
        s.mangledType a = s.mangledType b → a.sameLabels b = true)) ∧
    ∀ (shelf : Shelf) (m : ModuleId) (x : Module) (id other : FunctionId) (f g : Function),
      s.module? m = some x → s.function? id = some f → s.function? other = some g →
      s.SameOverload f g →
        (s.SameArgLabels f g →
          ((s.registerOn shelf m id).2.registerOn shelf m other).1 = false) ∧
        (s.argumentLinks Ty.marksLabel f = false → s.argumentLinks Ty.marksLabel g = false →
          ¬ s.SameArgLabels f g →
          ((s.registerOn shelf m id).2.registerOn shelf m other).1 =
            (s.registerOn shelf m other).1) := by
  constructor
  · intro a b hsame
    refine ⟨mangledType_of_sameLabels s a b hsame, fun hplain hplain' he => ?_⟩
    have he := congrArg String.toList he
    exact (mangledType_cancel s a b hsame hplain hplain' (congrArg (· ++ []) he)).1
  · intro shelf m x id other f g hx hf hg hsame
    rw [registerOn_registerOn hx hf hg]
    constructor
    · intro hlabels
      rw [signature_of_sameArgLabels hsame hlabels, beq_self_eq_true, Bool.not_true,
        Bool.false_and]
    · intro hplain hplain' hlabels
      have hne : s.signature g ≠ s.signature f := fun he =>
        hlabels (sameArgLabels_of_signature hsame hplain hplain' he.symm)
      rw [beq_false_of_ne hne, Bool.not_false, Bool.true_and]

/-- An empty module and three functions of one name with equal arguments. The label in the type of
the third is another. -/
def pairs : Store where
  functions := { slots := #[some { name := "f", args := [⟨0⟩] },
    some { name := "f", args := [⟨1⟩] }, some { name := "f", args := [⟨2⟩] }] }
  vars := { slots := #[some { name := "a", type := .tuple [.ofBase .int] ["x"] },
    some { name := "b", type := (Ty.tuple [.ofBase .int] ["x"]).named "Single" },
    some { name := "c", type := .tuple [.ofBase .int] ["y"] }] }
  modules := { slots := #[some { name := "m" }] }

theorem sameType_names_pairs :
    ((pairs.registerOn .functions ⟨0⟩ ⟨0⟩).2.registerOn .functions ⟨0⟩ ⟨1⟩).1 = false ∧
      ((pairs.registerOn .functions ⟨0⟩ ⟨0⟩).2.registerOn .functions ⟨0⟩ ⟨2⟩).1 =
        (pairs.registerOn .functions ⟨0⟩ ⟨2⟩).1 ∧
      pairs.mangledType (pairs.var ⟨0⟩).type = pairs.mangledType (pairs.var ⟨1⟩).type ∧
      pairs.mangledType (pairs.var ⟨0⟩).type ≠ pairs.mangledType (pairs.var ⟨2⟩).type := by
  obtain ⟨htypes, hfunctions⟩ := sameType_names pairs
  have hsecond := hfunctions .functions ⟨0⟩ _ ⟨0⟩ ⟨1⟩ _ _ rfl rfl rfl
    ⟨rfl, .cons (by decide +kernel) .nil⟩
  have hthird := hfunctions .functions ⟨0⟩ _ ⟨0⟩ ⟨2⟩ _ _ rfl rfl rfl
    ⟨rfl, .cons (by decide +kernel) .nil⟩
  refine ⟨hsecond.1 (.cons (by decide +kernel) .nil), hthird.2 (by decide +kernel)
    (by decide +kernel) fun hlabels => ?_, (htypes _ _ (by decide +kernel)).1 (by decide +kernel),
    fun he => ?_⟩
  · cases hlabels with
    | cons hlabel _ => exact absurd hlabel (by decide +kernel)
  · have hlabels := (htypes _ _ (by decide +kernel)).2 (by decide +kernel) (by decide +kernel) he
    exact absurd hlabels (by decide +kernel)

/-- Two functions whose argument types are equal are both in the module, under two names. -/
theorem sameType_names_fail_pairs :
    (pairs.var ⟨0⟩).type.sameType (pairs.var ⟨2⟩).type = true ∧
      pairs.mangledType (pairs.var ⟨0⟩).type = "0<int>N<x>U" ∧
      pairs.mangledType (pairs.var ⟨2⟩).type = "0<int>N<y>U" ∧
      (pairs.registerOn .functions ⟨0⟩ ⟨0⟩).1 = true ∧
      ((pairs.registerOn .functions ⟨0⟩ ⟨0⟩).2.registerOn .functions ⟨0⟩ ⟨2⟩).1 = true := by
  decide +kernel

end Frontend.Store
