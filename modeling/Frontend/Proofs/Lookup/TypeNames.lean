import Frontend.Program.Names
import Frontend.Proofs.Lookup.Searching
import Frontend.Proofs.Traversal.Ends

/-!
# What a type name stands for

A type name is looked up four times: as a structure, an annotation, an enumeration and an alias. If
nothing is found in all, it stands for a type that is still to be declared. If one declaration is
found in all, it stands for that, unless this is an annotation that makes no type. In every other
case it is refused with one error, and nothing but the list of errors changes.
-/

namespace Frontend

inductive Meaning where
  | struct (id : StructId)
  | annot (id : AnnotId)
  | enumeration (id : EnumId)
  | aliased (t : Ty)

namespace Meaning

/-- Every declaration but an annotation that makes no type can be named as a type. -/
def IsType (s : Store) : Meaning → Prop
  | annot id => ∃ a, s.annot? id = some a ∧ a.isTypeAnnot = true
  | _ => True

/-- The type links to the declaration, and is placed at the span. -/
def Links (s : Store) (span : Span) : Meaning → Ty → Prop
  | struct id, t => t = { base := .struct, struct? := some id, span }
  | annot id, t => t = { base := .handle, annot? := some id, span }
  | enumeration id, t => ∃ e base, s.enumeration? id = some e ∧ e.storage? = some base ∧
      t = { base, enum? := some id, span }
  | aliased u, t => t = { u with span }

end Meaning

namespace Program

variable {p : Program} {span : Span} {name : String}

def meanings (p : Program) (name : String) : List Meaning :=
  (p.findStructs name).map .struct ++ (p.findAnnots name).map .annot ++
    (p.findEnumerations name).map .enumeration ++ (p.findAliases name).map .aliased

/-- The enumerations that the program sees are there, and their values have 8, 16 or 32 bits. -/
def EnumsFit (p : Program) : Prop :=
  ∀ m ∈ p.this :: p.library, ∀ id ∈ (p.store.module m).enumerations.values,
    ∃ e bits, p.store.enumeration? id = some e ∧ e.base.bits? = some bits ∧ bits ≤ 32

inductive Resolves (p : Program) (span : Span) (name : String) : Option Ty → Program → Prop
  | later (nothing : p.meanings name = []) :
      Resolves p span name (some { base := .aliased, aliasName := name, span }) p
  | only {d : Meaning} {t : Ty} (single : p.meanings name = [d]) (isType : d.IsType p.store)
      (links : d.Links p.store span t) : Resolves p span name (some t) p
  | refused {e : CompileError} (something : p.meanings name ≠ [])
      (unfit : ∀ d, p.meanings name = [d] → ¬ d.IsType p.store)
      (location : e.location = if span.isBuiltin then none else some span) :
      Resolves p span name none (p.report e)

theorem exists_storage {e : Enumeration} {bits : Nat} (h : e.base.bits? = some bits)
    (small : bits ≤ 32) : ∃ base, e.storage? = some base := by
  unfold Enumeration.storage?
  cases hb : e.base <;> rw [hb] at h <;> cases h <;> first | exact ⟨_, rfl⟩ | omega

theorem EnumsFit.exists_enumType (fits : p.EnumsFit) {id : EnumId}
    (hid : id ∈ p.findEnumerations name) :
    ∃ e base, p.store.enumeration? id = some e ∧ e.storage? = some base ∧
      p.store.enumType id = .ok { base, enum? := some id } := by
  unfold findEnumerations Store.findEnumerations at hid
  rw [Store.lookupIn_eq_flatMap, List.mem_flatMap] at hid
  obtain ⟨m, hm, hfind⟩ := hid
  have seen : m ∈ p.this :: p.library := by
    rcases Store.mem_library_of_searched hm with hm | hm
    · exact List.mem_cons_of_mem _ hm
    · rw [Option.some.inj hm]
      exact List.mem_cons_self
  obtain ⟨e, bits, he, hbits, small⟩ := fits m seen id
    (NameMap.mem_values.2 ⟨_, Option.mem_toList.1 hfind⟩)
  obtain ⟨base, hbase⟩ := exists_storage hbits small
  refine ⟨e, base, he, hbase, ?_⟩
  simp only [Store.enumType, he, hbase]

theorem length_meanings (p : Program) (name : String) : (p.meanings name).length =
    (p.findStructs name).length + (p.findAnnots name).length +
      (p.findEnumerations name).length + (p.findAliases name).length := by
  simp [meanings, Nat.add_assoc]

namespace Resolves

variable {e : CompileError}

/-- With more than one declaration the name is refused. -/
theorem of_several (h : 1 < (p.meanings name).length)
    (location : e.location = if span.isBuiltin then none else some span) :
    p.Resolves span name none (p.report e) := by
  refine .refused (fun nothing => ?_) (fun d single => ?_) location
  · rw [nothing, List.length_nil] at h
    omega
  · rw [single, List.length_singleton] at h
    omega

/-- One of the look-ups finds more than one declaration. -/
theorem of_more {α : Type} {found more : List α} {a : α} (h : found = a :: more)
    (some_more : more = [] → False) (hle : found.length ≤ (p.meanings name).length)
    (location : e.location = if span.isBuiltin then none else some span) :
    p.Resolves span name none (p.report e) := by
  apply of_several _ location
  have := List.length_pos_iff.2 some_more
  rw [h, List.length_cons] at hle
  omega

end Resolves

/-- Declarations of two kinds are more than one. -/
theorem length_of_categories
    (h : 1 < [!(p.findStructs name).isEmpty, !(p.findAnnots name).isEmpty,
      !(p.findEnumerations name).isEmpty, !(p.findAliases name).isEmpty].count true) :
    1 < (p.meanings name).length := by
  rw [length_meanings]
  cases hs : p.findStructs name <;> cases ha : p.findAnnots name <;>
    cases he : p.findEnumerations name <;> cases hl : p.findAliases name <;>
    simp [hs, ha, he, hl] at h ⊢ <;> omega

theorem others_of_single {a b c d : Bool} (h : ¬ 1 < [a, b, c, d].count true) :
    (a = true → b = false ∧ c = false ∧ d = false) ∧ (b = true → c = false ∧ d = false) ∧
      (c = true → d = false) := by
  revert a b c d
  decide

/-- Where declarations of one kind at most are found, those of the first kind leave no others. -/
theorem others_of_kind
    (h : ¬ 1 < [!(p.findStructs name).isEmpty, !(p.findAnnots name).isEmpty,
      !(p.findEnumerations name).isEmpty, !(p.findAliases name).isEmpty].count true) :
    (p.findStructs name ≠ [] →
      p.findAnnots name = [] ∧ p.findEnumerations name = [] ∧ p.findAliases name = []) ∧
    (p.findAnnots name ≠ [] → p.findEnumerations name = [] ∧ p.findAliases name = []) ∧
    (p.findEnumerations name ≠ [] → p.findAliases name = []) := by
  simpa only [Bool.not_eq_true', Bool.not_eq_false', List.isEmpty_iff,
    List.isEmpty_eq_false_iff] using others_of_single h

theorem isType_annot_iff {s : Store} {id : AnnotId} :
    ((s.annot? id).map (·.isTypeAnnot)).getD false = true ↔ (Meaning.annot id).IsType s := by
  unfold Meaning.IsType
  cases h : s.annot? id <;> simp [h]

/-- A type name that is looked up ends in one of three ways, and no way but one fits what is found
under it. -/
theorem makeType_ends (fits : p.EnumsFit) (span : Span) (name : String) :
    Ends (makeType span name) p (p.Resolves span name) := by
  unfold makeType
  refine .bind_run (a := p) rfl ?_
  dsimp only
  split
  · rename_i several
    exact ⟨none, _, rfl, .of_several (length_of_categories several) rfl⟩
  · rename_i single
    obtain ⟨structs, annots, enums⟩ := others_of_kind single
    have hlength := length_meanings p name
    -- the kinds in turn: of each either one declaration, or more, or none
    split
    · rename_i id hs
      obtain ⟨ha, he, hl⟩ := structs (by rw [hs]; exact List.cons_ne_nil _ _)
      refine .pure (.only (d := .struct id) ?_ trivial rfl)
      rw [meanings, hs, ha, he, hl]
      rfl
    · rename_i more hs
      exact ⟨none, _, rfl, .of_more hs more (by omega) rfl⟩
    · rename_i id hs ha
      obtain ⟨he, hl⟩ := annots (by rw [ha]; exact List.cons_ne_nil _ _)
      have found : p.meanings name = [.annot id] := by
        rw [meanings, hs, ha, he, hl]
        rfl
      split
      · rename_i isType
        exact .pure (.only found (isType_annot_iff.1 isType) rfl)
      · rename_i noType
        refine ⟨none, _, rfl, .refused ?_ (fun d hd isType => ?_) rfl⟩
        · rw [found]
          exact List.cons_ne_nil _ _
        · cases found.symm.trans hd
          exact noType (isType_annot_iff.2 isType)
    · rename_i more _ ha
      exact ⟨none, _, rfl, .of_more ha more (by omega) rfl⟩
    · rename_i id hs ha he
      have hl := enums (by rw [he]; exact List.cons_ne_nil _ _)
      have hmem : id ∈ p.findEnumerations name := by
        rw [he]
        exact List.mem_cons_self
      obtain ⟨e, base, hid, hbase, hok⟩ := fits.exists_enumType hmem
      rw [hok]
      refine ⟨_, p, rfl, .only (d := .enumeration id) ?_ trivial ⟨e, base, hid, hbase, rfl⟩⟩
      rw [meanings, hs, ha, he, hl]
      rfl
    · rename_i more _ _ he
      exact ⟨none, _, rfl, .of_more he more (by omega) rfl⟩
    · rename_i t hs ha he hl
      refine .pure (.only (d := .aliased t) ?_ trivial rfl)
      rw [meanings, hs, ha, he, hl]
      rfl
    · rename_i more _ _ _ hl
      exact ⟨none, _, rfl, .of_more hl more (by omega) rfl⟩
    · rename_i hs ha he hl
      refine .pure (.later ?_)
      rw [meanings, hs, ha, he, hl]
      rfl

/-- A type name gives a type exactly if nothing is found under it, or one declaration that can be
named as a type. In the first case the type is to be declared later, in the second it links to the
declaration, and in both the program stays as it is. Otherwise one error is reported at the place of
the name. No declaration changes. -/
theorem makeType_resolves (fits : p.EnumsFit) (span : Span) (name : String) :
    Ends (makeType span name) p fun answer p' =>
      (answer.isSome = true ↔
        p.meanings name = [] ∨ ∃ d, p.meanings name = [d] ∧ d.IsType p.store) ∧
      (p.meanings name = [] →
        answer = some { base := .aliased, aliasName := name, span }) ∧
      (∀ d t, p.meanings name = [d] → answer = some t → d.Links p.store span t) ∧
      (answer.isSome = true → p' = p) ∧
      (answer = none → ∃ e : CompileError, p' = p.report e ∧
        e.location = if span.isBuiltin then none else some span) ∧
      p'.store = p.store ∧ p'.library = p.library := by
  refine (makeType_ends fits span name).mono fun answer p' h => ?_
  cases h with
  | later nothing =>
    refine ⟨iff_of_true rfl (.inl nothing), fun _ => rfl, fun d t single => ?_, fun _ => rfl,
      nofun, rfl, rfl⟩
    rw [nothing] at single
    cases single
  | only single isType links =>
    refine ⟨iff_of_true rfl (.inr ⟨_, single, isType⟩), fun nothing => ?_, fun d t hd ht => ?_,
      fun _ => rfl, nofun, rfl, rfl⟩
    · rw [single] at nothing
      cases nothing
    · cases single.symm.trans hd
      cases ht
      exact links
  | refused something unfit location =>
    refine ⟨iff_of_false nofun ?_, fun nothing => absurd nothing something, nofun, nofun,
      fun _ => ⟨_, rfl, location⟩, rfl, rfl⟩
    rintro (nothing | ⟨d, single, isType⟩)
    · exact something nothing
    · exact unfit d single isType

/-- A program with a structure `Point` in its own module and another one in a second module, which
has an enumeration `Color` too. -/
def twoPoints : Program where
  store :=
    { structs := { slots := #[some { name := "Point" }, some { name := "Point" }] }
      enumerations := { slots := #[some { name := "Color", base := .uint8 }] }
      modules := { slots := #[
        some { name := "", structs := NameMap.empty.insert "Point" ⟨0⟩ },
        some { name := "geo", structs := NameMap.empty.insert "Point" ⟨1⟩,
               enumerations := NameMap.empty.insert "Color" ⟨0⟩ }] } }
  library := [⟨0⟩, ⟨1⟩]
  this := ⟨0⟩

theorem enumsFit_twoPoints : twoPoints.EnumsFit := by
  intro m hm id hid
  have hm : m = ⟨0⟩ ∨ m = ⟨1⟩ := by simpa [twoPoints] using hm
  rcases hm with rfl | rfl
  · cases hid
  · cases List.mem_singleton.1 hid
    exact ⟨_, 8, rfl, rfl, by decide⟩

/-- The name `Color` gives the type of the enumeration, `geo::Point` the structure of the module,
and `Point` is refused with one error. -/
theorem makeType_resolves_twoPoints :
    twoPoints.EnumsFit ∧
      Ends (makeType .builtin "Color") twoPoints (fun answer p' =>
        answer = some { base := .enum8, enum? := some ⟨0⟩ } ∧ p' = twoPoints) ∧
      Ends (makeType .builtin "geo::Point") twoPoints (fun answer p' =>
        answer = some { base := .struct, struct? := some ⟨1⟩ } ∧ p' = twoPoints) ∧
      Ends (makeType .builtin "Point") twoPoints (fun answer p' =>
        answer = none ∧ ∃ e, p'.errors = [e]) := by
  have fits := enumsFit_twoPoints
  have color : twoPoints.meanings "Color" = [.enumeration ⟨0⟩] := by rfl
  have point : twoPoints.meanings "geo::Point" = [.struct ⟨1⟩] := by rfl
  have points : twoPoints.meanings "Point" = [.struct ⟨0⟩, .struct ⟨1⟩] := by rfl
  refine ⟨fits, (makeType_resolves fits .builtin "Color").mono ?_,
    (makeType_resolves fits .builtin "geo::Point").mono ?_,
    (makeType_resolves fits .builtin "Point").mono ?_⟩
  · rintro answer p' ⟨answers, -, links, same, -⟩
    have isSome := answers.2 (.inr ⟨_, color, trivial⟩)
    obtain ⟨t, ht⟩ := Option.isSome_iff_exists.1 isSome
    obtain ⟨e, base, he, hbase, rfl⟩ := links _ t color ht
    cases he
    cases hbase
    exact ⟨ht, same isSome⟩
  · rintro answer p' ⟨answers, -, links, same, -⟩
    have isSome := answers.2 (.inr ⟨_, point, trivial⟩)
    obtain ⟨t, ht⟩ := Option.isSome_iff_exists.1 isSome
    exact ⟨ht.trans (congrArg some (links _ t point ht)), same isSome⟩
  · rintro answer p' ⟨answers, -, -, -, refused, -⟩
    have none : answer = none := by
      rw [← Option.not_isSome_iff_eq_none, answers, points]
      simp
    obtain ⟨e, rfl, -⟩ := refused none
    exact ⟨none, e, rfl⟩

end Program

end Frontend
