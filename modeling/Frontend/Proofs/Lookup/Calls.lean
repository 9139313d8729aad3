import Frontend.Program.Names
import Frontend.Proofs.Lookup.Searching

/-!
# Which factories a call chooses from

A call by a name becomes the node of the only factory for the name, and stays a plain call if there
is none or more than one; the latter is reported. It takes the factories from every module of the
qualifier, and from all modules if the qualifier is empty or a star. A look-up of the name searches
at most one of these modules when there is a qualifier. So the two agree exactly if the modules that
the look-up leaves out have no factory for the name.
-/

namespace Frontend.Program

variable {p : Program} {name : String} {m : ModuleId}

def findCalls (p : Program) (name : String) : List CallFactory :=
  p.store.findCalls p.library (some p.this) name

def searched (p : Program) (name : String) : List ModuleId :=
  p.store.searched p.library (some p.this) name

def asked (p : Program) (name : String) : List ModuleId :=
  p.store.modulesNamed p.library ((splitName name).1.getD "*")

/-- The factory that a module has for a call by the name, whatever the qualifier. -/
def factoryIn? (p : Program) (name : String) (m : ModuleId) : Option CallFactory :=
  (p.store.module m).calls.find? (splitName name).2

inductive Chooses (p : Program) (span : Span) (name : String) :
    List CallFactory → Expr × Program → Prop
  | unknown : Chooses p span name [] (.ofNode span (.call name [] none), p)
  | builtin (factory : CallFactory) : Chooses p span name [factory] (factory.make span, p)
  | ambiguous {factories : List CallFactory} {e : CompileError} (several : 1 < factories.length)
      (kind : e.kind = .functionNotFound)
      (location : e.location = if span.isBuiltin then none else some span) :
      Chooses p span name factories (.ofNode span (.call name [] none), p.report e)

theorem chooses_makeCall (p : Program) (span : Span) (name : String) :
    p.Chooses span name (p.callFactories name) (p.makeCall span name) := by
  unfold makeCall
  cases p.callFactories name with
  | nil => exact .unknown
  | cons factory rest =>
    cases rest with
    | nil => exact .builtin factory
    | cons => exact .ambiguous (by simp) rfl rfl

theorem callFactories_eq (p : Program) (name : String) :
    p.callFactories name = (p.asked name).flatMap fun m => (p.factoryIn? name m).toList := rfl

theorem findCalls_eq (p : Program) (name : String) :
    p.findCalls name = (p.searched name).flatMap fun m => (p.factoryIn? name m).toList := by
  unfold findCalls Store.findCalls
  rw [Store.lookupIn_eq_flatMap]
  rfl

theorem asked_of_plain (h : (splitName name).1 = none) : p.asked name = p.library := by
  unfold asked Store.modulesNamed
  rw [h, Option.getD_none, List.filter_eq_self]
  intro m _
  rfl

theorem mem_asked {qualifier : String} (h : (splitName name).1 = some qualifier) :
    m ∈ p.asked name ↔
      m ∈ p.library ∧ (qualifier = "*" ∨ qualifier = "" ∨ p.moduleName m = qualifier) := by
  unfold asked Store.modulesNamed
  rw [h, Option.getD_some, List.mem_filter]
  simp [moduleName, or_assoc]

theorem searched_of_plain (h : (splitName name).1 = none) : p.searched name = p.library := by
  rw [searched, Store.searched, h]

/-- A name with a qualifier is searched for in the program's own module if the qualifier is empty,
and else in the first module of the qualifier. -/
theorem searched_of_qualifier {qualifier : String} (h : (splitName name).1 = some qualifier) :
    p.searched name =
      (if qualifier = "" then some p.this else p.findModule? qualifier).toList := by
  unfold searched Store.searched
  rw [h]
  by_cases empty : qualifier = ""
  · subst empty
    rfl
  · have nonempty : ¬ qualifier.isEmpty = true := by simpa using empty
    simp only [if_neg empty, if_neg nonempty]
    rfl

/-- A call asks every module that a look-up searches. -/
theorem searched_sublist_asked (this : p.this ∈ p.library) (name : String) :
    (p.searched name).Sublist (p.asked name) := by
  cases h : (splitName name).1 with
  | none => rw [asked_of_plain h, searched_of_plain h]
  | some qualifier =>
    rw [searched_of_qualifier h]
    by_cases empty : qualifier = ""
    · rw [if_pos empty]
      exact List.singleton_sublist.2 ((mem_asked h).2 ⟨this, .inr (.inl empty)⟩)
    · rw [if_neg empty]
      cases hfirst : p.findModule? qualifier with
      | none => exact List.nil_sublist _
      | some first =>
        obtain ⟨hmem, hname⟩ := Store.module_of_findModule? hfirst
        exact List.singleton_sublist.2 ((mem_asked h).2 ⟨hmem, .inr (.inr hname)⟩)

theorem asked_nodup (nodup : p.library.Nodup) (name : String) : (p.asked name).Nodup :=
  nodup.filter _

/-- With distinct module names a call asks no other module than a look-up searches, unless the
qualifier is empty or a star. -/
theorem asked_subset_searched (distinct : p.moduleNames.Nodup)
    (h : ∀ qualifier, (splitName name).1 = some qualifier → qualifier ≠ "" ∧ qualifier ≠ "*")
    (hm : m ∈ p.asked name) : m ∈ p.searched name := by
  cases hq : (splitName name).1 with
  | none =>
    rw [searched_of_plain hq]
    rwa [asked_of_plain hq] at hm
  | some qualifier =>
    obtain ⟨nonempty, nostar⟩ := h qualifier hq
    obtain ⟨hm, hname⟩ := (mem_asked hq).1 hm
    have hname : p.moduleName m = qualifier := (hname.resolve_left nostar).resolve_left nonempty
    rw [searched_of_qualifier hq, if_neg nonempty, Option.mem_toList, ← hname]
    exact Store.findModule?_of_distinct distinct hm

/-- A call by a name chooses among the factories of the modules that it asks, and these are at least
the ones that a look-up of the name finds. They are exactly these if and only if no module that the
look-up leaves out has a factory for the name. With distinct module names that is so for every name
but those with an empty qualifier or a star. -/
theorem callFactories_eq_findCalls_iff (this : p.this ∈ p.library) (nodup : p.library.Nodup)
    (name : String) :
    (∀ span, p.Chooses span name (p.callFactories name) (p.makeCall span name)) ∧
      (p.findCalls name).Sublist (p.callFactories name) ∧
      (p.callFactories name = p.findCalls name ↔
        ∀ m ∈ p.asked name, m ∉ p.searched name → p.factoryIn? name m = none) ∧
      (p.moduleNames.Nodup →
        (∀ qualifier, (splitName name).1 = some qualifier → qualifier ≠ "" ∧ qualifier ≠ "*") →
          p.callFactories name = p.findCalls name) := by
  have hsub := searched_sublist_asked this name
  have agrees : p.callFactories name = p.findCalls name ↔
      ∀ m ∈ p.asked name, m ∉ p.searched name → p.factoryIn? name m = none := by
    rw [callFactories_eq, findCalls_eq, flatMap_eq_of_sublist_iff hsub (asked_nodup nodup name)]
    simp only [Option.toList_eq_nil_iff]
  refine ⟨fun span => p.chooses_makeCall span name, ?_, agrees, fun distinct hq => ?_⟩
  · rw [callFactories_eq, findCalls_eq]
    exact hsub.flatMap _
  · apply agrees.2
    intro m hm left_out
    exact absurd (asked_subset_searched distinct hq hm) left_out

/-- A program whose own module and another one have factories for `spawn`. -/
def spawning : Program where
  store :=
    { modules := { slots := #[
        some { name := "game", calls := NameMap.empty.insert "spawn" .null },
        some { name := "alpha", calls := NameMap.empty.insert "spawn" (.call "create") }] } }
  library := [⟨0⟩, ⟨1⟩]
  this := ⟨0⟩

/-- A call by `alpha::spawn` chooses from what a look-up finds, and one by `::spawn` does not. -/
theorem callFactories_eq_findCalls_iff_spawning :
    spawning.this ∈ spawning.library ∧ spawning.library.Nodup ∧ spawning.moduleNames.Nodup ∧
      (splitName "alpha::spawn").1 = some "alpha" ∧
      spawning.callFactories "alpha::spawn" = spawning.findCalls "alpha::spawn" ∧
      spawning.callFactories "::spawn" ≠ spawning.findCalls "::spawn" := by
  have this : spawning.this ∈ spawning.library := by decide
  have nodup : spawning.library.Nodup := by decide
  have distinct : spawning.moduleNames.Nodup := by decide
  have split : (splitName "alpha::spawn").1 = some "alpha" := by decide
  obtain ⟨-, -, -, agrees⟩ := callFactories_eq_findCalls_iff this nodup "alpha::spawn"
  obtain ⟨-, -, differs, -⟩ := callFactories_eq_findCalls_iff this nodup "::spawn"
  refine ⟨this, nodup, distinct, split, agrees distinct fun qualifier h => ?_, fun heq => ?_⟩
  · cases split.symm.trans h
    decide
  · exact absurd (differs.1 heq) (by decide)

/-- An empty qualifier stands for the program's own module in a look-up and for every module in a
call: in a new program nothing is found for `::assert`, and the call becomes the builtin. -/
theorem makeCall_strays_emptyQualifier :
    Program.new.findCalls "::assert" = [] ∧
      Program.new.callFactories "::assert" = [.looksLike "assert" .assert] ∧
      ¬ Program.new.Chooses .builtin "::assert" (Program.new.findCalls "::assert")
        (Program.new.makeCall .builtin "::assert") := by
  have found : Program.new.findCalls "::assert" = [] := by decide +kernel
  have offered : Program.new.callFactories "::assert" = [.looksLike "assert" .assert] := by
    set_option maxRecDepth 4000 in rfl
  refine ⟨found, offered, ?_⟩
  rw [found, makeCall, offered]
  intro h
  cases h

end Frontend.Program
