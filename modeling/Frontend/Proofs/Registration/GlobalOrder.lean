import Frontend.Proofs.Registration.AfterWalk

/-!
# The order of globals after a walk

A walk takes a replaced global out of its module and adds the replacement as a new one. So the
replacements stand behind all globals that were kept, in the order in which they were given. Each of
them stands in the place of the one that it replaced exactly if no kept global came after a replaced
one. The map of the module and the list of its globals stay together all the while.
-/

namespace Frontend

def Variable.mark (v : Variable) : String × Option String := (v.name, v.module?)

namespace Store

variable {s t u : Store} {m : ModuleId}

def varMark (s : Store) (id : VarId) : Mark := (s.vars.get? id).map Variable.mark

/-- Variables keep their names and stamps, and the module keeps what it knows of its globals. -/
structure KeepsGlobals (m : ModuleId) (s t : Store) : Prop where
  module? : (t.module? m).map Module.globalRegistry = (s.module? m).map Module.globalRegistry
  vars : s.vars.Keeps Variable.mark t.vars

namespace KeepsGlobals

theorem refl (m : ModuleId) (s : Store) : s.KeepsGlobals m s := ⟨rfl, .refl _ _⟩

theorem trans (h : s.KeepsGlobals m t) (h' : t.KeepsGlobals m u) : s.KeepsGlobals m u :=
  ⟨h'.module?.trans h.module?, h.vars.trans h'.vars⟩

theorem registry (h : s.KeepsGlobals m t) :
    (t.module m).globalRegistry = (s.module m).globalRegistry := read_module h.module?

theorem globals (h : s.KeepsGlobals m t) : (t.module m).globals = (s.module m).globals :=
  congrArg (·.2.1) h.registry

theorem globalOrder (h : s.KeepsGlobals m t) :
    (t.module m).globalOrder = (s.module m).globalOrder := congrArg (·.2.2) h.registry

theorem isSome (h : s.KeepsGlobals m t) : (t.module? m).isSome = (s.module? m).isSome := by
  have := congrArg Option.isSome h.module?
  rwa [Option.isSome_map, Option.isSome_map] at this

theorem modifyModule (n : ModuleId) {g : Module → Module}
    (hg : ∀ x, (g x).globalRegistry = x.globalRegistry) : s.KeepsGlobals m (s.modifyModule n g) :=
  ⟨map_modifyModule n hg, .refl _ s.vars⟩

end KeepsGlobals

/-- The map, the order and the names of the globals of a module fit together. -/
structure RegistersGlobals (s : Store) (m : ModuleId) : Prop where
  isSome : (s.module? m).isSome = true
  globals : Registered (s.module m).globals s.varMark (s.module m).globalOrder

theorem RegistersGlobals.of_keeps (h : s.RegistersGlobals m) (hk : s.KeepsGlobals m t) :
    t.RegistersGlobals m where
  isSome := hk.isSome.trans h.isSome
  globals := by
    rw [hk.globals, hk.globalOrder]
    exact h.globals.congr (h.globals.mark_eq fun a w => hk.vars.map_get? a w)

theorem var_name {id : VarId} {name : String} {stamp : Option String}
    (h : s.varMark id = some (name, stamp)) : (s.var id).name = name := by
  obtain ⟨x, hx, hmark⟩ := Option.map_eq_some_iff.1 h
  rw [var, hx]
  exact congrArg Prod.fst hmark

end Store

/-- A declaration is taken out of a map. -/
theorem Registered.erase {α : Type} {map : NameMap α} {mark : α → Mark} {front back : List α}
    {a : α} {name : String} {stamp : Option String} (h : Registered map mark (front ++ a :: back))
    (ha : mark a = some (name, stamp)) : Registered (map.erase name) mark (front ++ back) := by
  obtain ⟨hnot, hrest⟩ := List.nodup_cons.1 (List.nodup_middle.1 h.nodup)
  have hmem {b : α} (hb : b ∈ front ++ back) : b ∈ front ++ a :: back :=
    List.perm_middle.mem_iff.2 (.tail _ hb)
  have hfind : map.find? name = some a := by
    obtain ⟨name', _, hmark, hfind⟩ := h.filed a (by simp)
    rw [ha] at hmark
    cases hmark
    exact hfind
  refine ⟨fun b hb => ?_, fun key b hb => ?_, hrest⟩
  · obtain ⟨key, st, hkey, hfind'⟩ := h.filed b (hmem hb)
    refine ⟨key, st, hkey, ?_⟩
    rw [NameMap.find?_erase_of_ne, hfind']
    rintro rfl
    rw [hfind] at hfind'
    cases hfind'
    exact hnot hb
  · have hne : key ≠ name := by
      rintro rfl
      rw [NameMap.find?_erase_self] at hb
      cases hb
    rw [NameMap.find?_erase_of_ne _ hne] at hb
    obtain ⟨hlisted, st, hkey⟩ := h.listed key b hb
    refine ⟨?_, st, hkey⟩
    obtain rfl | hlisted := List.mem_cons.1 (List.perm_middle.mem_iff.1 hlisted)
    · rw [ha, Option.some.injEq, Prod.mk.injEq] at hkey
      exact absurd hkey.1.symm hne
    · exact hlisted

namespace Store

variable {s : Store} {m : ModuleId}

/-- A global is taken out of its module. -/
theorem RegistersGlobals.unregister {front back : List VarId} {id : VarId}
    (h : s.RegistersGlobals m) (horder : (s.module m).globalOrder = front ++ id :: back) :
    (s.unregisterVariable m id).RegistersGlobals m ∧
      ((s.unregisterVariable m id).module m).globalOrder = front ++ back := by
  have hreg := h.globals
  rw [horder] at hreg
  obtain ⟨name, stamp, hmark, -⟩ := hreg.filed id (by simp)
  have hnodup := List.nodup_cons.1 (List.nodup_middle.1 hreg.nodup)
  have hmodule := module_modifyModule h.isSome fun x =>
    { x with globals := x.globals.erase name, globalOrder := x.globalOrder.filter (· != id) }
  have horder' : ((s.unregisterVariable m id).module m).globalOrder = front ++ back := by
    rw [unregisterVariable, var_name hmark, hmodule]
    dsimp only
    rw [horder, List.filter_append, List.filter_cons_of_neg (by simp), ← List.filter_append,
      List.filter_eq_self]
    intro a ha
    rw [bne_iff_ne]
    rintro rfl
    exact hnodup.1 ha
  refine ⟨⟨(isSome_modifyModule _ _ _).trans h.isSome, ?_⟩, horder'⟩
  rw [horder', unregisterVariable, var_name hmark, hmodule]
  exact hreg.erase hmark

/-- A global is added to a module, behind all others. -/
theorem RegistersGlobals.register (id : VarId) (h : s.RegistersGlobals m)
    (hid : (s.vars.get? id).isSome = true) (hadded : (s.registerVariable m id).1 = true) :
    (s.registerVariable m id).2.RegistersGlobals m ∧
      ((s.registerVariable m id).2.module m).globalOrder = (s.module m).globalOrder ++ [id] := by
  obtain ⟨x, hx⟩ := Option.isSome_iff_exists.1 hid
  have hmark : s.varMark id = some (x.name, x.module?) := by rw [varMark, hx]; rfl
  unfold registerVariable at hadded ⊢
  rw [var_name hmark] at hadded ⊢
  dsimp only at hadded ⊢
  split at hadded
  · cases hadded
  rename_i hfree
  rw [if_neg hfree]
  have hfree : (s.module m).globals.find? x.name = none := by
    simpa only [NameMap.contains, Option.not_isSome_iff_eq_none] using hfree
  have hstamped (other : VarId) :
      (s.modifyVariable id fun v => { v with module? := some (s.module m).name }).varMark other =
        if other = id then some (x.name, some (s.module m).name) else s.varMark other := by
    rw [varMark, modifyVariable, Table.get?_modify]
    split
    · rename_i same
      rw [same, hx]
      rfl
    · rfl
  have hmodule := module_modifyModule
    (s := s.modifyVariable id fun v => { v with module? := some (s.module m).name }) h.isSome
    fun y => { y with globals := y.globals.insert x.name id, globalOrder := y.globalOrder ++ [id] }
  refine ⟨⟨(isSome_modifyModule _ _ _).trans h.isSome, ?_⟩, congrArg Module.globalOrder hmodule⟩
  rw [hmodule]
  exact h.globals.insert hfree hmark ((hstamped id).trans (if_pos rfl)) fun other hother =>
    (hstamped other).trans (if_neg hother)

end Store
def Visit.KeepsGlobals {σ : Type} (m : ModuleId) (st st' : Visit σ) : Prop :=
  st.store.KeepsGlobals m st'.store

structure GlobalAnswer where
  global : VarId
  answer : Rewrite VarId

namespace GlobalAnswer

variable {x : GlobalAnswer} {xs : List GlobalAnswer}

def kept? (x : GlobalAnswer) : Option VarId :=
  match x.answer with
  | .keep => some x.global
  | _ => none

def replacement? (x : GlobalAnswer) : Option VarId :=
  match x.answer with
  | .replace new => some new
  | _ => none

/-- What the answers leave, each replacement in the place of the global that it replaced. -/
def inPlace (xs : List GlobalAnswer) : List VarId :=
  xs.filterMap fun x => x.answer.apply x.global

/-- What the answers leave, all replacements behind the globals that were kept. -/
def behind (xs : List GlobalAnswer) : List VarId :=
  xs.filterMap kept? ++ xs.filterMap replacement?

/-- Nothing that was kept came after something that was replaced. -/
def ReplacedLast (xs : List GlobalAnswer) : Prop :=
  xs.Pairwise fun x y => x.replacement? ≠ none → y.kept? = none

theorem inPlace_of_noneKept (h : xs.filterMap kept? = []) :
    inPlace xs = xs.filterMap replacement? := by
  rw [List.filterMap_eq_nil_iff] at h
  refine List.filterMap_congr fun x hx => ?_
  have hkept := h x hx
  cases hanswer : x.answer with
  | keep => rw [kept?, hanswer] at hkept; cases hkept
  | replace new => rw [replacement?, hanswer, Rewrite.apply_replace]
  | remove => rw [replacement?, hanswer, Rewrite.apply_remove]

/-- The two orders are the same exactly if no kept global came after a replaced one. -/
theorem behind_eq_inPlace_iff (h : (behind xs).Nodup) :
    behind xs = inPlace xs ↔ ReplacedLast xs := by
  induction xs with
  | nil => simp [behind, inPlace, ReplacedLast]
  | cons x xs ih =>
    cases hanswer : x.answer with
    | keep =>
      have hk : x.kept? = some x.global := by rw [kept?, hanswer]
      have hr : x.replacement? = none := by rw [replacement?, hanswer]
      have hb : behind (x :: xs) = x.global :: behind xs := by simp [behind, hk, hr]
      rw [hb] at h ⊢
      have hi : inPlace (x :: xs) = x.global :: inPlace xs := by simp [inPlace, hanswer]
      rw [hi, List.cons_inj_right, ih (List.nodup_cons.1 h).2]
      simp [ReplacedLast, hr]
    | remove =>
      have hk : x.kept? = none := by rw [kept?, hanswer]
      have hr : x.replacement? = none := by rw [replacement?, hanswer]
      have hb : behind (x :: xs) = behind xs := by simp [behind, hk, hr]
      rw [hb] at h ⊢
      have hi : inPlace (x :: xs) = inPlace xs := by simp [inPlace, hanswer]
      rw [hi, ih h]
      simp [ReplacedLast, hr]
    | replace new =>
      have hk : x.kept? = none := by rw [kept?, hanswer]
      have hr : x.replacement? = some new := by rw [replacement?, hanswer]
      have hb : behind (x :: xs) = xs.filterMap kept? ++ new :: xs.filterMap replacement? := by
        simp [behind, hk, hr]
      have hi : inPlace (x :: xs) = new :: inPlace xs := by simp [inPlace, hanswer]
      rw [hb] at h ⊢
      rw [hi]
      cases hkept : xs.filterMap kept? with
      | nil =>
        rw [inPlace_of_noneKept hkept]
        have hnone := List.filterMap_eq_nil_iff.1 hkept
        refine iff_of_true rfl (List.pairwise_cons.2 ⟨fun y hy _ => hnone y hy, ?_⟩)
        exact List.pairwise_of_forall_mem_list fun _ _ y hy _ => hnone y hy
      | cons k ks =>
        -- The kept global comes first in one list, and the replacement in the other.
        refine iff_of_false (fun same => ?_) fun hlast => ?_
        · obtain rfl : k = new := (List.cons.inj same).1
          rw [hkept] at h
          exact (List.nodup_cons.1 h).1 (by simp)
        · have hk : k ∈ xs.filterMap kept? := by rw [hkept]; exact .head _
          obtain ⟨y, hy, hyk⟩ := List.mem_filterMap.1 hk
          have := (List.pairwise_cons.1 hlast).1 y hy (by rw [hr]; nofun)
          rw [hyk] at this
          cases this

end GlobalAnswer

namespace Visitor

variable {σ : Type} {v : Visitor σ} {m : ModuleId} {st st' : Visit σ} {r : PUnit}

section Others

variable (hv : v.Follows (Visit.KeepsGlobals m))

include hv

theorem Follows.walks : v.Walks m (Visit.KeepsGlobals m) where
  toFollows := hv
  modifyFunction st _ _ := ⟨rfl, .refl _ st.store.vars⟩
  modifyStruct st _ _ _ := ⟨rfl, .refl _ st.store.vars⟩
  modifyEnumeration st _ _ _ := ⟨rfl, .refl _ st.store.vars⟩
  modifyModule _ _ hg := .modifyModule m fun x => (hg x).2

theorem visitEnumerations_keepsGlobals :
    Moves (Visit.KeepsGlobals m) (v.visitEnumerations m) := by
  refine hv.bind hv.store fun _ => hv.bind (hv.forIn (fun id => ?_) _) fun _ => hv.pure _
  refine hv.bind (hv.moves_of_leadsTo (hv.leaveEnum id) (visitEnumeration_leadsTo hv.walks id))
    fun r => ?_
  cases r with
  | keep => exact hv.pure _
  | replace new =>
    refine hv.bind (.modifyStore fun st => ?_) fun _ => hv.pure _
    exact .modifyModule m fun _ => rfl
  | remove =>
    refine hv.bind (.modifyStore fun st => ?_) fun _ => hv.pure _
    exact .modifyModule m fun _ => rfl

theorem visitStructs_keepsGlobals : Moves (Visit.KeepsGlobals m) (v.visitStructs m) := by
  refine hv.bind hv.store fun _ => hv.bind (hv.forIn (fun id => ?_) _) fun _ => hv.pure _
  refine hv.bind (hv.moves_of_leadsTo (hv.leaveStruct id) (visitStruct_leadsTo hv.walks id))
    fun r => ?_
  cases r with
  | keep => exact hv.pure _
  | replace new =>
    refine hv.bind (.modifyStore fun st => ?_) fun _ => hv.pure _
    exact .modifyModule m fun _ => rfl
  | remove => exact hv.bind hv.store fun _ => hv.bind (.fail _) fun _ => hv.pure _

/-- Only the visit of the globals changes what the module knows of them. -/
theorem visitModule_globals {withGenerics : Bool}
    (h : (v.visitModule m withGenerics).run st = .ok (r, st')) :
    ∃ st₁ st₂, Visit.KeepsGlobals m st st₁ ∧ (v.visitGlobals m).run st₁ = .ok (⟨⟩, st₂) ∧
      Visit.KeepsGlobals m st₂ st' := by
  obtain ⟨s, st₁, hs, h⟩ := exists_of_bind h
  cases hs
  obtain ⟨_, st₁, h₁, h⟩ := exists_of_bind h
  obtain ⟨_, st₂, h₂, h⟩ := exists_of_bind h
  obtain ⟨_, st₃, h₃, h⟩ := exists_of_bind h
  obtain ⟨_, st₄, h₄, h⟩ := exists_of_bind h
  obtain ⟨_, st₅, h₅, h⟩ := exists_of_bind h
  obtain ⟨_, st₆, h₆, h⟩ := exists_of_bind h
  obtain ⟨_, st₇, h₇, h⟩ := exists_of_bind h
  refine ⟨st₆, st₇, ?_, h₇, ?_⟩
  · have before := hv.trans (hv.notice _ _ _ _ h₁) (visitEnumerations_keepsGlobals hv _ _ _ h₂)
    have before := hv.trans before (visitStructs_keepsGlobals hv _ _ _ h₃)
    have before := hv.trans before (visitAliases_moves hv.walks _ _ _ h₄)
    exact hv.trans (hv.trans before (hv.notice _ _ _ _ h₅)) (hv.notice _ _ _ _ h₆)
  · have hrest := hv.bind (visitFunctions_moves hv.walks) fun _ =>
      hv.notice (.programEnd (st.store.module m).name)
    refine hv.bind (hv.notice _) (fun _ => ?_) _ _ _ h
    cases withGenerics with
    | false => exact hrest
    | true => exact hv.bind (visitGenerics_moves hv.walks) fun _ => hrest

end Others

/-- A global has been visited, the hook has given an answer, and it has been carried out. -/
def GlobalStep (v : Visitor σ) (m : ModuleId) (x : GlobalAnswer) (st st' : Visit σ) : Prop :=
  ∃ st₁ st₂, Visit.KeepsGlobals m st st₁ ∧
    (v.leaveVariable .global x.global false).run st₁ = .ok (x.answer, st₂) ∧
    match x.answer with
    | .keep => st' = st₂
    | .replace new =>
      ((st₂.store.unregisterVariable m x.global).registerVariable m new).1 = true ∧
        st' = st₂.inStore ((st₂.store.unregisterVariable m x.global).registerVariable m new).2
    | .remove => st' = st₂.inStore (st₂.store.unregisterVariable m x.global)

theorem visitGlobals_steps (hv : v.Follows (Visit.KeepsGlobals m))
    (h : (v.visitGlobals m).run st = .ok (r, st')) :
    ∃ xs : List GlobalAnswer, xs.map (·.global) = (st.store.module m).globalOrder ∧
      Run (v.GlobalStep m) xs st st' := by
  obtain ⟨s, st₁, hs, h⟩ := exists_of_bind h
  cases hs
  obtain ⟨_, _, h, hend⟩ := exists_of_bind h
  cases hend
  refine (Run.of_loop (I := fun _ => True) (fun id st r st' _ hstep => ?_) trivial h).2
  obtain ⟨_, st₁, henter, hstep⟩ := exists_of_bind hstep
  obtain ⟨child, st₂, hchild, hstep⟩ := exists_of_bind hstep
  cases hchild
  obtain ⟨_, st₃, hvisit, hstep⟩ := exists_of_bind hstep
  obtain ⟨answer, st₄, hanswer, hstep⟩ := exists_of_bind hstep
  have hbefore : Visit.KeepsGlobals m st st₃ := hv.trans (hv.enterVariable _ _ _ _ _ _ henter)
    (hv.visitVariable (hv.visitIn _) _ _ _ _ _ hvisit)
  cases answer with
  | keep =>
    cases hstep
    exact ⟨rfl, trivial, ⟨id, .keep⟩, rfl, st₃, _, hbefore, hanswer, rfl⟩
  | replace new =>
    obtain ⟨_, st₅, hout, hstep⟩ := exists_of_bind hstep
    cases hout
    obtain ⟨_, st₆, hin, hstep⟩ := exists_of_bind hstep
    cases hstep
    obtain ⟨s, st₇, hs, hin⟩ := exists_of_bind hin
    cases hs
    dsimp only at hin
    split at hin
    · rename_i hadded
      cases hin
      exact ⟨rfl, trivial, ⟨id, .replace new⟩, rfl, st₃, st₄, hbefore, hanswer, hadded, rfl⟩
    · cases hin
  | remove =>
    obtain ⟨_, st₅, hout, hstep⟩ := exists_of_bind hstep
    cases hout
    cases hstep
    exact ⟨rfl, trivial, ⟨id, .remove⟩, rfl, st₃, st₄, hbefore, hanswer, rfl⟩

/-- A visitor that leaves names, stamps and the globals of the module alone. In a traversal that
begins with the store, it replaces globals by variables that exist. -/
structure ReplacesGlobals (v : Visitor σ) (m : ModuleId) (s : Store) : Prop where
  follows : v.Follows (Visit.KeepsGlobals m)
  exist : ∀ {id st new st'}, s.vars.Keeps Variable.name st.store.vars →
    (v.leaveVariable .global id false).run st = .ok (.replace new, st') →
      (st'.store.vars.get? new).isSome = true

theorem keeps_name {s t : Store} (h : s.vars.Keeps Variable.mark t.vars) :
    s.vars.Keeps Variable.name t.vars := by
  intro id a ha
  obtain ⟨b, hb, hmark⟩ := h id a ha
  exact ⟨b, hb, congrArg Prod.fst hmark⟩

theorem keeps_name_register (s : Store) (id : VarId) :
    s.vars.Keeps Variable.name (s.registerVariable m id).2.vars := by
  unfold Store.registerVariable
  dsimp only
  split
  · exact .refl _ _
  · exact .modify _ id fun _ => rfl

variable {s₀ : Store} {x : GlobalAnswer} {xs : List GlobalAnswer}

/-- One global is kept, taken out, or taken out for one that is added at the end. -/
theorem ReplacesGlobals.step (front back : List VarId) (hv : v.ReplacesGlobals m s₀)
    (h : v.GlobalStep m x st st')
    (hs : s₀.vars.Keeps Variable.name st.store.vars) (hreg : st.store.RegistersGlobals m)
    (horder : (st.store.module m).globalOrder = front ++ x.global :: back) :
    st'.store.RegistersGlobals m ∧ s₀.vars.Keeps Variable.name st'.store.vars ∧
      (st'.store.module m).globalOrder =
        front ++ x.kept?.toList ++ back ++ x.replacement?.toList := by
  obtain ⟨st₁, st₂, hbefore, hanswer, hcase⟩ := h
  obtain ⟨id, answer⟩ := x
  have hkept : st.store.KeepsGlobals m st₂.store :=
    hbefore.trans (hv.follows.leaveVariable _ _ _ _ _ _ hanswer)
  have hreg₂ := hreg.of_keeps hkept
  have hs₁ : s₀.vars.Keeps Variable.name st₁.store.vars := hs.trans (keeps_name hbefore.vars)
  have hs₂ : s₀.vars.Keeps Variable.name st₂.store.vars := hs.trans (keeps_name hkept.vars)
  have horder₂ := hkept.globalOrder.trans horder
  cases answer with
  | keep =>
    cases hcase
    exact ⟨hreg₂, hs₂, by simpa [GlobalAnswer.kept?, GlobalAnswer.replacement?] using horder₂⟩
  | remove =>
    cases hcase
    obtain ⟨hout, horder'⟩ := hreg₂.unregister horder₂
    exact ⟨hout, hs₂, by simpa [GlobalAnswer.kept?, GlobalAnswer.replacement?] using horder'⟩
  | replace new =>
    obtain ⟨hadded, rfl⟩ := hcase
    obtain ⟨hout, horder'⟩ := hreg₂.unregister horder₂
    have hnew : ((st₂.store.unregisterVariable m id).vars.get? new).isSome = true :=
      hv.exist hs₁ hanswer
    obtain ⟨hin, horder''⟩ := hout.register new hnew hadded
    refine ⟨hin, hs₂.trans (keeps_name_register (st₂.store.unregisterVariable m id) new), ?_⟩
    rw [horder'] at horder''
    simpa [GlobalAnswer.kept?, GlobalAnswer.replacement?] using horder''

/-- Globals visited one after the other; those in front have been kept, and those behind have been
added. -/
theorem ReplacesGlobals.run (front back : List VarId) (hv : v.ReplacesGlobals m s₀)
    (h : Run (v.GlobalStep m) xs st st')
    (hs : s₀.vars.Keeps Variable.name st.store.vars) (hreg : st.store.RegistersGlobals m)
    (horder : (st.store.module m).globalOrder = front ++ xs.map (·.global) ++ back) :
    st'.store.RegistersGlobals m ∧
      (st'.store.module m).globalOrder =
        front ++ xs.filterMap GlobalAnswer.kept? ++ back ++
          xs.filterMap GlobalAnswer.replacement? := by
  induction h generalizing front back with
  | nil => exact ⟨hreg, by simpa using horder⟩
  | @cons x xs _ _ _ hstep _ ih =>
    obtain ⟨hreg₁, hs₁, horder₁⟩ :=
      hv.step front (xs.map (·.global) ++ back) hstep hs hreg (by simpa using horder)
    obtain ⟨hreg', horder'⟩ := ih (front ++ x.kept?.toList) (back ++ x.replacement?.toList) hs₁
      hreg₁ (by simpa using horder₁)
    refine ⟨hreg', ?_⟩
    rw [horder']
    cases hk : x.kept? <;> cases hr : x.replacement? <;> simp [hk, hr]

def Answered (v : Visitor σ) (x : GlobalAnswer) : Prop :=
  ∃ st st', (v.leaveVariable .global x.global false).run st = .ok (x.answer, st')

/-- A visit of a module leaves the globals that were kept, and behind them the replacements. -/
theorem ReplacesGlobals.visitModule (hv : v.ReplacesGlobals m st.store)
    (hreg : st.store.RegistersGlobals m) {withGenerics : Bool}
    (h : (v.visitModule m withGenerics).run st = .ok (r, st')) :
    ∃ xs : List GlobalAnswer, xs.map (·.global) = (st.store.module m).globalOrder ∧
      (∀ x ∈ xs, v.Answered x) ∧ st'.store.RegistersGlobals m ∧
      (st'.store.module m).globalOrder = GlobalAnswer.behind xs := by
  obtain ⟨st₁, st₂, hbegin, hglobals, hend⟩ := visitModule_globals hv.follows h
  have hbegin : st.store.KeepsGlobals m st₁.store := hbegin
  have hend : st₂.store.KeepsGlobals m st'.store := hend
  obtain ⟨xs, hxs, hrun⟩ := visitGlobals_steps hv.follows hglobals
  obtain ⟨hreg₂, horder⟩ := hv.run [] [] hrun (keeps_name hbegin.vars)
    (hreg.of_keeps hbegin) (by simpa using hxs.symm)
  refine ⟨xs, hxs.trans hbegin.globalOrder, fun x hx => ?_, hreg₂.of_keeps hend, ?_⟩
  · obtain ⟨_, _, _, st₂, -, hanswer, -⟩ := hrun.of_mem hx
    exact ⟨_, st₂, hanswer⟩
  · rw [hend.globalOrder, horder]
    simp [GlobalAnswer.behind]

end Visitor

/-- The globals of a module that is held outlive a collection. -/
theorem Store.var?_collect {s : Store} (outside : Holdings) {m : ModuleId} {id : VarId}
    (h : m ∈ outside.modules) (hid : id ∈ (s.module m).globalOrder) :
    (s.collect outside).vars.get? id = s.vars.get? id := by
  cases hx : s.module? m with
  | none =>
    simp only [module, hx, Option.getD_none] at hid
    cases hid
  | some x =>
    simp only [module, hx, Option.getD_some] at hid
    refine read_collect (·.vars.get? id) h hx fun t ht => ?_
    have : id ∈ (Holdings.join (t.modules.toList.map (·.2.holdings))).vars :=
      Holdings.mem_vars_join.2 ⟨x.holdings, List.mem_map.2 ⟨(m, x), Table.mem_toList.2 ht, rfl⟩,
        List.mem_append_right _ hid⟩
    have hid : id ∈ (outside ++ t.holdings).vars := by
      simp only [holdings, Holdings.vars_append, List.mem_append]
      exact .inr (.inl (.inr this))
    simp only [sweep, Table.get?_owned, if_pos hid]

namespace Program

variable {p : Program} {m : ModuleId}

theorem registersGlobals_collect (h : m ∈ p.library) (hreg : p.store.RegistersGlobals m) :
    p.collect.store.RegistersGlobals m where
  isSome := by
    rw [← hreg.isSome]
    exact congrArg Option.isSome (Store.module?_collect (List.mem_append_left _ h))
  globals := by
    rw [module_collect h]
    refine hreg.globals.congr fun id hid => ?_
    exact congrArg (·.map Variable.mark)
      (Store.var?_collect ({ modules := p.library } ++ p.outside) (List.mem_append_left _ h) hid)

/-- A walk leaves the globals that were kept, in their order, and behind them the replacements in
the order in which they were given. The map of the module files exactly these, each under its own
name. They stand in the places of those that they replaced exactly if no kept global came after a
replaced one. -/
theorem walk_orders_globals {σ : Type} {v : Visitor σ} {p p' : Program} {user user' : σ}
    {withGenerics : Bool} (hv : v.ReplacesGlobals p.this p.store) (hthis : p.this ∈ p.library)
    (hreg : p.store.RegistersGlobals p.this)
    (hrun : (Program.walk v user withGenerics).run p = .ok (user', p')) :
    ∃ xs : List GlobalAnswer, xs.map (·.global) = (p.store.module p.this).globalOrder ∧
      (∀ x ∈ xs, v.Answered x) ∧
      (p'.store.module p.this).globalOrder =
        xs.filterMap GlobalAnswer.kept? ++ xs.filterMap GlobalAnswer.replacement? ∧
      p'.store.RegistersGlobals p.this ∧
      ((p'.store.module p.this).globalOrder = GlobalAnswer.inPlace xs ↔
        GlobalAnswer.ReplacedLast xs) := by
  obtain ⟨st, hvisit, rfl⟩ := walk_run hrun
  obtain ⟨xs, hxs, hanswers, hreg', horder⟩ := Visitor.ReplacesGlobals.visitModule hv hreg hvisit
  have hmodule : (p.inStore st.store).collect.store.module p.this = st.store.module p.this :=
    module_collect (p := p.inStore st.store) hthis
  rw [hmodule, horder]
  refine ⟨xs, hxs, hanswers, rfl, registersGlobals_collect hthis hreg', ?_⟩
  exact GlobalAnswer.behind_eq_inPlace_iff (horder ▸ hreg'.globals.nodup)

def threeVariables : Store where
  vars := ⟨#["a", "b", "c"].map fun name => some { name, type := .blank }⟩
  modules := ⟨#[some { name := "m" }]⟩

/-- A module with the globals `a` and `b`, and the variable `c` that the surroundings hold. -/
def twoGlobals : Program where
  store := ((threeVariables.registerVariable ⟨0⟩ ⟨0⟩).2.registerVariable ⟨0⟩ ⟨1⟩).2
  library := [⟨0⟩]
  this := ⟨0⟩
  outside := { vars := [⟨2⟩] }

def replaceFirst : Visitor Unit where
  leaveVariable place id _ :=
    pure (if place = .global ∧ id = ⟨0⟩ then .replace ⟨2⟩ else .keep)

theorem twoGlobals_registers : twoGlobals.store.RegistersGlobals ⟨0⟩ ∧
    (twoGlobals.store.module ⟨0⟩).globalOrder = [⟨0⟩, ⟨1⟩] := by
  have hempty : threeVariables.RegistersGlobals ⟨0⟩ := by
    refine ⟨rfl, nofun, fun name a h => ?_, .nil⟩
    cases h
  obtain ⟨hfirst, horder⟩ := hempty.register ⟨0⟩ (by decide +kernel) (by decide +kernel)
  obtain ⟨hsecond, horder'⟩ := hfirst.register ⟨1⟩ (by decide +kernel) (by decide +kernel)
  exact ⟨hsecond, by rw [twoGlobals, horder', horder]; rfl⟩

theorem replaceFirst_replaces : replaceFirst.ReplacesGlobals ⟨0⟩ twoGlobals.store := by
  have hpure {α : Type} (a : α) :
      Moves (Visit.KeepsGlobals (σ := Unit) ⟨0⟩) (Pure.pure a : VisitM Unit α) := by
    intro st _ st' h
    cases h
    exact .refl _ _
  refine ⟨⟨fun st => .refl _ st.store, fun h h' => Store.KeepsGlobals.trans h h',
    fun st id g hg => ⟨rfl, .modify st.store.vars id fun x => Prod.ext (hg x).1 (hg x).2⟩,
    fun _ => hpure _, fun _ => hpure _, fun _ _ => hpure _, fun _ _ => hpure _, fun _ _ => hpure _,
    fun _ _ => hpure _, fun _ _ _ => hpure _, fun _ _ _ => hpure _, fun _ => hpure _,
    fun _ => hpure _, fun _ => hpure _, fun _ => hpure _, fun _ => hpure _, fun _ => hpure _,
    fun _ => hpure _⟩, fun {id st new st'} hs h => ?_⟩
  simp only [replaceFirst] at h
  split at h
  · cases h
    exact hs.isSome (by decide +kernel)
  · cases h

theorem walk_twoGlobals :
    Ends (Program.walk replaceFirst () true) twoGlobals fun _ p' =>
      (p'.store.module ⟨0⟩).globalOrder = [⟨1⟩, ⟨2⟩] := by
  have h : (match (Program.walk replaceFirst () true).run twoGlobals with
      | .ok (_, p') => decide ((p'.store.module ⟨0⟩).globalOrder = [⟨1⟩, ⟨2⟩])
      | .error _ => false) = true := by decide +kernel
  split at h
  · rename_i p' hrun
    exact ⟨_, p', hrun, of_decide_eq_true h⟩
  · cases h

theorem walk_orders_globals_twoGlobals :
    Ends (Program.walk replaceFirst () true) twoGlobals fun _ p' =>
      p'.store.RegistersGlobals ⟨0⟩ ∧
        ∃ xs : List GlobalAnswer, xs.map (·.global) = [⟨0⟩, ⟨1⟩] ∧
          (p'.store.module ⟨0⟩).globalOrder =
            xs.filterMap GlobalAnswer.kept? ++ xs.filterMap GlobalAnswer.replacement? ∧
          ((p'.store.module ⟨0⟩).globalOrder = GlobalAnswer.inPlace xs ↔
            GlobalAnswer.ReplacedLast xs) := by
  obtain ⟨user', p', hrun, -⟩ := walk_twoGlobals
  obtain ⟨xs, hxs, -, horder, hreg, hlast⟩ :=
    walk_orders_globals replaceFirst_replaces (.head _) twoGlobals_registers.1 hrun
  exact ⟨user', p', hrun, hreg, xs, hxs.trans twoGlobals_registers.2, horder, hlast⟩

/-- The replacement of the first of two globals comes last. -/
theorem walk_moves_replacement :
    twoGlobals.store.RegistersGlobals ⟨0⟩ ∧
      replaceFirst.ReplacesGlobals ⟨0⟩ twoGlobals.store ∧
      (twoGlobals.store.module ⟨0⟩).globalOrder = [⟨0⟩, ⟨1⟩] ∧
      (∀ x ∈ ([⟨⟨0⟩, .replace ⟨2⟩⟩, ⟨⟨1⟩, .keep⟩] : List GlobalAnswer), replaceFirst.Answered x) ∧
      Ends (Program.walk replaceFirst () true) twoGlobals fun _ p' =>
        (p'.store.module ⟨0⟩).globalOrder = [⟨1⟩, ⟨2⟩] ∧
          (p'.store.module ⟨0⟩).globalOrder ≠
            GlobalAnswer.inPlace [⟨⟨0⟩, .replace ⟨2⟩⟩, ⟨⟨1⟩, .keep⟩] := by
  refine ⟨twoGlobals_registers.1, replaceFirst_replaces, twoGlobals_registers.2, ?_,
    walk_twoGlobals.mono fun _ p' h => ⟨h, by rw [h]; decide⟩⟩
  intro x hx
  rcases List.mem_cons.1 hx with rfl | hx
  · exact ⟨⟨{}, ()⟩, _, rfl⟩
  · rw [List.mem_singleton.1 hx]
    exact ⟨⟨{}, ()⟩, _, rfl⟩

end Program

end Frontend
