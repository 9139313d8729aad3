import Frontend.Proofs.Optimizer.Firing
import Frontend.Proofs.Optimizer.Unused

/-!
# What is left for a second time

After a collection there is nothing to drop, and marks of what is used change nothing about that.
After a removal that took nothing out of the module another one finds the same symbols, all marked,
and takes nothing out either. A rule that applies nowhere applies nowhere in a part of the store.
-/

namespace Frontend

theorem Table.count_owned_le {kind : ObjectKind} {α : Type} (t : Table kind α)
    (ids : List (Id kind)) : (t.owned ids).count ≤ t.count := by
  rw [Table.count_eq_length, Table.count_eq_length, Table.owned, Table.toList_restrict]
  exact List.length_filter_le _ _

theorem Table.Agree.owned {kind : ObjectKind} {α : Type} {T : α → α → Prop} {t t' : Table kind α}
    (h : Table.Agree T t t') (ids : List (Id kind)) :
    Table.Agree T (t.owned ids) (t'.owned ids) := by
  have size (t : Table kind α) : (t.owned ids).slots.size = t.slots.size := by
    simp [Table.owned, Table.restrict]
  refine ⟨by rw [size, size, h.1], fun id => ?_⟩
  rw [Table.get?_owned, Table.get?_owned]
  split
  · exact h.2 id
  · exact .none

namespace Store

variable {s s' t : Store} {outside : Holdings} {m : ModuleId}

section Collections

def Settled (s : Store) (outside : Holdings) : Prop := (s.sweep outside).count = s.count

theorem count_sweep_le (s : Store) (outside : Holdings) : (s.sweep outside).count ≤ s.count := by
  have := Table.count_owned_le s.functions (outside ++ s.holdings).functions
  have := Table.count_owned_le s.structs (outside ++ s.holdings).structs
  have := Table.count_owned_le s.enumerations (outside ++ s.holdings).enumerations
  have := Table.count_owned_le s.annots (outside ++ s.holdings).annots
  have := Table.count_owned_le s.vars (outside ++ s.holdings).vars
  have := Table.count_owned_le s.modules (outside ++ s.holdings).modules
  have := Table.count_owned_le s.rewriters (outside ++ s.holdings).rewriters
  simp only [count, sweep]
  omega

theorem Settled.collect (h : s.Settled outside) : s.collect outside = s := by
  unfold Store.collect sweepMany
  exact if_pos h

theorem settled_sweepMany (rounds : Nat) (h : s.count < rounds) :
    (sweepMany outside rounds s).Settled outside := by
  induction rounds generalizing s with
  | zero => omega
  | succ rounds ih =>
    rw [sweepMany]
    split
    · assumption
    · have := count_sweep_le s outside
      exact ih (by omega)

theorem settled_collect (s : Store) (outside : Holdings) : (s.collect outside).Settled outside :=
  settled_sweepMany _ (Nat.lt_succ_self _)

namespace Marked

theorem symm (h : s.Marked s') : s'.Marked s where
  functions := h.functions.symm <| by
    rintro f _ ⟨_, rfl⟩
    exact ⟨f.used, rfl⟩
  structs := h.structs.symm
  enumerations := h.enumerations.symm
  annots := h.annots.symm
  vars := h.vars.symm <| by
    rintro x _ ⟨_, rfl⟩
    exact ⟨x.used, rfl⟩
  modules := h.modules.symm
  rewriters := h.rewriters.symm

theorem count (h : s.Marked s') : s'.count = s.count := by
  simp only [Store.count, h.functions.count, h.vars.count, h.structs, h.enumerations, h.annots,
    h.modules, h.rewriters]

/-- Marks own nothing. -/
theorem holdings (h : s.Marked s') : s'.holdings = s.holdings := by
  have functions : s'.functions.toList.map (fun x => x.2.holdings) =
      s.functions.toList.map fun x => x.2.holdings := by
    have := h.functions.map_toList (g := Function.holdings) <| by
      rintro f _ ⟨_, rfl⟩
      rfl
    simpa [Function.comp_def] using congrArg (List.map Prod.snd) this
  have vars : s'.vars.toList.map (fun x => x.2.holdings) =
      s.vars.toList.map fun x => x.2.holdings := by
    have := h.vars.map_toList (g := Variable.holdings) <| by
      rintro x _ ⟨_, rfl⟩
      rfl
    simpa [Function.comp_def] using congrArg (List.map Prod.snd) this
  unfold Store.holdings
  rw [functions, vars, h.structs, h.enumerations, h.annots, h.modules, h.rewriters]

theorem sweep (h : s.Marked s') (outside : Holdings) :
    (s.sweep outside).Marked (s'.sweep outside) := by
  unfold Store.sweep
  rw [h.holdings]
  exact ⟨h.functions.owned _, by rw [h.structs], by rw [h.enumerations], by rw [h.annots],
    h.vars.owned _, by rw [h.modules], by rw [h.rewriters]⟩

theorem settled (h : s.Marked s') (hs : s.Settled outside) : s'.Settled outside := by
  unfold Settled
  rw [(h.sweep outside).count, h.count]
  exact hs

end Marked

end Collections

section Parts

/-- What is in one store is in the other, up to marks of what is used. -/
structure Within (t s : Store) : Prop where
  functions : ∀ id f', t.function? id = some f' →
    ∃ f used, s.function? id = some f ∧ f' = { f with used }
  inits : ∀ v i, (t.var v).init = some i → (s.var v).init = some i
  structs : t.structs.PartOf s.structs
  enumerations : t.enumerations.PartOf s.enumerations
  modules : t.modules.PartOf s.modules

theorem PartOf.within (h : t.PartOf s) : t.Within s where
  functions id f' hf' := ⟨f', f'.used, h.functions id f' hf', rfl⟩
  inits _ _ hi := var_of_partOf h hi
  structs := h.structs
  enumerations := h.enumerations
  modules := h.modules

theorem Marked.within (h : s.Marked t) : t.Within s where
  functions id f' hf' := by
    obtain ⟨f, hf, used, hused⟩ := h.functions.of_get? hf'
    exact ⟨f, used, hf, hused⟩
  inits v i hi := (h.init v).symm.trans hi
  structs := by
    rw [h.structs]
    exact fun _ _ hx => hx
  enumerations := by
    rw [h.enumerations]
    exact fun _ _ hx => hx
  modules := by
    rw [h.modules]
    exact fun _ _ hx => hx

namespace Within

variable {e x : Expr} {rule : Expr → Option Expr}

theorem meets (h : t.Within s) (hx : t.Meets e x) : s.Meets e x := by
  induction hx with
  | here e => exact .here e
  | child hc _ ih => exact .child hc ih
  | init hd hi _ ih => exact .init hd (h.inits _ _ hi) ih

theorem usedIn {d : Symbol} (h : t.Within s) (hd : t.UsedIn e d) : s.UsedIn e d := by
  obtain ⟨x, hx, hd⟩ := hd
  exact ⟨x, h.meets hx, hd⟩

theorem hasSymbol {d : Symbol} (h : t.Within s) (hd : t.hasSymbol d = true) :
    s.hasSymbol d = true := by
  cases d with
  | var id => rfl
  | function id =>
    unfold Store.hasSymbol Table.isAlive at hd ⊢
    obtain ⟨f', hf'⟩ := Option.isSome_iff_exists.1 hd
    obtain ⟨f, _, hf, _⟩ := h.functions id f' hf'
    exact Option.isSome_iff_exists.2 ⟨f, hf⟩

theorem uses {a b : Symbol} (h : t.Within s) (hu : t.Uses a b) : s.Uses a b := by
  cases hu with
  | body hf hb hd alive =>
    obtain ⟨f, _, hs, rfl⟩ := h.functions _ _ hf
    exact .body hs hb (h.usedIn hd) (h.hasSymbol alive)
  | argument hf ha hi hd alive =>
    obtain ⟨f, _, hs, rfl⟩ := h.functions _ _ hf
    exact .argument hs ha (h.inits _ _ hi) (h.usedIn hd) (h.hasSymbol alive)
  | initializer hi hd alive => exact .initializer (h.inits _ _ hi) (h.usedIn hd) (h.hasSymbol alive)

theorem used {roots : List Symbol} {a : Symbol} (h : t.Within s) (hu : t.Used roots a) :
    s.Used roots a := by
  induction hu with
  | root hx => exact .root hx
  | use _ hu ih => exact .use ih (h.uses hu)

/-- A rule that does not look at the store applies where it applied. -/
theorem firesIn (h : t.Within s) (hf : t.FiresIn (fun _ => rule) e) :
    s.FiresIn (fun _ => rule) e := by
  obtain ⟨x, hx, hd⟩ := hf
  exact ⟨x, h.meets hx, hd⟩

theorem firesInVar {id : VarId} (h : t.Within s) (hf : t.FiresInVar (fun _ => rule) id) :
    s.FiresInVar (fun _ => rule) id := by
  obtain ⟨i, hi, hf⟩ := hf
  exact ⟨i, h.inits _ _ hi, h.firesIn hf⟩

theorem firesInEnum {id : EnumId} (h : t.Within s) (hf : t.FiresInEnum (fun _ => rule) id) :
    s.FiresInEnum (fun _ => rule) id := by
  obtain ⟨y, hy, e, he, x, hx, hd⟩ := hf
  have meets (s : Store) (f) : (s.modifyEnumeration id f).Meets e x ↔ s.Meets e x :=
    ⟨.of_vars_eq rfl, .of_vars_eq rfl⟩
  rw [meets] at hx
  cases hget : t.enumeration? id with
  | none =>
    rw [hget] at hy
    cases hy
  | some a =>
    rw [hget] at hy
    refine ⟨y, ?_, e, he, x, (meets _ _).2 (h.meets hx), hd⟩
    rw [show s.enumeration? id = some a from h.enumerations id a hget]
    exact hy

theorem firesInStruct {id : StructId} (h : t.Within s) (hf : t.FiresInStruct (fun _ => rule) id) :
    s.FiresInStruct (fun _ => rule) id := by
  obtain ⟨y, hy, e, he, x, hx, hd⟩ := hf
  have meets (s : Store) (f) : (s.modifyStruct id f).Meets e x ↔ s.Meets e x :=
    ⟨.of_vars_eq rfl, .of_vars_eq rfl⟩
  rw [meets] at hx
  cases hget : t.struct? id with
  | none =>
    rw [hget] at hy
    cases hy
  | some a =>
    rw [hget] at hy
    refine ⟨y, ?_, e, he, x, (meets _ _).2 (h.meets hx), hd⟩
    rw [show s.struct? id = some a from h.structs id a hget]
    exact hy

theorem firesInCode {id : FunctionId} (h : t.Within s) (hf : t.FiresInCode (fun _ => rule) id) :
    s.FiresInCode (fun _ => rule) id := by
  obtain ⟨native, f', hf', hin⟩ := hf
  obtain ⟨f, used, hf, rfl⟩ := h.functions _ _ hf'
  refine ⟨?_, f, hf, ?_⟩
  · simp only [Visitor.isNative, hf, hf', Option.map_some, Option.getD_some] at native ⊢
    exact native
  · rcases hin with ⟨a, ha, hin⟩ | ⟨b, hb, hin⟩
    · exact .inl ⟨a, ha, h.firesInVar hin⟩
    · exact .inr ⟨b, hb, h.firesIn hin⟩

theorem firesInModule (h : t.Within s) (hf : t.FiresInModule (fun _ => rule) m false) :
    s.FiresInModule (fun _ => rule) m false := by
  cases hm : t.modules.get? m with
  | none =>
    have blank : t.module m = default := by
      unfold module module?
      rw [hm]
      rfl
    unfold FiresInModule CollectedInModule at hf
    rw [blank] at hf
    rcases hf with ⟨_, hid, _⟩ | ⟨_, hid, _⟩ | ⟨_, hid, _⟩ | ⟨_, hid, _⟩ | ⟨_, hid, _⟩ <;> cases hid
  | some x =>
    have same : s.module m = t.module m := by
      unfold module module?
      rw [hm, h.modules m x hm]
    unfold FiresInModule CollectedInModule at hf ⊢
    rw [same]
    rcases hf with ⟨id, hid, hf⟩ | ⟨id, hid, hf⟩ | ⟨id, hid, hf⟩ | ⟨_, hid, _⟩ | ⟨id, hid, hf⟩
    · exact .inl ⟨id, hid, h.firesInEnum hf⟩
    · exact .inr (.inl ⟨id, hid, h.firesInStruct hf⟩)
    · exact .inr (.inr (.inl ⟨id, hid, h.firesInVar hf⟩))
    · cases hid
    · exact .inr (.inr (.inr (.inr ⟨id, hid, h.firesInCode hf⟩)))

end Within

end Parts

section Marks

def IsMarked (s : Store) : Symbol → Prop
  | .function id => ∀ f, s.function? id = some f → f.used = true
  | .var id => ∀ x, s.vars.get? id = some x → x.used = true

theorem markUsed_of_isMarked {x : Symbol} (h : s.IsMarked x) : s.markUsed x = s := by
  cases x with
  | function id =>
    simp only [markUsed, modifyFunction]
    rw [Table.modify_eq_self]
    intro f hf
    rw [← h f hf]
  | var id =>
    simp only [markUsed, modifyVariable]
    rw [Table.modify_eq_self]
    intro x hx
    rw [← h x hx]

theorem isMarked_markUsed {x y : Symbol} (h : x = y ∨ s.IsMarked x) :
    (s.markUsed y).IsMarked x := by
  cases x with
  | function id =>
    intro f hf
    cases y with
    | function other =>
      simp only [markUsed, modifyFunction, function?, Table.get?_modify] at hf
      split at hf
      · obtain ⟨a, _, rfl⟩ := Option.map_eq_some_iff.1 hf
        rfl
      · rename_i hne
        refine h.elim (fun h => ?_) fun h => h f hf
        exact absurd (Symbol.function.inj h) hne
    | var other => exact h.elim (fun h => by cases h) fun h => h f hf
  | var id =>
    intro x hx
    cases y with
    | function other => exact h.elim (fun h => by cases h) fun h => h x hx
    | var other =>
      simp only [markUsed, modifyVariable, Table.get?_modify] at hx
      split at hx
      · obtain ⟨a, _, rfl⟩ := Option.map_eq_some_iff.1 hx
        rfl
      · rename_i hne
        refine h.elim (fun h => ?_) fun h => h x hx
        exact absurd (Symbol.var.inj h) hne

theorem isMarked_foldl {used : List Symbol} {x : Symbol} (h : x ∈ used ∨ s.IsMarked x) :
    (used.foldl markUsed s).IsMarked x := by
  induction used generalizing s with
  | nil => exact h.resolve_left List.not_mem_nil
  | cons y used ih =>
    refine ih ?_
    rcases h with h | h
    · rcases List.mem_cons.1 h with rfl | h
      · exact .inr (isMarked_markUsed (.inl rfl))
      · exact .inl h
    · exact .inr (isMarked_markUsed (.inr h))

theorem foldl_markUsed_of_isMarked {used : List Symbol} (h : ∀ x ∈ used, s.IsMarked x) :
    used.foldl markUsed s = s := by
  induction used with
  | nil => rfl
  | cons x used ih =>
    rw [List.foldl_cons, markUsed_of_isMarked (h x (.head _))]
    exact ih fun x hx => h x (.tail _ hx)

end Marks

section Removal

theorem Marked.entryPoints (h : s.Marked s') (m : Module) :
    s'.entryPoints m = s.entryPoints m := by
  refine List.filter_congr fun id _ => ?_
  rw [h.map_function? fun _ _ => rfl]

theorem Marked.roots (h : s.Marked s') (m : ModuleId) : s'.roots m = s.roots m := by
  unfold Store.roots computedGlobals
  simp only [h.module, h.entryPoints, h.init]

theorem Marked.used_iff (h : s.Marked s') {roots : List Symbol} {x : Symbol} :
    s'.Used roots x ↔ s.Used roots x := ⟨h.within.used, h.symm.within.used⟩

theorem Marked.hasUnused (h : s.Marked s') {used used' : List Symbol} {x : Module}
    (hu : ∀ x, x ∈ used' ↔ x ∈ used) : s'.HasUnused used' x ↔ s.HasUnused used x := by
  have native (id : FunctionId) : Visitor.isNative s' id = Visitor.isNative s id := h.isNative id
  simp only [HasUnused, native, hu]

/-- A removal that takes nothing out of the module only marks, and another one changes nothing. -/
theorem dropUnused_again (h : s.dropUnused m = .ok (false, t)) :
    s.Marked t ∧ t.dropUnused m = .ok (false, t) := by
  by_cases hentry : s.entryPoints (s.module m) = []
  · rw [dropUnused_of_no_entry hentry] at h
    cases h
    exact ⟨.refl s, dropUnused_of_no_entry hentry⟩
  obtain ⟨used, trim, removed, hused, hdrops, hrun⟩ := dropUnused_run hentry
  rw [hrun] at h
  obtain ⟨rfl, ht⟩ := Prod.mk.inj (Except.ok.inj h)
  have keep {s : Store} {trim : Module → Module} (hidle : ∀ x, trim x = x) :
      s.modifyModule m trim = s := by
    unfold modifyModule
    rw [Table.modify_eq_self fun x _ => hidle x]
  rw [keep (hdrops.idle rfl)] at ht
  have hmarked : s.Marked t := ht ▸ marked_foldl used (.refl s)
  have hentry' : t.entryPoints (t.module m) ≠ [] := by
    rw [hmarked.module, hmarked.entryPoints]
    exact hentry
  obtain ⟨used', trim', removed', hused', hdrops', hrun'⟩ := dropUnused_run hentry'
  have same (x : Symbol) : x ∈ used' ↔ x ∈ used := by
    rw [hused', hused, hmarked.roots, hmarked.used_iff]
  have hremoved : removed' = false := by
    cases hr : removed' with
    | false => rfl
    | true =>
      have hunused := hdrops'.removed_iff.1 hr
      rw [hmarked.module, hmarked.hasUnused same] at hunused
      exact absurd (hdrops.removed_iff.2 hunused) Bool.false_ne_true
  have hmarks : used'.foldl markUsed t = t := by
    refine foldl_markUsed_of_isMarked fun x hx => ?_
    rw [← ht]
    exact isMarked_foldl (.inl ((same x).1 hx))
  refine ⟨hmarked, ?_⟩
  rw [hrun', hmarks, keep (hdrops'.idle hremoved), hremoved]

end Removal

end Store

end Frontend
