import Frontend.Proofs.Optimizer.Rounds
import Frontend.Proofs.Validity

/-!
# What the optimizer makes of a valid program

The code of a module stays linked to functions that are registered, as the removal of unused
declarations follows exactly these links. It does not follow the links of structures, enumerations
and generics, and no pass looks at field positions; where those hold, an optimized program is valid.
-/

namespace Frontend.Program

variable {p p' : Program} {id : FunctionId}

def Linked (p : Program) (id : FunctionId) : Prop := ∃ e, p.CodeTree e ∧ p.store.Links e id

/-- The code of a program comes from that of another: its trees and the initializers of its
variables are covered. -/
structure CodeFrom (p p' : Program) : Prop where
  trees : ∀ e', p'.CodeTree e' → ∃ e, p.CodeTree e ∧ e.Covers e'
  inits : ∀ v i', (p'.store.var v).init = some i' → ∃ i, (p.store.var v).init = some i ∧ i.Covers i'

theorem CodeFrom.linked (h : p.CodeFrom p') (hl : p'.Linked id) : p.Linked id := by
  obtain ⟨e', he', hl⟩ := hl
  obtain ⟨e, he, hcov⟩ := h.trees e' he'
  exact ⟨e, he, hl.of_covers h.inits hcov⟩

section Rewritten

variable {s : Store} (h : p.store.Rewritten Expr.Covers s)

include h

theorem init_of_rewritten {v : VarId} {i' : Expr}
    (hi : ((p.inStore s).collect.store.var v).init = some i') :
    ∃ i, (p.store.var v).init = some i ∧ i.Covers i' := by
  obtain ⟨x', hx', hi'⟩ := Store.get?_of_init (Store.var_of_partOf (Store.partOf_collect s _) hi)
  obtain ⟨x, hx, i, rfl, hrel⟩ := h.vars.of_get? hx'
  simp only at hi'
  rw [hi'] at hrel
  generalize hxi : x.init = o at hrel
  cases hrel with
  | @some i _ hcov =>
    refine ⟨i, ?_, hcov⟩
    simp only [Store.var, hx, Option.getD_some, hxi]

theorem codeFrom_of_rewritten (hthis : p.this ∈ p.library) :
    p.CodeFrom (p.inStore s).collect where
  inits _ _ := init_of_rewritten h
  trees e' he' := by
    have same : (p.inStore s).collect.thisModule = p.thisModule := module_of_rewritten h hthis
    cases he' with
    | @global id _ hid hi =>
      obtain ⟨i, hi, hcov⟩ := init_of_rewritten h hi
      exact ⟨i, .global (same ▸ hid) hi, hcov⟩
    | @function id _ hid hn ht =>
      have function {f' : Function} (hf' : (p.inStore s).collect.store.function? id = some f') :
          ∃ f, p.store.function? id = some f ∧ f.Rewritten Expr.Covers f' :=
        h.functions.of_get? ((Store.partOf_collect s _).functions id f' hf')
      have native {f f' : Function} (hf : p.store.function? id = some f)
          (hf' : (p.inStore s).collect.store.function? id = some f')
          (hrel : f.Rewritten Expr.Covers f') : Visitor.isNative p.store id = false := by
        obtain ⟨b, rfl, _⟩ := hrel
        simp only [Visitor.isNative, hf, hf', Option.map_some, Option.getD_some] at hn ⊢
        exact hn
      cases ht with
      | body hf' hb =>
        obtain ⟨f, hf, hrel⟩ := function hf'
        have hn := native hf hf' hrel
        obtain ⟨b, rfl, hrel⟩ := hrel
        simp only at hb
        subst hb
        generalize hfb : f.body = o at hrel
        cases hrel with
        | @some b _ hcov => exact ⟨b, .function (same ▸ hid) hn (.body hf hfb), hcov⟩
      | argument hf' ha hi =>
        obtain ⟨f, hf, hrel⟩ := function hf'
        have hn := native hf hf' hrel
        obtain ⟨b, rfl, hrel⟩ := hrel
        obtain ⟨i, hi, hcov⟩ := init_of_rewritten h hi
        exact ⟨i, .function (same ▸ hid) hn (.argument hf ha hi), hcov⟩

end Rewritten

section Dropped

variable {s₁ : Store} {used : List Symbol} {trim : Module → Module}

abbrev dropped (p : Program) (s₁ : Store) (trim : Module → Module) : Program :=
  (p.inStore (s₁.modifyModule p.this trim)).collect

variable (hentry : p.store.entryPoints p.thisModule ≠ []) (hs₁ : p.store.Marked s₁)
  (hthis : p.this ∈ p.library) (htrim : p.store.Trimmed used p.thisModule (trim p.thisModule))

include hentry hs₁ hthis in
theorem thisModule_dropped (trim : Module → Module) :
    (p.dropped s₁ trim).thisModule = trim p.thisModule := by
  have := module_collect (p := p.inStore (s₁.modifyModule p.this trim)) hthis
  exact this.trans (module_trimmed hentry hs₁ trim)

include hs₁ in
theorem module_dropped_of_ne {m : ModuleId} (hm : m ∈ p.library) (hne : m ≠ p.this) :
    (p.dropped s₁ trim).store.module m = p.store.module m := by
  have := module_collect (p := p.inStore (s₁.modifyModule p.this trim)) hm
  refine this.trans ?_
  rw [← hs₁.module m]
  simp only [inStore, Store.module, Store.module?, Store.modifyModule, Table.get?_modify,
    if_neg hne]

theorem partOf_dropped (p : Program) (s₁ : Store) (trim : Module → Module) :
    (p.dropped s₁ trim).store.PartOf (s₁.modifyModule p.this trim) :=
  Store.partOf_collect _ _

include hs₁ in
theorem init_dropped {v : VarId} {i : Expr}
    (hi : ((p.dropped s₁ trim).store.var v).init = some i) : (p.store.var v).init = some i := by
  have := Store.var_of_partOf (partOf_dropped p s₁ trim) hi
  exact (hs₁.init v).symm.trans this

include hs₁ in
theorem function_dropped {f' : Function}
    (hf' : (p.dropped s₁ trim).store.function? id = some f') :
    ∃ f used, p.store.function? id = some f ∧ f' = { f with used } := by
  have hf' : s₁.functions.get? id = some f' := (partOf_dropped p s₁ trim).functions id f' hf'
  obtain ⟨f, hf, used, rfl⟩ := hs₁.functions.of_get? hf'
  exact ⟨f, used, hf, rfl⟩

include hs₁ in
theorem treeOf_dropped {e : Expr} (ht : (p.dropped s₁ trim).store.TreeOf id e)
    (hn : Visitor.isNative (p.dropped s₁ trim).store id = false) :
    p.store.TreeOf id e ∧ Visitor.isNative p.store id = false := by
  cases ht with
  | body hf' hb =>
    have hn' := hn
    obtain ⟨f, _, hf, rfl⟩ := function_dropped hs₁ hf'
    refine ⟨.body hf hb, ?_⟩
    simp only [Visitor.isNative, hf, hf', Option.map_some, Option.getD_some] at hn' ⊢
    exact hn'
  | argument hf' ha hi =>
    have hn' := hn
    obtain ⟨f, _, hf, rfl⟩ := function_dropped hs₁ hf'
    refine ⟨.argument hf ha (init_dropped hs₁ hi), ?_⟩
    simp only [Visitor.isNative, hf, hf', Option.map_some, Option.getD_some] at hn' ⊢
    exact hn'

/-- What a tree of a function uses, the function uses. -/
theorem uses_of_treeOf {s : Store} {e : Expr} {d : Symbol} (ht : s.TreeOf id e)
    (hd : s.UsedIn e d) (alive : s.hasSymbol d = true) : s.Uses (.function id) d := by
  cases ht with
  | body hf hb => exact .body hf hb hd alive
  | argument hf ha hi => exact .argument hf ha hi hd alive

include hentry hs₁ hthis htrim in
/-- The trees that are left are old ones, and they belong to what is used. -/
theorem codeTree_dropped {e : Expr} (he : (p.dropped s₁ trim).CodeTree e) :
    p.CodeTree e ∧ ∃ x ∈ used, ∀ d, p.store.UsedIn e d → p.store.hasSymbol d = true →
      p.store.Uses x d := by
  have same := thisModule_dropped hentry hs₁ hthis trim
  cases he with
  | @global id _ hid hi =>
    rw [same, htrim.globalOrder, List.mem_filter] at hid
    have hi := init_dropped hs₁ hi
    exact ⟨.global hid.1 hi, .var id, List.contains_iff_mem.1 hid.2, fun d hd alive =>
      .initializer hi hd alive⟩
  | @function id _ hid hn ht =>
    obtain ⟨ht, hn⟩ := treeOf_dropped hs₁ ht hn
    rw [same] at hid
    obtain ⟨⟨name, _⟩, hentry', rfl⟩ := List.mem_map.1 hid
    rw [htrim.functions, List.mem_filter, hn, Bool.false_or] at hentry'
    exact ⟨.function (List.mem_map.2 ⟨_, hentry'.1, rfl⟩) hn ht, _,
      List.contains_iff_mem.1 hentry'.2, fun d hd alive => uses_of_treeOf ht hd alive⟩

include hentry hs₁ hthis htrim in
theorem codeFrom_dropped : p.CodeFrom (p.dropped s₁ trim) where
  trees e he := ⟨e, (codeTree_dropped hentry hs₁ hthis htrim he).1, .refl e⟩
  inits _ i hi := ⟨i, init_dropped hs₁ hi, .refl i⟩

include hentry hs₁ hthis htrim in
theorem registers_dropped (hid : p.Registers id) (hused : .function id ∈ used) :
    (p.dropped s₁ trim).Registers id := by
  obtain ⟨m, hm, hid⟩ := hid
  refine ⟨m, hm, ?_⟩
  by_cases hne : m = p.this
  · subst hne
    have same := thisModule_dropped hentry hs₁ hthis trim
    unfold thisModule at same
    have hthere : (p.dropped s₁ trim).this = p.this := rfl
    rw [hthere] at same
    rw [same]
    exact Store.Trimmed.mem_functions htrim hused hid
  · rw [module_dropped_of_ne hs₁ hm hne]
    exact hid

end Dropped

/-- What holds throughout: code links to functions that are registered and there. -/
structure Held (p : Program) : Prop where
  this : p.this ∈ p.library
  plain : ∀ m ∈ p.library, (p.store.module m).rewriters = []
  links : ∀ id, p.Linked id → p.Registers id ∧ p.store.functions.isAlive id = true

namespace Held

theorem of_rewritten (hp : p.Held) {s : Store} (h : p.store.Rewritten Expr.Covers s) :
    (p.inStore s).collect.Held where
  this := hp.this
  plain m hm := by
    have hm : m ∈ p.library := hm
    rw [module_of_rewritten h hm]
    exact hp.plain m hm
  links id hid := by
    obtain ⟨hreg, alive⟩ := hp.links id ((codeFrom_of_rewritten h hp.this).linked hid)
    have hreg' : (p.inStore s).Registers id := registers_inStore_of_rewritten h ▸ hreg
    refine ⟨registers_of_rewritten h ▸ hreg, ?_⟩
    rw [isAlive_collect hreg', ← alive]
    exact h.functions.isAlive id

theorem of_dropped (hp : p.Held) {s₁ : Store} {used : List Symbol} {trim : Module → Module}
    (hentry : p.store.entryPoints p.thisModule ≠ []) (hs₁ : p.store.Marked s₁)
    (hused : ∀ x, x ∈ used ↔ p.store.Used (p.store.roots p.this) x)
    (htrim : p.store.Trimmed used p.thisModule (trim p.thisModule)) :
    (p.dropped s₁ trim).Held where
  this := hp.this
  plain m hm := by
    have hm : m ∈ p.library := hm
    by_cases hne : m = p.this
    · subst hne
      have same : (p.dropped s₁ trim).store.module p.this = trim p.thisModule :=
        thisModule_dropped hentry hs₁ hp.this trim
      rw [same, htrim.rest]
      exact hp.plain p.this hm
    · rw [module_dropped_of_ne hs₁ hm hne]
      exact hp.plain m hm
  links id hid := by
    obtain ⟨e, he, x, name, hx, hl⟩ := hid
    obtain ⟨hold, y, hy, huses⟩ := codeTree_dropped hentry hs₁ hp.this htrim he
    have from_old := codeFrom_dropped hentry hs₁ hp.this htrim
    have hlinks : p.store.Links e id :=
      Store.Links.of_covers from_old.inits (.refl e) ⟨x, name, hx, hl⟩
    obtain ⟨hreg, alive⟩ := hp.links id ⟨e, hold, hlinks⟩
    obtain ⟨z, name', hz, hl'⟩ := hlinks
    -- The link is a use of something used, so its function is used and stays.
    have hnext := huses (.function id) ⟨z, hz, Store.link_mem_uses hl'⟩ alive
    have hid : Symbol.function id ∈ used := (hused _).2 (.use ((hused y).1 hy) hnext)
    have hreg' := registers_dropped hentry hs₁ hp.this htrim hreg hid
    refine ⟨hreg', ?_⟩
    have hbefore : (p.inStore (s₁.modifyModule p.this trim)).Registers id := by
      rw [← registers_collect]
      exact hreg'
    rw [isAlive_collect hbefore, ← alive]
    exact hs₁.functions.isAlive id

theorem rewrite (hp : p.Held) {rule : Store → Expr → Option Expr}
    (hR : SoundRule rule p.store Expr.Covers) :
    Ends (Program.rewrite rule) p fun _ p' => p'.Held ∧ p'.policies = p.policies := by
  refine (rewrite_ends p hR).mono ?_
  rintro _ _ ⟨s, h, rfl⟩
  exact ⟨hp.of_rewritten h, rfl⟩

theorem removeUnused (hp : p.Held) :
    Ends Program.removeUnused p fun _ p' => p'.Held ∧ p'.policies = p.policies := by
  have clean (s₀ : Store) : SoundRule (fun _ => Expr.cleanBlock?) s₀ Expr.Covers :=
    .of_covers Expr.weight_cleanBlock .cleanBlock
  by_cases hentry : p.store.entryPoints p.thisModule = []
  · refine (removeUnused_ends clean (Store.dropUnused_of_no_entry hentry)).mono ?_
    rintro _ _ ⟨t, ht, rfl⟩
    have hcollect : (p.inStore p.store).collect.Held := hp.of_rewritten (.refl .refl _)
    exact ⟨hcollect.of_rewritten ht, rfl⟩
  · obtain ⟨used, s₁, trim, removed, hused, hs₁, htrim, hdrop⟩ := Store.dropUnused_eq_ok hentry
    refine (removeUnused_ends clean hdrop).mono ?_
    rintro _ _ ⟨t, ht, rfl⟩
    exact ⟨(hp.of_dropped hentry hs₁ hused htrim).of_rewritten ht, rfl⟩

theorem report (hp : p.Held) (e : CompileError) : (p.report e).Held where
  this := hp.this
  plain := hp.plain
  links id hid := by
    obtain ⟨t, ht, hl⟩ := hid
    refine hp.links id ⟨t, ?_, hl⟩
    cases ht with
    | global hid hi => exact .global hid hi
    | function hid hn ht => exact .function hid hn ht

/-- The whole optimizer keeps the links of code. -/
theorem upheld : Upheld Held where
  pass pass hpass p hp := by
    simp only [passes, List.mem_cons, List.not_mem_nil, or_false] at hpass
    rcases hpass with rfl | rfl | rfl | rfl | rfl | rfl
    · exact hp.rewrite (.of_covers Expr.weight_cancelReference .cancelReference)
    · exact hp.removeUnused
    · exact hp.rewrite (.of_covers Store.weight_foldConstant .foldConstant)
    · exact hp.rewrite (.of_covers Store.weight_chooseBranch .chooseBranch)
    · exact hp.rewrite (.of_covers Store.weight_tidyBlock .tidyBlock)
    · exact hp.removeUnused
  report _ e hp := hp.report e
  plain p hp := List.flatMap_eq_nil_iff.2 fun m hm => by rw [hp.plain m hm, List.map_nil]

/-- Where code is linked as it should be, only other declarations and field positions decide whether
a program is valid. -/
theorem valid_iff (hp : p.Held) : p.Valid ↔
    (∀ s e, p.DataTree s e → ∀ id, s.Links e id → s.functions.isAlive id = true) ∧
      ∀ s e, p.Checks s e → ∀ x, s.Meets e x → s.FieldInRange x := by
  rw [Program.valid_iff]
  constructor
  · intro h
    refine ⟨?_, fun s e he x hx => (h s e he x hx).2⟩
    rintro s e he id ⟨x, name, hx, hl⟩
    exact (h s e (.inr he) x hx).1 name id hl
  · rintro ⟨hdata, hfield⟩ s e he x hx
    refine ⟨fun name id hl => ?_, hfield s e he x hx⟩
    rcases he with ⟨rfl, he⟩ | he
    · exact (hp.links id ⟨e, he, x, name, hx, hl⟩).2
    · exact hdata s e he id ⟨x, name, hx, hl⟩

end Held

theorem held_of_valid (hthis : p.this ∈ p.library)
    (hplain : ∀ m ∈ p.library, (p.store.module m).rewriters = [])
    (howned : ∀ id, p.store.functions.isAlive id = true → p.Registers id) (hvalid : p.Valid) :
    p.Held where
  this := hthis
  plain := hplain
  links id hid := by
    obtain ⟨e, he, x, name, hx, hl⟩ := hid
    have alive := (valid_iff.1 hvalid p.store e (.inl ⟨rfl, he⟩) x hx).1 name id hl
    exact ⟨howned id alive, alive⟩

/-- The optimizer ends within its limit. What it makes of a valid program without rewriters, whose
functions are all registered by visible modules, has no dead link in its code; and it is valid
exactly if no structure, enumeration or generic is left with a dead link, and every position of a
field that is left is still one of the structure accessed. -/
theorem optimize_valid_iff (p : Program) (hthis : p.this ∈ p.library)
    (hplain : ∀ m ∈ p.library, (p.store.module m).rewriters = [])
    (howned : ∀ id, p.store.functions.isAlive id = true → p.Registers id) (hvalid : p.Valid) :
    (p.policies.maxPasses?.isSome = true → Ends optimize p fun _ _ => True) ∧
      ∀ p', optimize.run p = .ok ((), p') →
        (∀ e, p'.CodeTree e → ∀ id, p'.store.Links e id →
          p'.store.functions.isAlive id = true) ∧
        (p'.Valid ↔
          (∀ s e, p'.DataTree s e → ∀ id, s.Links e id → s.functions.isAlive id = true) ∧
            ∀ s e, p'.Checks s e → ∀ x, s.Meets e x → s.FieldInRange x) := by
  have hends := optimize_ends Held.upheld (held_of_valid hthis hplain howned hvalid)
  refine ⟨fun hlimit => ?_, fun p' hrun => ?_⟩
  · rcases hends with ⟨_, hnone⟩ | hends
    · rw [hnone] at hlimit
      cases hlimit
    · exact hends.mono fun _ _ _ => True.intro
  · have held : p'.Held := by
      rcases hends with ⟨hrun', _⟩ | hends
      · rw [hrun'] at hrun
        cases hrun
      · exact hends.of_run hrun
    exact ⟨fun e he id hl => (held.links id ⟨e, he, hl⟩).2, held.valid_iff⟩

/-- An exported function, and one that only the initializer of a field calls. -/
def linkedField : Program where
  store :=
    { functions := { slots := #[
        some { name := "main", exports := true },
        some { name := "helper" }] }
      structs := { slots := #[some
        { name := "S"
          fields := [
            { name := "x"
              type := .ofBase .int
              init := some (.ofNode .builtin (.call "helper" [] (some ⟨1⟩))) }] }] }
      modules := { slots := #[some
        { name := ""
          functions := .ofList [("main", ⟨0⟩), ("helper", ⟨1⟩)]
          structs := .ofList [("S", ⟨0⟩)]
          structOrder := [⟨0⟩] }] } }
  library := [⟨0⟩]
  this := ⟨0⟩

theorem linkedField_registers (id : FunctionId)
    (alive : linkedField.store.functions.isAlive id = true) : linkedField.Registers id := by
  obtain ⟨index⟩ := id
  match index with
  | 0 => exact ⟨⟨0⟩, .head _, by decide⟩
  | 1 => exact ⟨⟨0⟩, .head _, by decide⟩
  | index + 2 => cases alive

theorem optimize_valid_iff_linkedField :
    linkedField.Valid ∧ Ends optimize linkedField fun _ p' =>
      p'.Valid ↔
        (∀ s e, p'.DataTree s e → ∀ id, s.Links e id → s.functions.isAlive id = true) ∧
          ∀ s e, p'.Checks s e → ∀ x, s.Meets e x → s.FieldInRange x := by
  have hvalid : linkedField.Valid := by decide +kernel
  have hplain : ∀ m ∈ linkedField.library, (linkedField.store.module m).rewriters = [] := by
    intro m hm
    rw [List.mem_singleton.1 hm]
    rfl
  have h := optimize_valid_iff linkedField (.head _) hplain linkedField_registers hvalid
  obtain ⟨_, p', hrun, _⟩ := h.1 rfl
  exact ⟨hvalid, (), p', hrun, (h.2 p' hrun).2⟩

/-- A valid program that is not valid any more: nothing that runs calls the helper. -/
theorem optimize_breaks_linkedField :
    linkedField.Valid ∧ Ends optimize linkedField fun _ p' => ¬ p'.Valid := by
  have hbreaks : (match optimize.run linkedField with
      | .ok (_, p') => !p'.findsNothing
      | .error _ => false) = true := by decide +kernel
  refine ⟨by decide +kernel, ?_⟩
  unfold Ends
  split at hbreaks
  · rename_i p' hrun
    refine ⟨(), p', hrun, fun hvalid => ?_⟩
    rw [findsNothing_iff.2 hvalid] at hbreaks
    cases hbreaks
  · cases hbreaks

end Frontend.Program
