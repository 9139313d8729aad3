import Frontend.Proofs.Optimizer.Fixpoint
import Frontend.Proofs.Optimizer.Naming
import Frontend.Proofs.Optimizer.Validity

/-!
# What a removal leaves is needed

Dropping unused declarations does not change what a program needs, and neither does cleaning its
blocks. So everything left is native or needed, with its mark, and a second removal finds nothing to
do.
-/

namespace Frontend

namespace Store

variable {s t : Store} {x : Symbol}

theorem SameCallees.isNative (h : s.SameCallees t) (id : FunctionId) :
    Visitor.isNative t id = Visitor.isNative s id := by
  have := congrArg (Option.map Prod.snd) (h id)
  rw [Option.map_map, Option.map_map] at this
  exact congrArg (Option.getD · false) this

theorem SameCallees.of_retains (h : s.Retains t Set.univ) : s.SameCallees t := fun id => by
  rw [h.functions id (Set.mem_univ id)]

theorem IsMarked.of_partOf (h : s.IsMarked x) (part : t.PartOf s) : t.IsMarked x := by
  cases x with
  | function id => exact fun f hf => h f (part.functions id f hf)
  | var id => exact fun v hv => h v (part.vars id v hv)

theorem IsMarked.of_rewritten {R : Expr → Expr → Prop} (h : s.IsMarked x)
    (hr : s.Rewritten R t) : t.IsMarked x := by
  cases x with
  | function id =>
    intro f' hf'
    obtain ⟨f, hf, b, rfl, -⟩ := hr.functions.of_get? hf'
    exact h f hf
  | var id =>
    intro v' hv'
    obtain ⟨v, hv, i, rfl, -⟩ := hr.vars.of_get? hv'
    exact h v hv

end Store

namespace Program

variable {p q : Program} {s t : Store} {a : Symbol} {roots : List Symbol}

section Needs

theorem function_mem_roots {id : FunctionId} :
    .function id ∈ p.store.roots p.this ↔ p.IsEntry id := by
  rw [← mem_entryPoints]
  simp [Store.roots, thisModule]

theorem var_mem_roots {id : VarId} : .var id ∈ p.store.roots p.this ↔ p.IsComputed id := by
  rw [← mem_computedGlobals]
  simp [Store.roots, thisModule]

theorem used_of_roots {roots' : List Symbol} (hroots : ∀ x ∈ roots, x ∈ roots')
    (h : s.Used roots a) : s.Used roots' a := by
  induction h with
  | root hx => exact .root (hroots _ hx)
  | use _ hu ih => exact .use ih hu

structure NeedsSame (p q : Program) : Prop where
  entry : ∀ id, q.IsEntry id ↔ p.IsEntry id
  needed : ∀ x, q.Needed x ↔ p.Needed x

theorem NeedsSame.of_roots (entry : ∀ id, q.IsEntry id ↔ p.IsEntry id)
    (computed : ∀ id, q.IsComputed id ↔ p.IsComputed id)
    (used : ∀ x, q.store.Used (p.store.roots p.this) x ↔ p.store.Used (p.store.roots p.this) x) :
    p.NeedsSame q where
  entry := entry
  needed x := by
    have roots (y : Symbol) : y ∈ q.store.roots q.this ↔ y ∈ p.store.roots p.this := by
      cases y with
      | function id => rw [function_mem_roots, function_mem_roots, entry]
      | var id => rw [var_mem_roots, var_mem_roots, computed]
    rw [← used_iff_needed, ← used_iff_needed, ← used x]
    exact ⟨used_of_roots fun y => (roots y).1, used_of_roots fun y => (roots y).2⟩

/-- Everything registered is native or needed, and everything needed is marked, so a removal finds
nothing to do. -/
structure Pruned (p : Program) : Prop where
  functions : ∀ e ∈ p.thisModule.functions.toList,
    Visitor.isNative p.store e.2 = true ∨ p.Needed (.function e.2)
  globals : ∀ id ∈ p.thisModule.globalOrder, p.Needed (.var id)
  marked : ∀ x, p.Needed x → p.store.IsMarked x

theorem dropUnused_of_pruned (h : (∃ id, p.IsEntry id) → p.Pruned) :
    p.store.dropUnused p.this = .ok (false, p.store) := by
  by_cases hentry : p.store.entryPoints p.thisModule = []
  · exact Store.dropUnused_of_no_entry hentry
  obtain ⟨id, hid⟩ := List.exists_mem_of_ne_nil _ hentry
  obtain ⟨functions, globals, marked⟩ := h ⟨id, mem_entryPoints.1 hid⟩
  obtain ⟨used, trim, removed, hused, hdrops, hrun⟩ := Store.dropUnused_run hentry
  have hneeded (x : Symbol) : x ∈ used ↔ p.Needed x := (hused x).trans used_iff_needed
  have hremoved : removed = false := by
    rw [← Bool.not_eq_true, hdrops.removed_iff]
    rintro (⟨e, he, hn, hun⟩ | ⟨id, hid, hun⟩)
    · rcases functions e he with hnative | hneeds
      · rw [hnative] at hn
        cases hn
      · exact hun ((hneeded _).2 hneeds)
    · exact hun ((hneeded _).2 (globals id hid))
  have hmarks : used.foldl Store.markUsed p.store = p.store :=
    Store.foldl_markUsed_of_isMarked fun x hx => marked x ((hneeded x).1 hx)
  rw [hrun, hremoved, hmarks, Store.modifyModule,
    Table.modify_eq_self fun x _ => hdrops.idle hremoved x]

theorem removeUnused_of_pruned (hp : p.Settled) (h : (∃ id, p.IsEntry id) → p.Pruned)
    (hno : ¬ p.Fires fun _ => Expr.cleanBlock?) : removeUnused.run p = .ok (false, p) := by
  have hclean := rewrite_idle .cleanBlock hno
  rw [hp.collect_eq] at hclean
  have hsame : (p.inStore p.store).collect = p := hp.collect_eq
  exact removeUnused_run (dropUnused_of_pruned h) (hsame.symm ▸ hclean)

end Needs

section Cleaning

variable (h : q.store.Rewritten Expr.SameNames t)
  (hr : t.Retains (q.inStore t).collect.store Set.univ)

include h hr in
theorem thisModule_cleaned : (q.inStore t).collect.thisModule = q.thisModule := by
  refine (hr.module q.this).trans ?_
  simp only [thisModule, Store.module, Store.module?, h.modules]

include h hr in
/-- Cleaning blocks and collecting what nothing owns changes no need. -/
theorem needsSame_cleaned : q.NeedsSame (q.inStore t).collect := by
  have same := thisModule_cleaned h hr
  have part := Store.partOf_collect t ({ modules := q.library } ++ (q.inStore t).outside)
  have kept {v : VarId} (hv : v ∈ q.thisModule.globalOrder) : t.Keeps Set.univ v := by
    refine Store.keeps_of_mem_globalOrder (m := q.this) ?_
    rw [← hr.module q.this]
    change v ∈ (q.inStore t).collect.thisModule.globalOrder
    rwa [same]
  refine .of_roots (fun id => ?_) (fun id => ?_) fun x => ?_
  · unfold IsEntry
    rw [same]
    refine and_congr_right fun _ => ?_
    rw [hr.functions id (Set.mem_univ id)]
    constructor
    · rintro ⟨f', hf', hentry⟩
      obtain ⟨f, hf, b, rfl, -⟩ := h.functions.of_get? hf'
      exact ⟨f, hf, hentry⟩
    · rintro ⟨f, hf, hentry⟩
      obtain ⟨_, hf', b, rfl, -⟩ := h.functions.get? hf
      exact ⟨_, hf', hentry⟩
  · unfold IsComputed
    rw [same]
    refine and_congr_right fun hid => ?_
    constructor
    · rintro ⟨i', hi', hcomputed⟩
      obtain ⟨i, hi, hnames⟩ := (h.symm fun _ _ => .symm).init (Store.var_of_partOf part hi')
      exact ⟨i, hi, hnames.literal.trans hcomputed⟩
    · rintro ⟨i, hi, hcomputed⟩
      obtain ⟨i', hi', hnames⟩ := h.init hi
      exact ⟨i', (hr.var (kept hid)).symm ▸ hi', hnames.literal.trans hcomputed⟩
  · rw [← Store.used_iff_of_names h]
    refine ⟨part.within.used, hr.used (fun v hv => ?_) fun id _ => Set.mem_univ id⟩
    exact kept (var_mem_roots.1 hv).1

include h hr in
theorem Pruned.cleaned (hq : q.Pruned) : (q.inStore t).collect.Pruned := by
  have same := thisModule_cleaned h hr
  have needs := needsSame_cleaned h hr
  refine ⟨fun e he => ?_, fun id hid => ?_, fun x hx => ?_⟩
  · rw [same] at he
    have callees := (Store.SameCallees.of_rewritten h).trans (.of_retains hr)
    rw [callees.isNative, needs.needed]
    exact hq.functions e he
  · rw [same] at hid
    exact (needs.needed _).2 (hq.globals id hid)
  · have marked := (hq.marked x ((needs.needed x).1 hx)).of_rewritten h
    exact marked.of_partOf (Store.partOf_collect _ _)

end Cleaning

section Dropping

variable {s₁ : Store} {used : List Symbol} {trim : Module → Module}

abbrev owned (p : Program) (s : Store) : Set FunctionId :=
  { id | id ∈ ({ modules := p.library } ++ p.outside ++ s.holdings).functions }

theorem get?_trimmed (hs₁ : p.store.Marked s₁) (m : ModuleId) :
    (s₁.modifyModule p.this trim).modules.get? m =
      if m = p.this then (p.store.modules.get? m).map trim else p.store.modules.get? m := by
  simp only [Store.modifyModule, Table.get?_modify, hs₁.modules]

/-- A property of modules against the old ones that trimming has, all modules have. -/
theorem exists_trimmed (hs₁ : p.store.Marked s₁) {P : Module → Module → Prop}
    (hrefl : ∀ x, P x x) (htrim : P p.thisModule (trim p.thisModule)) {m : ModuleId} {x : Module}
    (hx : p.store.modules.get? m = some x) :
    ∃ y, (s₁.modifyModule p.this trim).modules.get? m = some y ∧ P x y := by
  rw [get?_trimmed hs₁]
  split
  · rename_i hm
    have hthis : p.thisModule = x := by
      rw [thisModule, ← hm, Store.module, Store.module?, hx]
      rfl
    exact ⟨trim x, by rw [hx]; rfl, hthis ▸ htrim⟩
  · exact ⟨x, hx, hrefl x⟩

section Owners

variable (hp : p.Settled) (hs₁ : p.store.Marked s₁)
  (htrim : p.store.Trimmed used p.thisModule (trim p.thisModule))

include hs₁ htrim in
/-- Used functions keep their owners. -/
theorem mem_holdings_trimmed {id : FunctionId} (hused : .function id ∈ used)
    (hid : id ∈ p.store.holdings.functions) :
    id ∈ (s₁.modifyModule p.this trim).holdings.functions := by
  rw [Store.mem_holdings_functions] at hid ⊢
  rcases hid with ⟨m, x, hx, hid⟩ | ⟨r, y, hy, hid⟩
  · obtain ⟨y, hy, hkeeps⟩ := exists_trimmed hs₁ (P := fun x y =>
      id ∈ x.holdings.functions → id ∈ y.holdings.functions) (fun _ h => h)
      (Store.Trimmed.mem_functions htrim hused) hx
    exact .inl ⟨m, y, hy, hkeeps hid⟩
  · exact .inr ⟨r, y, hs₁.rewriters ▸ hy, hid⟩

include hp hs₁ htrim in
theorem secure_trimmed : (s₁.modifyModule p.this trim).Secure
    ({ modules := p.library } ++ p.outside) (p.owned (s₁.modifyModule p.this trim)) := by
  refine ⟨fun m y hy => ?_, fun r y hy => ?_, fun id hid _ _ => hid⟩
  · rw [get?_trimmed hs₁] at hy
    split at hy
    · obtain ⟨x, hx, -⟩ := Option.map_eq_some_iff.1 hy
      exact hp.secure.modules m x hx
    · exact hp.secure.modules m y hy
  · have hmem := hp.secure.rewriters r y (hs₁.rewriters ▸ hy)
    rw [Holdings.rewriters_append, List.mem_append, Store.mem_holdings_rewriters] at hmem ⊢
    have hrest : (trim p.thisModule).rewriters = p.thisModule.rewriters := by rw [htrim.rest]
    refine hmem.imp_right ?_
    rintro ⟨m, x, hx, hr⟩
    obtain ⟨y, hy, hsame⟩ := exists_trimmed hs₁ (P := fun x y => y.rewriters = x.rewriters)
      (fun _ => rfl) hrest hx
    exact ⟨m, y, hy, hsame ▸ hr⟩

include hp hs₁ htrim in
/-- What is used is there, so something owns it. -/
theorem mem_owned_of_used (hused : ∀ x, x ∈ used ↔ p.store.Used (p.store.roots p.this) x)
    {id : FunctionId} (h : p.store.Used (p.store.roots p.this) (.function id)) :
    id ∈ p.owned (s₁.modifyModule p.this trim) := by
  have alive : ∃ f, p.store.function? id = some f := by
    generalize ha : Symbol.function id = a at h
    cases h with
    | root hroot =>
      subst ha
      obtain ⟨-, f, hf, -⟩ := function_mem_roots.1 hroot
      exact ⟨f, hf⟩
    | use _ hu =>
      subst ha
      obtain ⟨e, -, -, alive⟩ := Store.uses_iff.1 hu
      exact Option.isSome_iff_exists.1 alive
  obtain ⟨f, hf⟩ := alive
  have hmem := hp.secure.functions id (Set.mem_univ id) f hf
  rw [Holdings.functions_append, List.mem_append] at hmem
  change id ∈ ({ modules := p.library } ++ p.outside ++ _ : Holdings).functions
  rw [Holdings.functions_append, List.mem_append]
  exact hmem.imp_right (mem_holdings_trimmed hs₁ htrim ((hused _).2 h))

end Owners

variable (hp : p.Settled) (hentry : p.store.entryPoints p.thisModule ≠ [])
  (hs₁ : p.store.Marked s₁) (hmarks : ∀ x ∈ used, s₁.IsMarked x)
  (hused : ∀ x, x ∈ used ↔ p.store.Used (p.store.roots p.this) x)
  (htrim : p.store.Trimmed used p.thisModule (trim p.thisModule))

include hp hs₁ htrim in
theorem retains_dropped : (s₁.modifyModule p.this trim).Retains (p.dropped s₁ trim).store
    (p.owned (s₁.modifyModule p.this trim)) :=
  (secure_trimmed hp hs₁ htrim).retains_collect

include hp hentry hs₁ htrim in
theorem thisModule_trimmed : (p.dropped s₁ trim).thisModule = trim p.thisModule :=
  ((retains_dropped hp hs₁ htrim).module p.this).trans (module_trimmed hentry hs₁ trim)

include hp hentry hs₁ htrim in
/-- A function that is registered after the removal is the old one, up to its mark. -/
theorem function?_dropped {id : FunctionId} (hid : id ∈ (trim p.thisModule).functions.values) :
    (p.dropped s₁ trim).store.function? id = s₁.function? id := by
  refine (retains_dropped hp hs₁ htrim).functions id ?_
  have hmodule := module_trimmed hentry hs₁ trim
  cases hm : (s₁.modifyModule p.this trim).modules.get? p.this with
  | none =>
    rw [Store.module, Store.module?, hm] at hmodule
    rw [← hmodule] at hid
    cases hid
  | some x =>
    rw [Store.module, Store.module?, hm] at hmodule
    obtain rfl : x = trim p.thisModule := hmodule
    refine List.mem_append_right _ (Store.mem_holdings_functions.2 (.inl ⟨_, _, hm, ?_⟩))
    exact List.mem_append_left _ hid

include hp hentry hs₁ hused htrim in
/-- Dropping what is unused changes no need. -/
theorem needsSame_dropped : p.NeedsSame (p.dropped s₁ trim) := by
  have hr := retains_dropped hp hs₁ htrim
  have same := thisModule_trimmed hp hentry hs₁ htrim
  have part := partOf_dropped p s₁ trim
  have kept {v : VarId} (hv : v ∈ (trim p.thisModule).globalOrder) :
      (s₁.modifyModule p.this trim).Keeps (p.owned (s₁.modifyModule p.this trim)) v := by
    refine Store.keeps_of_mem_globalOrder (m := p.this) ?_
    rwa [module_trimmed hentry hs₁ trim]
  have order {v : VarId} (hv : p.IsComputed v) : v ∈ (trim p.thisModule).globalOrder := by
    rw [htrim.globalOrder, List.mem_filter, List.contains_iff_mem, hused]
    exact ⟨hv.1, .root (var_mem_roots.2 hv)⟩
  refine .of_roots (fun id => ?_) (fun id => ?_) fun x => ?_
  · unfold IsEntry
    rw [same]
    constructor
    · rintro ⟨hid, f', hf', hflags⟩
      obtain ⟨f, _, hf, rfl⟩ := function_dropped hs₁ hf'
      obtain ⟨e, he, rfl⟩ := List.mem_map.1 hid
      rw [htrim.functions] at he
      exact ⟨List.mem_map_of_mem (List.mem_of_mem_filter he), f, hf, hflags⟩
    · rintro ⟨hid, f, hf, hflags⟩
      have hentry' : p.IsEntry id := ⟨hid, f, hf, hflags⟩
      have hmem : id ∈ (trim p.thisModule).functions.values := by
        obtain ⟨e, he, rfl⟩ := List.mem_map.1 hid
        refine List.mem_map_of_mem ?_
        rw [htrim.functions, List.mem_filter]
        have : Symbol.function e.2 ∈ used := (hused _).2 (.root (function_mem_roots.2 hentry'))
        exact ⟨he, by simp [this]⟩
      rw [function?_dropped hp hentry hs₁ htrim hmem]
      obtain ⟨f', hf', used', rfl⟩ := hs₁.functions.get? hf
      exact ⟨hmem, _, hf', hflags⟩
  · constructor
    · rintro ⟨hid, i, hi, hcomputed⟩
      rw [same, htrim.globalOrder] at hid
      exact ⟨List.mem_of_mem_filter hid, i, init_dropped hs₁ hi, hcomputed⟩
    · intro hcomputed
      have hid := order hcomputed
      obtain ⟨-, i, hi, hno⟩ := hcomputed
      refine ⟨same ▸ hid, i, ?_, hno⟩
      rw [hr.var (kept hid)]
      exact (hs₁.init id).trans hi
  · have before : (s₁.modifyModule p.this trim).Used (p.store.roots p.this) x ↔
        p.store.Used (p.store.roots p.this) x :=
      (Store.used_modifyModule p.this trim).trans hs₁.used_iff
    refine ⟨fun h => before.1 (part.within.used h), fun h => ?_⟩
    refine hr.used (fun v hv => kept (order (var_mem_roots.1 hv))) (fun id hid => ?_)
      (before.2 h)
    refine mem_owned_of_used hp hs₁ htrim hused ?_
    exact hs₁.used_iff.1 ((Store.used_modifyModule p.this trim).1 hid)

include hp hentry hs₁ hmarks hused htrim in
theorem pruned_dropped : (p.dropped s₁ trim).Pruned := by
  have same := thisModule_trimmed hp hentry hs₁ htrim
  have needed (x : Symbol) : x ∈ used ↔ (p.dropped s₁ trim).Needed x := by
    rw [(needsSame_dropped hp hentry hs₁ hused htrim).needed, ← used_iff_needed, hused]
  refine ⟨fun e he => ?_, fun id hid => ?_, fun x hx => ?_⟩
  · rw [same] at he
    have hid : e.2 ∈ (trim p.thisModule).functions.values := List.mem_map_of_mem he
    rw [htrim.functions, List.mem_filter, Bool.or_eq_true, List.contains_iff_mem] at he
    refine he.2.imp (fun native => ?_) (needed _).1
    rw [Visitor.isNative, function?_dropped hp hentry hs₁ htrim hid]
    exact (hs₁.isNative e.2).trans native
  · rw [same, htrim.globalOrder, List.mem_filter, List.contains_iff_mem] at hid
    exact (needed _).1 hid.2
  · have marked : (s₁.modifyModule p.this trim).IsMarked x := by
      have := hmarks x ((needed x).2 hx)
      cases x <;> exact this
    exact marked.of_partOf (partOf_dropped p s₁ trim)

end Dropping

end Program

end Frontend
