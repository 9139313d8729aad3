import Frontend.Proofs.Optimizer.Anchoring
import Frontend.Proofs.Optimizer.Convergence
import Frontend.Proofs.Optimizer.Validity

/-!
# Labels and jumps after the optimizer

A pass keeps the labels that are anchored against the cuts that it makes itself, and the optimizer
those that are anchored against all cuts. Passes that make no cuts keep every label. No pass adds a
label or a jump, but a label that is not anchored may go while a jump to it stays.
-/

namespace Frontend

namespace SoundRule

variable {cuts : Cuts} {s s₀ : Store}

theorem of_keepsAnchors {rule : Store → Expr → Option Expr}
    (hw : ∀ {s e e'}, rule s e = some e' → e'.weight ≤ e.weight)
    (h : ∀ {s₁ e e'}, s.SameCallees s₁ → rule s₁ e = some e' → Expr.KeepsAnchors cuts s₀ e e') :
    SoundRule rule s (Expr.KeepsAnchors cuts s₀) where
  refl := .refl
  trans _ _ _ := .trans
  congr := .congr
  weight := hw
  sound := h

theorem cancelReference_keepsAnchors :
    SoundRule (fun _ => Expr.cancelReference?) s (Expr.KeepsAnchors cuts s₀) :=
  of_keepsAnchors Expr.weight_cancelReference fun _ => .cancelReference

theorem foldConstant_keepsAnchors :
    SoundRule Store.foldConstant? s (Expr.KeepsAnchors cuts s₀) :=
  of_keepsAnchors Store.weight_foldConstant fun _ => .foldConstant

theorem cleanBlock_keepsAnchors :
    SoundRule (fun _ => Expr.cleanBlock?) s (Expr.KeepsAnchors cuts s₀) :=
  of_keepsAnchors Expr.weight_cleanBlock fun _ => .cleanBlock

theorem chooseBranch_keepsAnchors (hcut : cuts.branches = true) :
    SoundRule Store.chooseBranch? s (Expr.KeepsAnchors cuts s₀) :=
  of_keepsAnchors Store.weight_chooseBranch fun _ => .chooseBranch hcut

theorem tidyBlock_keepsAnchors (hcut : cuts.statements = true) (hpanic : s.PanicsIn s₀) :
    SoundRule Store.tidyBlock? s (Expr.KeepsAnchors cuts s₀) :=
  of_keepsAnchors Store.weight_tidyBlock fun hs =>
    .tidyBlock hcut (.trans (.of_sameCallees hs) hpanic)

end SoundRule

/-- The second tree has no more labels of a number than the first and no more jumps to one, and still
a label of every number that is safe in the first. -/
def Expr.KeepsLabels (safe : Expr → Int32 → Prop) (e e' : Expr) : Prop := ∀ k,
  e'.count (Node.labels k) ≤ e.count (Node.labels k) ∧
  e'.count (Node.jumpsTo k) ≤ e.count (Node.jumpsTo k) ∧
  (safe e k → 0 < e'.count (Node.labels k))

namespace Program

variable {cuts : Cuts} {p₀ p p' : Program}

/-- What is registered after unused declarations are dropped was registered before. -/
theorem registers_of_dropped {s₁ : Store} {used : List Symbol} {trim : Module → Module}
    {id : FunctionId} (hentry : p.store.entryPoints p.thisModule ≠ []) (hs₁ : p.store.Marked s₁)
    (htrim : p.store.Trimmed used p.thisModule (trim p.thisModule))
    (hid : (p.dropped s₁ trim).Registers id) : p.Registers id := by
  obtain ⟨m, hm, hid⟩ := hid
  refine ⟨m, hm, ?_⟩
  by_cases hne : m = p.this
  · subst hne
    have same : (p.dropped s₁ trim).store.module p.this = trim p.thisModule :=
      thisModule_dropped hentry hs₁ hm trim
    rw [same, List.mem_append] at hid
    refine List.mem_append.2 (hid.imp (fun h => ?_) fun h => ?_)
    · obtain ⟨entry, hmem, rfl⟩ := List.mem_map.1 h
      rw [htrim.functions, List.mem_filter] at hmem
      exact List.mem_map_of_mem hmem.1
    · rw [htrim.rest] at h
      exact h
  · rw [module_dropped_of_ne hs₁ hm hne] at hid
    exact hid

structure KeepsAnchors (cuts : Cuts) (p₀ p : Program) : Prop where
  bodies : ∀ id f', p.store.function? id = some f' → ∃ f, p₀.store.function? id = some f ∧
    f'.name = f.name ∧ f'.isBuiltin = f.isBuiltin ∧
    Option.Rel (Expr.KeepsAnchors cuts p₀.store) f.body f'.body
  registers : ∀ id, p.Registers id → p₀.Registers id
  there : ∀ id, p.Registers id → p₀.store.functions.isAlive id = true →
    p.store.functions.isAlive id = true

namespace KeepsAnchors

theorem refl (p : Program) : p.KeepsAnchors cuts p where
  bodies _ f hf := ⟨f, hf, rfl, rfl, Table.rel_refl .refl f.body⟩
  registers _ hid := hid
  there _ _ alive := alive

theorem panicsIn (h : p₀.KeepsAnchors cuts p) : p.store.PanicsIn p₀.store := by
  intro function hpanic
  unfold Store.isBuiltinPanic at hpanic ⊢
  cases function with
  | none => cases hpanic
  | some id =>
    rw [Option.bind_some] at hpanic ⊢
    cases hf' : p.store.function? id with
    | none =>
      rw [hf'] at hpanic
      cases hpanic
    | some f' =>
      obtain ⟨f, hf, hname, hbuiltin, _⟩ := h.bodies id f' hf'
      simp only [hf'] at hpanic
      simp only [hf, ← hname, ← hbuiltin]
      exact hpanic

theorem of_rewritten {s : Store} (h : p₀.KeepsAnchors cuts p)
    (hs : p.store.Rewritten (Expr.KeepsAnchors cuts p₀.store) s) :
    p₀.KeepsAnchors cuts (p.inStore s).collect where
  bodies id f' hf' := by
    have hf' : s.functions.get? id = some f' := (Store.partOf_collect s _).functions id f' hf'
    obtain ⟨g, hg, body, rfl, hbody⟩ := hs.functions.of_get? hf'
    obtain ⟨f, hf, hname, hbuiltin, hrel⟩ := h.bodies id g hg
    exact ⟨f, hf, hname, hbuiltin, Table.rel_trans (fun _ _ _ => .trans) hrel hbody⟩
  registers id hid := h.registers id (registers_of_rewritten hs ▸ hid)
  there id hid alive := by
    have hid : p.Registers id := registers_of_rewritten hs ▸ hid
    have hstore : (p.inStore s).Registers id := registers_inStore_of_rewritten hs ▸ hid
    have same : s.functions.isAlive id = p.store.functions.isAlive id := hs.functions.isAlive id
    rw [isAlive_collect hstore]
    exact same.trans (h.there id hid alive)

theorem of_dropped {s₁ : Store} {used : List Symbol} {trim : Module → Module}
    (h : p₀.KeepsAnchors cuts p) (hentry : p.store.entryPoints p.thisModule ≠ [])
    (hs₁ : p.store.Marked s₁) (htrim : p.store.Trimmed used p.thisModule (trim p.thisModule)) :
    p₀.KeepsAnchors cuts (p.dropped s₁ trim) where
  bodies id f' hf' := by
    obtain ⟨g, used, hg, rfl⟩ := function_dropped hs₁ hf'
    exact h.bodies id g hg
  registers id hid := h.registers id (registers_of_dropped hentry hs₁ htrim hid)
  there id hid alive := by
    have before : (p.inStore (s₁.modifyModule p.this trim)).Registers id := by
      rw [← registers_collect]
      exact hid
    have same : s₁.functions.isAlive id = p.store.functions.isAlive id := hs₁.functions.isAlive id
    rw [isAlive_collect before]
    exact same.trans (h.there id (registers_of_dropped hentry hs₁ htrim hid) alive)

theorem rewrite {rule : Store → Expr → Option Expr} (h : p₀.KeepsAnchors cuts p)
    (hR : SoundRule rule p.store (Expr.KeepsAnchors cuts p₀.store)) :
    Ends (Program.rewrite rule) p fun _ p' => p₀.KeepsAnchors cuts p' := by
  refine (rewrite_ends p hR).mono ?_
  rintro _ _ ⟨s, hs, rfl⟩
  exact h.of_rewritten hs

theorem removeUnused (h : p₀.KeepsAnchors cuts p) :
    Ends Program.removeUnused p fun _ p' => p₀.KeepsAnchors cuts p' := by
  have clean (s : Store) :
      SoundRule (fun _ => Expr.cleanBlock?) s (Expr.KeepsAnchors cuts p₀.store) :=
    .cleanBlock_keepsAnchors
  by_cases hentry : p.store.entryPoints p.thisModule = []
  · refine (removeUnused_ends clean (Store.dropUnused_of_no_entry hentry)).mono ?_
    rintro _ _ ⟨t, ht, rfl⟩
    exact (h.of_rewritten (.refl .refl p.store)).of_rewritten ht
  · obtain ⟨used, s₁, trim, removed, hused, hs₁, htrim, hdrop⟩ := Store.dropUnused_eq_ok hentry
    refine (removeUnused_ends clean hdrop).mono ?_
    rintro _ _ ⟨t, ht, rfl⟩
    exact (h.of_dropped hentry hs₁ htrim).of_rewritten ht

/-- The whole optimizer keeps what is anchored against both cuts. -/
theorem upheld (hbranches : cuts.branches = true) (hstatements : cuts.statements = true) :
    Upheld fun p => p₀.KeepsAnchors cuts p ∧ p.rewriters = [] where
  pass pass hpass p hp := by
    have keeps : Ends pass p fun _ p' => p₀.KeepsAnchors cuts p' := by
      simp only [passes, List.mem_cons, List.not_mem_nil, or_false] at hpass
      rcases hpass with rfl | rfl | rfl | rfl | rfl | rfl
      · exact hp.1.rewrite .cancelReference_keepsAnchors
      · exact hp.1.removeUnused
      · exact hp.1.rewrite .foldConstant_keepsAnchors
      · exact hp.1.rewrite (.chooseBranch_keepsAnchors hbranches)
      · exact hp.1.rewrite (.tidyBlock_keepsAnchors hstatements hp.1.panicsIn)
      · exact hp.1.removeUnused
    refine (keeps.and (settles_of_pass hpass p)).mono ?_
    rintro _ p' ⟨hkeeps, hsettles⟩
    exact ⟨⟨hkeeps, hsettles.plain.trans hp.2⟩, hsettles.policies⟩
  report _ _ hp := ⟨⟨hp.1.bodies, hp.1.registers, hp.1.there⟩, hp.2⟩
  plain _ hp := hp.2

theorem optimize (hbranches : cuts.branches = true) (hstatements : cuts.statements = true)
    (hplain : p.rewriters = []) :
    Ends Program.optimize p fun _ p' => p.KeepsAnchors cuts p' := by
  rcases optimize_ends (upheld hbranches hstatements) ⟨refl p, hplain⟩ with ⟨hrun, hnone⟩ | hends
  · -- Without a limit the bulk bounds the rounds.
    obtain ⟨_, p', hok, _⟩ := optimize_settles hplain fun k hk => by
      rw [hnone] at hk
      cases hk
    rw [hok] at hrun
    cases hrun
  · exact hends.mono fun _ _ h => h.1

end KeepsAnchors

/-- Every function of the second program is one of the first, with a body if it had one there, which
keeps its safe labels. What is still registered is still there. -/
structure KeepsLabels (p p' : Program) (safe : Expr → Int32 → Prop) : Prop where
  bodies : ∀ id f', p'.store.function? id = some f' → ∃ f, p.store.function? id = some f ∧
    Option.Rel (Expr.KeepsLabels safe) f.body f'.body
  registers : ∀ id, p'.Registers id → p.Registers id
  there : ∀ id, p'.Registers id → p.store.functions.isAlive id = true →
    p'.store.functions.isAlive id = true

theorem KeepsAnchors.keepsLabels {safe : Expr → Int32 → Prop} (h : p.KeepsAnchors cuts p')
    (hsafe : ∀ body k, safe body k → body.Anchored cuts p.store k) : p.KeepsLabels p' safe where
  bodies id f' hf' := by
    obtain ⟨f, hf, _, _, hrel⟩ := h.bodies id f' hf'
    refine ⟨f, hf, ?_⟩
    generalize f.body = body, f'.body = body' at hrel ⊢
    cases hrel with
    | none => exact .none
    | @some body _ hkeeps =>
      exact .some fun k => ⟨hkeeps.count (Node.isKind_labels k),
        hkeeps.count (Node.isKind_jumpsTo k),
        fun hk => (hkeeps.anchored (hsafe body k hk)).count_pos⟩
  registers := h.registers
  there := h.there

/-- Every pass ends and adds no label and no jump to a body. References, constants and unused
declarations go without taking a label along. Folding conditions keeps the labels in no branch whose
condition may become known, folding blocks those that no leaving statement cuts off in a list around
them, and the optimizer, which ends without rewriters, keeps the labels that are both. -/
theorem passes_keep_labels (p : Program) :
    (∀ pass ∈ [foldReferences, removeUnused, foldConstants, cleanStatements],
      Ends pass p fun _ p' => p.KeepsLabels p' fun body k => 0 < body.count (Node.labels k)) ∧
    (Ends foldConditions p fun _ p' =>
      p.KeepsLabels p' fun body k => body.Anchored { branches := true } p.store k) ∧
    (Ends foldBlocks p fun _ p' =>
      p.KeepsLabels p' fun body k => body.Anchored { statements := true } p.store k) ∧
    (p.rewriters = [] → Ends optimize p fun _ p' => p.KeepsLabels p' fun body k =>
      body.Anchored { branches := true, statements := true } p.store k) := by
  have keeps {cuts : Cuts} : p.KeepsAnchors cuts p := .refl p
  refine ⟨fun pass hpass => ?_, ?_, ?_, fun hplain => ?_⟩
  · have uncut : Ends pass p fun _ p' => p.KeepsAnchors {} p' := by
      simp only [List.mem_cons, List.not_mem_nil, or_false] at hpass
      rcases hpass with rfl | rfl | rfl | rfl
      · exact keeps.rewrite .cancelReference_keepsAnchors
      · exact keeps.removeUnused
      · exact keeps.rewrite .foldConstant_keepsAnchors
      · exact keeps.rewrite .cleanBlock_keepsAnchors
    exact uncut.mono fun _ _ h => h.keepsLabels fun body _ => .of_count_pos p.store body
  · exact (keeps.rewrite (.chooseBranch_keepsAnchors rfl)).mono fun _ _ h =>
      h.keepsLabels fun _ _ => id
  · have panics : p.store.PanicsIn p.store := fun _ hpanic => hpanic
    exact (keeps.rewrite (.tidyBlock_keepsAnchors rfl panics)).mono fun _ _ h =>
      h.keepsLabels fun _ _ => id
  · exact (KeepsAnchors.optimize rfl rfl hplain).mono fun _ _ h => h.keepsLabels fun _ _ => id

section Samples

def ofBodies (bodies : List Expr) : Program where
  store :=
    { functions := { slots := (bodies.map fun body => some
        { name := "main", exports := true, body := some body }).toArray }
      modules := { slots := #[some
        { name := ""
          functions := .ofList (bodies.zipIdx.map fun x => (toString x.2, ⟨x.2⟩)) }] } }
  library := [⟨0⟩]
  this := ⟨0⟩

def statements (list : List Expr) : Expr := .ofNode .builtin (.block {} list [])

def landing : Expr := .ofNode .builtin (.label 1 "")

def leaving : Expr := .ofNode .builtin (.ret none false false)

def unknown : Expr := .ofNode .builtin (.var { name := "x" })

def maybe (e : Expr) : Expr := .ofNode .builtin (.ifThenElse unknown e none false)

def jump : Expr := maybe (.ofNode .builtin (.goto 1 none))

def loop : Expr := .ofNode .builtin (.whileLoop unknown (statements [leaving, landing]))

def jumpIntoLoop : Program := ofBodies [statements [jump, maybe leaving, loop]]

theorem lasting_unknown : unknown.Lasting := .kind rfl

theorem anchored_jumpIntoLoop (cuts : Cuts) (s : Store) :
    (statements [jump, maybe leaving, loop]).Anchored cuts s 1 := by
  have inner : (statements [leaving, landing]).Anchored cuts s 1 :=
    .statement (show [leaving] ++ landing :: [] ∈ [[leaving, landing], []] from .head _)
      (fun _ => .inl rfl) (.label rfl)
  have around : loop.Anchored cuts s 1 :=
    .branch (.head _) (fun _ => List.forall_mem_singleton.2 lasting_unknown) inner
  have passable (e : Expr) : s.Passable (maybe e) := .noElse rfl lasting_unknown
  have reached : s.Reaches True [jump, maybe leaving] := by
    refine Store.reaches_of_passable True.intro fun e he => ?_
    rcases List.mem_pair.1 he with rfl | rfl
    · exact passable _
    · exact passable _
  exact .statement
    (show [jump, maybe leaving] ++ loop :: [] ∈ [[jump, maybe leaving, loop], []] from .head _)
    (fun _ => .inr reached) around

/-- The label in the loop is still there when the optimizer has run. -/
theorem passes_keep_labels_jumpIntoLoop :
    jumpIntoLoop.rewriters = [] ∧ Ends optimize jumpIntoLoop fun _ p' =>
      ∀ f', p'.store.function? ⟨0⟩ = some f' →
        ∃ body', f'.body = some body' ∧ 0 < body'.count (Node.labels 1) := by
  have hplain : jumpIntoLoop.rewriters = [] := by decide
  refine ⟨hplain, ((passes_keep_labels jumpIntoLoop).2.2.2 hplain).mono ?_⟩
  intro _ p' h f' hf'
  obtain ⟨f, hf, hrel⟩ := h.bodies ⟨0⟩ f' hf'
  cases hf
  generalize f'.body = body at hrel
  cases hrel with
  | @some _ body' hkeeps => exact ⟨body', rfl, (hkeeps 1).2.2 (anchored_jumpIntoLoop _ _)⟩

/-- One label is in a block behind a statement that always leaves, the other one in a branch that is
not taken. -/
def buriedLabels : Program := ofBodies [
  statements [jump, leaving, statements [landing]],
  statements [jump, .ofNode .builtin
    (.ifThenElse (.const .builtin (.bool false)) (statements [landing]) none false)]]

def tally (p : Program) (kind : Node → Bool) (id : FunctionId) : Nat :=
  (((p.store.function? id).bind (·.body)).map (Expr.count kind)).getD 0

/-- Both passes with cuts leave a jump without its label, and so does the optimizer. -/
theorem passes_lose_buriedLabels :
    (∀ id ∈ [⟨0⟩, ⟨1⟩], buriedLabels.tally (Node.labels 1) id = 1) ∧
    (Ends foldBlocks buriedLabels fun _ p' =>
      p'.tally (Node.jumpsTo 1) ⟨0⟩ = 1 ∧ p'.tally (Node.labels 1) ⟨0⟩ = 0) ∧
    (Ends foldConditions buriedLabels fun _ p' =>
      p'.tally (Node.jumpsTo 1) ⟨1⟩ = 1 ∧ p'.tally (Node.labels 1) ⟨1⟩ = 0) ∧
    (Ends optimize buriedLabels fun _ p' => ∀ id ∈ [⟨0⟩, ⟨1⟩],
      p'.tally (Node.jumpsTo 1) id = 1 ∧ p'.tally (Node.labels 1) id = 0) := by
  decide +kernel

end Samples

end Program

end Frontend
