import Frontend.Proofs.Copying.Growth

/-!
# Which copies are self-contained

A tree or a function has a copy exactly if no variable is declared in its own initializer, and the
copy stands on its own exactly if every variable that is declared in the original is declared there
before it is named.
-/

namespace Frontend

variable {s : Store} {ms : List Mention}

theorem reads_start (s : Store) (ms : List Mention)
    (alive : ∀ id, .declares id ∈ ms → id.index < s.vars.slots.size) :
    Copying.Reads ⟨s, []⟩ s ms := fun id hid => ⟨alive id hid, rfl⟩

/-- What a copy that starts from scratch leaves. -/
theorem Copied.selfContained_iff {items : List Item} {c : Copying} (h : Copied ⟨s, []⟩ ms items c)
    (alive : ∀ id, .declares id ∈ ms → id.index < s.vars.slots.size) :
    ∃ ms', c.store.Mentions items ms' ∧ (SelfContained ms ms' ↔ DeclaredFirst ms) :=
  ⟨_, h.mentions, Renaming.selfContained_iff alive⟩

theorem copyExpr_copied {e : Expr} (h : s.Mentions [.child e] ms)
    (alive : ∀ id, .declares id ∈ ms → id.index < s.vars.slots.size) :
    ∃ e' c, s.copyExpr e = .ok (e', c.store) ∧ Copied ⟨s, []⟩ ms [.child e'] c := by
  have hsteps : e.weight + s.initWeight ≤ s.copySteps e.weight := by
    unfold Store.copySteps
    omega
  have hrun : Ends (copyIn (s.copySteps e.weight) e) ⟨s, []⟩ fun e' c =>
      Copied ⟨s, []⟩ ms [.child e'] c := by
    refine Ends.of_map (g := Item.child)
      (item_ends (copiesTrees _) h (reads_start s ms alive) (fun child hchild => ?_) (by omega))
    cases hchild
    exact hsteps
  obtain ⟨e', c, hcopy, hcopied⟩ := hrun
  refine ⟨e', c, ?_, hcopied⟩
  unfold Store.copyExpr
  rw [hcopy]
  rfl

theorem copyExpr_ends {e : Expr} (h : s.Mentions [.child e] ms)
    (alive : ∀ id, .declares id ∈ ms → id.index < s.vars.slots.size) :
    ∃ e' s' ms', s.copyExpr e = .ok (e', s') ∧ s'.Mentions [.child e'] ms' ∧
      (SelfContained ms ms' ↔ DeclaredFirst ms) := by
  obtain ⟨e', c, hcopy, hcopied⟩ := copyExpr_copied h alive
  obtain ⟨ms', hms', hiff⟩ := hcopied.selfContained_iff alive
  exact ⟨e', c.store, ms', hcopy, hms', hiff⟩

theorem mapM_functionItems (copy : Expr → CopyM Expr) (f : Function) :
    f.items.mapM (copyItem copy) = Function.items <$> (do
      let args ← f.args.mapM (copyVariable copy)
      let body ← f.body.mapM copy
      return { f with args, body, module? := none } : CopyM Function) := by
  simp [Function.items, List.mapM_append, mapM_declared, mapM_children, mapM_toList,
    -List.mapM_map]

theorem copyFunction_ends {f : Function} (h : s.Mentions f.items ms)
    (alive : ∀ id, .declares id ∈ ms → id.index < s.vars.slots.size) :
    ∃ f' s' ms', s.copyFunction f = .ok (f', s') ∧ s'.Mentions f'.items ms' ∧
      (SelfContained ms ms' ↔ DeclaredFirst ms) := by
  have hitems := items_ends (copiesTrees (s.copySteps ((f.body.map Expr.weight).getD 0))) h
    (reads_start s ms alive) (fun e he => by
      have hbody : f.body = some e := by simpa [Function.items] using he
      simp only [hbody, Option.map_some, Option.getD_some, Store.copySteps]
      omega) (by
      unfold Store.copySteps
      omega)
  rw [mapM_functionItems] at hitems
  obtain ⟨f', c, hcopy, hcopied⟩ := hitems.of_map
  obtain ⟨ms', hms', hiff⟩ := hcopied.selfContained_iff alive
  refine ⟨f', c.store, ms', ?_, hms', hiff⟩
  unfold Store.copyFunction
  dsimp only
  rw [hcopy]
  rfl

theorem mentions_of_copyExpr {e : Expr} {r : Expr × Store}
    (alive : ∀ id, s.DeclaresIn [.child e] id → id.index < s.vars.slots.size)
    (h : s.copyExpr e = .ok r) : ∃ ms, s.Mentions [.child e] ms := by
  obtain ⟨c, hrun, _⟩ := run_of_copyExpr (t := r.2) h
  obtain ⟨⟨ms, hms⟩, _⟩ := readsTrees s (s.copySteps e.weight)
    (fun id hid => alive id (.child (.head _) hid)) (.refl s) hrun
  exact ⟨_, .child hms .nil⟩

theorem mentions_of_copyFunction {f : Function} {r : Function × Store}
    (alive : ∀ id, s.DeclaresIn f.items id → id.index < s.vars.slots.size)
    (h : s.copyFunction f = .ok r) : ∃ ms, s.Mentions f.items ms := by
  unfold Store.copyFunction at h
  dsimp only at h
  generalize hsteps : s.copySteps ((f.body.map Expr.weight).getD 0) = steps at h
  have hmap := congrArg (StateT.run · (⟨s, []⟩ : Copying)) (mapM_functionItems (copyIn steps) f)
  rw [StateT.run_map] at hmap
  generalize StateT.run (do
    let args ← f.args.mapM (copyVariable (copyIn steps))
    let body ← f.body.mapM (copyIn steps)
    return { f with args, body, module? := none } : CopyM Function) ⟨s, []⟩ = run at h hmap
  cases run with
  | error fault => cases h
  | ok r' => exact (read_items (readsTrees s steps) alive (.refl s) hmap).1

namespace Store

/-- A tree or function whose variables are there has a copy exactly if it can be read, that is, if no
variable is declared in its own initializer. The copy is self-contained, names of variables in their
own initializers and in those of earlier variables included, exactly if no variable of the original
is named before it is declared. -/
theorem copy_selfContained_iff (s : Store) :
    (∀ e, (∀ id, s.DeclaresIn [.child e] id → id.index < s.vars.slots.size) →
      ((∃ r, s.copyExpr e = .ok r) ↔ ∃ ms, s.Mentions [.child e] ms) ∧
      ∀ ms, s.Mentions [.child e] ms → ∃ e' s' ms', s.copyExpr e = .ok (e', s') ∧
        s'.Mentions [.child e'] ms' ∧ (SelfContained ms ms' ↔ DeclaredFirst ms)) ∧
    ∀ f : Function, (∀ id, s.DeclaresIn f.items id → id.index < s.vars.slots.size) →
      ((∃ r, s.copyFunction f = .ok r) ↔ ∃ ms, s.Mentions f.items ms) ∧
      ∀ ms, s.Mentions f.items ms → ∃ f' s' ms', s.copyFunction f = .ok (f', s') ∧
        s'.Mentions f'.items ms' ∧ (SelfContained ms ms' ↔ DeclaredFirst ms) := by
  refine ⟨fun e alive => ?_, fun f alive => ?_⟩
  · have copies (ms : List Mention) (h : s.Mentions [.child e] ms) :=
      copyExpr_ends h fun id hid => alive id (h.declares_of_mem hid)
    refine ⟨⟨fun ⟨r, hr⟩ => mentions_of_copyExpr alive hr, ?_⟩, copies⟩
    rintro ⟨ms, hms⟩
    obtain ⟨e', s', _, hcopy, _⟩ := copies ms hms
    exact ⟨_, hcopy⟩
  · have copies (ms : List Mention) (h : s.Mentions f.items ms) :=
      copyFunction_ends h fun id hid => alive id (h.declares_of_mem hid)
    refine ⟨⟨fun ⟨r, hr⟩ => mentions_of_copyFunction alive hr, ?_⟩, copies⟩
    rintro ⟨ms, hms⟩
    obtain ⟨f', s', _, hcopy, _⟩ := copies ms hms
    exact ⟨_, hcopy⟩

def ofX (init : Option Expr) : Store where
  vars := { slots := #[some { name := "x", type := .ofBase .int, init }] }

end Store

def Expr.nameX : Expr := .ofNode .builtin (.var { name := "x", var? := some ⟨0⟩, isLocal := true })

def Expr.declareX : Expr := .ofNode .builtin (.declare [⟨0⟩] false)

def Expr.declareThenNameX : Expr := .ofNode .builtin (.sequence declareX nameX)

namespace Store

/-- A name behind the declaration becomes a name of the copy. -/
theorem copy_selfContained_iff_declareX : ∃ ms e' s' ms',
    (∀ id, (ofX none).DeclaresIn [.child .declareThenNameX] id → id.index < 1) ∧
      (ofX none).Mentions [.child .declareThenNameX] ms ∧
      (ofX none).copyExpr .declareThenNameX = .ok (e', s') ∧
      s'.Mentions [.child e'] ms' ∧ SelfContained ms ms' := by
  have hdeclare : (ofX none).Mentions Expr.declareX.node.items [.declares ⟨0⟩] := .plain rfl .nil
  have hname : (ofX none).Mentions Expr.nameX.node.items [.names ⟨0⟩] := .name .nil
  have hread : (ofX none).Mentions [.child .declareThenNameX] [.declares ⟨0⟩, .names ⟨0⟩] :=
    .child (e := .declareThenNameX) (.child hdeclare (.child hname .nil)) .nil
  have alive : ∀ id, (ofX none).DeclaresIn [.child .declareThenNameX] id → id.index < 1 := by
    intro id hid
    have hmem := hread.mem_of_declares hid
    simp only [List.mem_cons, Mention.declares.injEq, reduceCtorEq, List.not_mem_nil,
      or_false] at hmem
    rw [hmem]
    exact Nat.one_pos
  have hfirst : DeclaredFirst [.declares ⟨0⟩, .names ⟨0⟩] := by
    intro id before after heq hd
    have hid : id = ⟨0⟩ := by simpa using hd
    rw [hid]
    cases before with
    | nil => cases heq
    | cons m before =>
      rw [(List.cons.inj heq).1]
      exact .head _
  obtain ⟨e', s', ms', hcopy, hms', hiff⟩ :=
    ((copy_selfContained_iff (ofX none)).1 .declareThenNameX alive).2 _ hread
  exact ⟨_, e', s', ms', alive, hread, hcopy, hms', hiff.2 hfirst⟩

/-- The declaration of `x` with its copy behind it, whose initializer names the original. -/
def copyOfX : Store where
  vars := { slots := #[some { name := "x", type := .ofBase .int, init := some .nameX },
    some { name := "x", type := .ofBase .int, init := some .nameX }] }

/-- A name of a variable in its own initializer is copied as a name of the original. -/
theorem copy_selfContained_fails_declareX : ∃ e' s' ms ms',
    (ofX (some .nameX)).copyExpr .declareX = .ok (e', s') ∧
      (ofX (some .nameX)).Mentions [.child .declareX] ms ∧ s'.Mentions [.child e'] ms' ∧
        ¬ SelfContained ms ms' := by
  have hname (s : Store) : s.Mentions Expr.nameX.node.items [.names ⟨0⟩] := .name .nil
  have hread : (ofX (some .nameX)).Mentions [.child .declareX] [.names ⟨0⟩, .declares ⟨0⟩] :=
    .child (e := .declareX) (.init rfl (hname _) .nil) .nil
  have hcopy : copyOfX.Mentions [.child (.ofNode .builtin (.declare [⟨1⟩] false))]
      [.names ⟨0⟩, .declares ⟨1⟩] :=
    .child (e := .ofNode .builtin (.declare [⟨1⟩] false)) (.init rfl (hname _) .nil) .nil
  refine ⟨_, copyOfX, _, _, ?_, hread, hcopy, fun h => ?_⟩
  · rfl
  · exact h.detached ⟨0⟩ (.head _) (.tail _ (.head _))

end Store

end Frontend
