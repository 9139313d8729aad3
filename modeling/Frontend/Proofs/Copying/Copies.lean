import Frontend.Expr.Copy
import Frontend.Proofs.Copying.Renaming
import Frontend.Proofs.Traversal.Ends

/-!
# Copies of trees and functions

The items of the copy of a node are the copies of its items, in the same order. A tree that mentions
its variables in some order is copied in enough steps, and the copy mentions the fresh variables in
the same order.
-/

namespace Frontend

def copyItem (copy : Expr → CopyM Expr) : Item → CopyM Item
  | .declared id => .declared <$> copyVariable copy id
  | .child e => .child <$> copy e
  | .name id => .name <$> CopyM.rename id

section Items

variable {copy : Expr → CopyM Expr}

theorem mapM_map_of {α β γ δ : Type} {f : α → CopyM β} {g : γ → CopyM δ} {h : α → γ} {k : β → δ}
    (hfg : ∀ a, g (h a) = k <$> f a) (as : List α) :
    (as.map h).mapM g = List.map k <$> as.mapM f := by
  induction as with
  | nil => simp
  | cons a as ih => simp [ih, hfg]

theorem mapM_toList {α β : Type} (f : α → CopyM β) (a : Option α) :
    a.toList.mapM f = Option.toList <$> a.mapM f := by
  cases a <;> simp

theorem mapM_children (es : List Expr) :
    (es.map .child).mapM (copyItem copy) = List.map .child <$> es.mapM copy :=
  mapM_map_of (f := copy) (g := copyItem copy) (fun _ => rfl) es

theorem mapM_declared (ids : List VarId) :
    (ids.map .declared).mapM (copyItem copy) =
      List.map .declared <$> ids.mapM (copyVariable copy) :=
  mapM_map_of (f := copyVariable copy) (g := copyItem copy) (fun _ => rfl) ids

theorem mapM_names (ids : List VarId) :
    (ids.map .name).mapM (copyItem copy) = List.map .name <$> ids.mapM CopyM.rename :=
  mapM_map_of (f := CopyM.rename) (g := copyItem copy) (fun _ => rfl) ids

theorem mapM_fields (fs : List FieldInit) :
    (fs.map fun f => .child f.value).mapM (copyItem copy) =
      (List.map fun f => .child f.value) <$> fs.mapM (copyField copy) :=
  mapM_map_of (f := copyField copy) (g := copyItem copy) (fun f => by simp [copyItem, copyField]) fs

theorem mapM_rows (rows : List (List FieldInit)) :
    (rows.flatMap fun fs => fs.map fun f => .child f.value).mapM (copyItem copy) =
      (List.flatMap fun fs => fs.map fun f => .child f.value) <$>
        rows.mapM (·.mapM (copyField copy)) := by
  induction rows with
  | nil => simp
  | cons fs rows ih => simp [ih, mapM_fields, List.mapM_append, -List.mapM_map]

theorem mapM_items (copy : Expr → CopyM Expr) (n : Node) :
    n.items.mapM (copyItem copy) = Node.items <$> copyNode copy n := by
  cases n with
  | literal value => cases value <;> simp [Node.items, Node.parts, Part.items, copyNode]
  | makeStruct type rows useInitializer =>
    have items (rows : List (List FieldInit)) : (Node.makeStruct type rows useInitializer).items =
        rows.flatMap fun fs => fs.map fun f => .child f.value := by
      simp [Node.items, Node.parts, Part.items]
    rw [items, mapM_rows, copyNode]
    simp [items]
  | _ =>
    simp [Node.items, Node.parts, Part.items, copyNode, copyItem, List.mapM_append, mapM_children,
      mapM_declared, mapM_names, mapM_fields, mapM_toList, -List.mapM_map]

end Items

def Copying.renames (c : Copying) : Renaming := ⟨c.renamed, c.store.vars.slots.size⟩

def Copying.Reads (c : Copying) (t : Store) (ms : List Mention) : Prop :=
  ∀ id, .declares id ∈ ms →
    id.index < c.store.vars.slots.size ∧ (c.store.var id).init = (t.var id).init

/-- The items left by a copy mention the copies of what was mentioned, and variables that were there
are as they were. -/
structure Copied (c : Copying) (ms : List Mention) (items : List Item) (c' : Copying) : Prop where
  mentions : c'.store.Mentions items (c.renames.copies ms)
  renames : c'.renames = c.renames.after ms
  kept : ∀ id, id.index < c.store.vars.slots.size → c'.store.vars.get? id = c.store.vars.get? id

namespace Copied

variable {c c₁ c' : Copying} {t : Store} {ms ms' : List Mention} {items items' : List Item}

theorem size_le (h : Copied c ms items c') :
    c.store.vars.slots.size ≤ c'.store.vars.slots.size := by
  have := Renaming.next_le_after c.renames ms
  rw [← h.renames] at this
  exact this

theorem reads (h : Copied c ms items c') (hr : c.Reads t ms') : c'.Reads t ms' := by
  intro id hid
  obtain ⟨hlt, hinit⟩ := hr id hid
  refine ⟨Nat.lt_of_lt_of_le hlt h.size_le, ?_⟩
  rw [← hinit, Store.var, Store.var, h.kept id hlt]

theorem nil (c : Copying) : Copied c [] [] c := ⟨.nil, rfl, fun _ _ => rfl⟩

theorem append (h : Copied c ms items c₁) (h' : Copied c₁ ms' items' c') :
    Copied c (ms ++ ms') (items ++ items') c' where
  mentions := by
    rw [Renaming.copies_append, ← h.renames]
    refine (h.mentions.of_inits fun id hid => ?_).append h'.mentions
    have hlt : id.index < c₁.store.vars.slots.size := by
      have := (Renaming.bounds_of_declares hid).2
      rw [← h.renames] at this
      exact this
    rw [Store.var, Store.var, h'.kept id hlt]
  renames := by rw [Renaming.after_append, ← h.renames, h'.renames]
  kept id hid := by
    rw [h'.kept id (Nat.lt_of_lt_of_le hid h.size_le), h.kept id hid]

end Copied

/-- The variable that a declaration puts into the store, after its initializer has been copied. -/
theorem declare_ends {c₀ c : Copying} {id : VarId} {v : Variable} {ms : List Mention}
    {items : List Item} (h : Copied c₀ ms items c)
    (hinit : v.init = none ∧ ms = [] ∨ ∃ i, v.init = some i ∧ i.node.items = items) :
    Ends (CopyM.declare id v) c fun fresh c' =>
      Copied c₀ (ms ++ [.declares id]) [.declared fresh] c' := by
  refine ⟨c.store.vars.nextId, _, rfl, ?_⟩
  have hkept (other : VarId) (hother : other.index < c.store.vars.slots.size) :
      (c.store.vars.push v).get? other = c.store.vars.get? other := by
    refine Table.get?_push_of_ne _ _ fun same => ?_
    rw [same] at hother
    exact Nat.lt_irrefl _ hother
  have hvar : (c.store.addVariable v).2.var c.store.vars.nextId = v := by
    simp [Store.var, Store.addVariable]
  refine ⟨?_, ?_, fun other hother => ?_⟩
  · have hfresh : c₀.renames.copies (ms ++ [.declares id]) =
        c₀.renames.copies ms ++ [.declares c.store.vars.nextId] := by
      rw [Renaming.copies_append, ← h.renames]
      rfl
    rw [hfresh]
    rcases hinit with ⟨hnone, rfl⟩ | ⟨i, hsome, rfl⟩
    · exact .plain ((congrArg Variable.init hvar).trans hnone) .nil
    · refine .init ((congrArg Variable.init hvar).trans hsome)
        (h.mentions.of_inits fun other hother => ?_) .nil
      have hlt : other.index < c.store.vars.slots.size := by
        have := (Renaming.bounds_of_declares hother).2
        rw [← h.renames] at this
        exact this
      exact congrArg (fun x => (x.getD default).init) (hkept other hlt)
  · rw [Renaming.after_append, ← h.renames]
    simp [Copying.renames, Renaming.after, Renaming.step, Table.push, Table.nextId]
  · rw [← h.kept other hother]
    exact hkept other (Nat.lt_of_lt_of_le hother h.size_le)

def CopiesTrees (steps : Nat) : Prop :=
  ∀ {t : Store} {e : Expr} {ms : List Mention} {c : Copying}, t.Mentions e.node.items ms →
    c.Reads t ms → e.weight + t.initWeight ≤ steps →
      Ends (copyIn steps e) c fun e' c' => Copied c ms e'.node.items c'

section Runs

variable {steps : Nat} {t : Store} {ms : List Mention} {c : Copying}

/-- The initializer of a variable is copied, which never comes by the variable itself. -/
theorem copyVariable_ends (htrees : CopiesTrees steps) {id : VarId}
    (h : t.Mentions [.declared id] ms) (hc : c.Reads t ms) (hsteps : t.initWeight ≤ steps) :
    Ends (copyVariable (copyIn steps) id) c fun fresh c' => Copied c ms [.declared fresh] c' := by
  have hget : (get : CopyM Copying).run c = .ok (c, c) := rfl
  refine .bind_run hget ?_
  cases h with
  | plain hnone h =>
    cases h
    have hread : (c.store.var id).init = none := (hc id (.head _)).2.trans hnone
    dsimp only
    rw [hread]
    exact .bind_run (a := none) rfl (declare_ends (.nil c) (.inl ⟨rfl, rfl⟩))
  | @init id i _ ms₁ _ hi he h =>
    cases h
    have hread : (c.store.var id).init = some i :=
      (hc id (List.mem_append_right _ (.head _))).2.trans hi
    dsimp only
    rw [hread]
    have hnot := Store.Mentions.not_declares_of_init hi he
    have hc₁ : c.Reads (t.detach id) ms₁ := by
      intro other hother
      obtain ⟨hlt, hinit⟩ := hc other (List.mem_append_left _ hother)
      refine ⟨hlt, ?_⟩
      rw [Store.init_detach, if_neg, hinit]
      intro same
      rw [same] at hother
      exact hnot hother
    have hweight := Store.initWeight_detach hi
    have hinit : Ends (some <$> copyIn steps i) c fun init c' =>
        ∃ i', init = some i' ∧ Copied c ms₁ i'.node.items c' :=
      ((htrees (he.detach hnot) hc₁ (by omega)).mono fun i' _ h => ⟨i', rfl, h⟩).map
    refine .bind hinit ?_
    rintro init c₁ ⟨i', rfl, hi'⟩
    exact declare_ends hi' (.inr ⟨i', rfl, rfl⟩)

theorem item_ends (htrees : CopiesTrees steps) {item : Item} (h : t.Mentions [item] ms)
    (hc : c.Reads t ms) (hweight : ∀ e, item = .child e → e.weight + t.initWeight ≤ steps)
    (hsteps : t.initWeight ≤ steps) :
    Ends (copyItem (copyIn steps) item) c fun item' c' => Copied c ms [item'] c' := by
  cases item with
  | declared id =>
    refine Ends.map ?_
    exact copyVariable_ends htrees h hc hsteps
  | child e =>
    cases h with
    | child he h =>
      cases h
      rw [List.append_nil] at hc ⊢
      refine Ends.map ((htrees he hc (hweight e rfl)).mono fun e' c' he' => ?_)
      refine { he' with mentions := ?_ }
      have := Store.Mentions.child he'.mentions .nil
      rwa [List.append_nil] at this
  | name id =>
    cases h with
    | name h =>
      cases h
      refine Ends.map ⟨(c.renamed.lookup id).getD id, c, rfl, ?_, rfl, fun _ _ => rfl⟩
      exact .name .nil

theorem items_ends (htrees : CopiesTrees steps) {items : List Item} (h : t.Mentions items ms)
    (hc : c.Reads t ms) (hweight : ∀ e, .child e ∈ items → e.weight + t.initWeight ≤ steps)
    (hsteps : t.initWeight ≤ steps) :
    Ends (items.mapM (copyItem (copyIn steps))) c fun items' c' => Copied c ms items' c' := by
  induction items generalizing ms c with
  | nil =>
    cases h
    exact .pure (.nil c)
  | cons item items ih =>
    obtain ⟨ms₁, ms₂, h₁, h₂, rfl⟩ := h.of_cons
    rw [List.mapM_cons]
    refine .bind (item_ends htrees h₁ (fun id hid => hc id (List.mem_append_left _ hid))
      (fun e he => hweight e (he ▸ .head _)) hsteps) ?_
    intro item' c₁ hitem
    have hc₁ : c₁.Reads t ms₂ := hitem.reads fun id hid => hc id (List.mem_append_right _ hid)
    refine .bind (ih h₂ hc₁ fun e he => hweight e (.tail _ he)) ?_
    intro items' c₂ hitems
    exact .pure (hitem.append hitems)

theorem copiesTrees (steps : Nat) : CopiesTrees steps := by
  induction steps with
  | zero =>
    intro t e ms c _ _ hsteps
    have := e.weight_pos
    omega
  | succ steps ih =>
    intro t e ms c h hc hsteps
    have hitems := items_ends ih h hc (fun child hchild => by
      have := Expr.weight_lt_of_item hchild
      omega) (by have := e.weight_pos; omega)
    rw [mapM_items] at hitems
    exact .bind hitems.of_map fun n' c' h' => .pure h'

end Runs

def Store.Extends (s s' : Store) : Prop :=
  ∀ id, id.index < s.vars.slots.size →
    id.index < s'.vars.slots.size ∧ s'.vars.get? id = s.vars.get? id

section Readings

variable {s : Store} {c c' : Copying}

theorem extends_declare {id fresh : VarId} {v : Variable} (h : s.Extends c.store)
    (hrun : (CopyM.declare id v).run c = .ok (fresh, c')) : s.Extends c'.store := by
  cases hrun
  intro other hother
  obtain ⟨hlt, hget⟩ := h other hother
  refine ⟨?_, ?_⟩
  · simp only [Table.push, Array.size_push]
    omega
  · rw [← hget]
    refine Table.get?_push_of_ne _ _ fun same => ?_
    rw [same] at hlt
    exact Nat.lt_irrefl _ hlt

/-- Copies of trees whose variables are there have come to an end only if the trees can be read. -/
def ReadsTrees (s : Store) (copy : Expr → CopyM Expr) : Prop :=
  ∀ {e e' : Expr} {c c' : Copying},
    (∀ id, s.DeclaresIn e.node.items id → id.index < s.vars.slots.size) → s.Extends c.store →
      (copy e).run c = .ok (e', c') → (∃ ms, s.Mentions e.node.items ms) ∧ s.Extends c'.store

variable {copy : Expr → CopyM Expr} (htrees : ReadsTrees s copy)

include htrees

theorem read_item {item item' : Item}
    (alive : ∀ id, s.DeclaresIn [item] id → id.index < s.vars.slots.size)
    (hs : s.Extends c.store) (hrun : (copyItem copy item).run c = .ok (item', c')) :
    (∃ ms, s.Mentions [item] ms) ∧ s.Extends c'.store := by
  cases item with
  | name id =>
    cases hrun
    exact ⟨⟨_, .name .nil⟩, hs⟩
  | child e =>
    obtain ⟨e', he', _⟩ := exists_of_map hrun
    obtain ⟨⟨ms, hms⟩, hs'⟩ := htrees (fun id hid => alive id (.child (.head _) hid)) hs he'
    exact ⟨⟨_, .child hms .nil⟩, hs'⟩
  | declared id =>
    obtain ⟨fresh, hfresh, _⟩ := exists_of_map hrun
    have hget : (get : CopyM Copying).run c = .ok (c, c) := rfl
    obtain ⟨_, _, hc, hrest⟩ := exists_of_bind hfresh
    rw [hget] at hc
    cases hc
    obtain ⟨init, c₁, hinit, hdeclare⟩ := exists_of_bind hrest
    have hvar : (c.store.var id).init = (s.var id).init := by
      rw [Store.var, Store.var, (hs id (alive id (.here (.head _)))).2]
    rw [hvar] at hinit
    cases hi : (s.var id).init with
    | none =>
      rw [hi] at hinit
      cases hinit
      exact ⟨⟨_, .plain hi .nil⟩, extends_declare hs hdeclare⟩
    | some i =>
      rw [hi] at hinit
      obtain ⟨i', hi', _⟩ := exists_of_map (g := some) (m := copy i) hinit
      obtain ⟨⟨ms, hms⟩, hs₁⟩ := htrees (fun id hid => alive id (.init (.head _) hi hid)) hs hi'
      exact ⟨⟨_, .init hi hms .nil⟩, extends_declare hs₁ hdeclare⟩

theorem read_items {items items' : List Item}
    (alive : ∀ id, s.DeclaresIn items id → id.index < s.vars.slots.size)
    (hs : s.Extends c.store) (hrun : (items.mapM (copyItem copy)).run c = .ok (items', c')) :
    (∃ ms, s.Mentions items ms) ∧ s.Extends c'.store := by
  induction items generalizing c items' with
  | nil =>
    cases hrun
    exact ⟨⟨_, .nil⟩, hs⟩
  | cons item items ih =>
    rw [List.mapM_cons] at hrun
    obtain ⟨item', c₁, hitem, hrest⟩ := exists_of_bind hrun
    obtain ⟨rest, c₂, hitems, hpure⟩ := exists_of_bind hrest
    cases hpure
    obtain ⟨⟨ms, hms⟩, hs₁⟩ := read_item htrees (fun id hid => alive id (hid.mono (by simp))) hs hitem
    obtain ⟨⟨ms', hms'⟩, hs₂⟩ := ih (fun id hid => alive id (hid.mono (by simp))) hs₁ hitems
    exact ⟨⟨_, hms.append hms'⟩, hs₂⟩

omit htrees

theorem readsTrees (s : Store) (steps : Nat) : ReadsTrees s (copyIn steps) := by
  induction steps with
  | zero =>
    intro e e' c c' _ _ hrun
    cases hrun
  | succ steps ih =>
    intro e e' c c' alive hs hrun
    obtain ⟨n', _, hnode, hpure⟩ := exists_of_bind hrun
    cases hpure
    have hitems : (e.node.items.mapM (copyItem (copyIn steps))).run c = .ok (n'.items, c') := by
      rw [mapM_items, StateT.run_map, hnode]
      rfl
    exact read_items ih alive hs hitems

end Readings

end Frontend
