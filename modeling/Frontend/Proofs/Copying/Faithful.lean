import Frontend.Proofs.Copying.SelfContained

/-!
# Copies are faithful

Node by node a copy agrees with its original in everything but variables, and the variables that it
declares agree with those of the original in everything but the module. If every variable is
declared once and before it is named, the variables of the copy are those of the original under an
injective renaming of the declared ones.
-/

namespace Frontend

def Part.outline : Part → Part
  | tree _ => tree default
  | optionTree e => optionTree (e.map fun _ => default)
  | trees es => trees (es.map fun _ => default)
  | fields fs => fields (fs.map fun f => { f with value := default })
  | rows values => rows (values.map fun fs => fs.map fun f => { f with value := default })
  | vars ids => vars (ids.map fun _ => default)
  | varLink id => varLink (id.map fun _ => default)
  | part => part

structure Node.Resembles (n n' : Node) : Prop where
  kind : n.withParts? n'.parts = some n'
  outline : n'.parts.map Part.outline = n.parts.map Part.outline

/-- Items of `s` and `t` that stand over each other are of the same sort: trees with nodes that
resemble each other and agree in place, type and flags, and variables that `R` relates, which agree
in everything but the module where they are declared. -/
inductive Store.Alike (s t : Store) (R : VarId → VarId → Prop) : List Item → List Item → Prop
  | nil : s.Alike t R [] []
  | name {v v' items items'} (link : R v v') (rest : s.Alike t R items items') :
    s.Alike t R (.name v :: items) (.name v' :: items')
  | child {e n' items items'} (node : e.node.Resembles n')
    (inner : s.Alike t R e.node.items n'.items) (rest : s.Alike t R items items') :
    s.Alike t R (.child e :: items) (.child { e with node := n' } :: items')
  | declared {v v' init items items'} (link : R v v')
    (copy : t.vars.get? v' = some { s.var v with init, module? := none })
    (inner : s.Alike t R ((s.var v).init.toList.map .child) (init.toList.map .child))
    (rest : s.Alike t R items items') :
    s.Alike t R (.declared v :: items) (.declared v' :: items')

section Outlines

variable {α β : Type} {P : α → Prop} {Q : β → Prop} {copy : Expr → CopyM Expr}

def CopyM.Gives (work : CopyM α) (P : α → Prop) : Prop := ∀ c, Yields work c fun a _ => P a

namespace CopyM.Gives

theorem pure {a : α} (h : P a) : Gives (Pure.pure a) P := fun _ => .pure h

theorem bind {work : CopyM α} {f : α → CopyM β} (h : work.Gives P) (hf : ∀ a, P a → (f a).Gives Q) :
    Gives (work >>= f) Q := fun c => (h c).bind fun a c' ha => hf a ha c'

theorem any (work : CopyM α) : work.Gives fun _ => True := fun _ _ _ _ => trivial

/-- What a blank is made of does not matter. -/
theorem mapM {γ : Type} {f : α → CopyM β} {blank : α → γ} {blank' : β → γ}
    (h : ∀ a, (f a).Gives fun b => blank' b = blank a) (as : List α) :
    Gives (as.mapM f) fun bs => bs.map blank' = as.map blank := by
  induction as with
  | nil => exact .pure rfl
  | cons a as ih =>
    rw [List.mapM_cons]
    refine .bind (h a) fun b hb => .bind ih fun bs hbs => .pure ?_
    rw [List.map_cons, List.map_cons, hb, hbs]

theorem mapM_option {γ : Type} {f : α → CopyM β} {blank : α → γ} {blank' : β → γ}
    (h : ∀ a, (f a).Gives fun b => blank' b = blank a) (o : Option α) :
    Gives (o.mapM f) fun o' => o'.map blank' = o.map blank := by
  cases o with
  | none => exact .pure rfl
  | some a =>
    intro c o' c' hrun
    obtain ⟨b, hb, rfl⟩ := exists_of_map (g := some) (m := f a) hrun
    exact congrArg some (h a _ _ _ hb)

end CopyM.Gives

namespace Part

@[simp] theorem outline_tree (e : Expr) : (tree e).outline = tree default := rfl

theorem outline_trees (es : List Expr) :
    (es.mapM copy).Gives fun es' => (trees es').outline = (trees es).outline :=
  fun c _ c' h => congrArg trees (CopyM.Gives.mapM (fun _ _ _ _ _ => rfl) es c _ c' h)

theorem outline_optionTree (e : Option Expr) :
    (e.mapM copy).Gives fun e' => (optionTree e').outline = (optionTree e).outline :=
  fun c _ c' h => congrArg optionTree (CopyM.Gives.mapM_option (fun _ _ _ _ _ => rfl) e c _ c' h)

/-- A copy of a field keeps its name and all else but the tree. -/
theorem blank_field (f : FieldInit) : (copyField copy f).Gives fun f' =>
    ({ f' with value := default } : FieldInit) = { f with value := default } :=
  .bind (.any _) fun _ _ => .pure rfl

theorem outline_fields (fs : List FieldInit) :
    (fs.mapM (copyField copy)).Gives fun fs' => (fields fs').outline = (fields fs).outline :=
  fun c _ c' h => congrArg fields (CopyM.Gives.mapM blank_field fs c _ c' h)

theorem outline_rows (values : List (List FieldInit)) :
    (values.mapM fun fs : List FieldInit => fs.mapM (copyField copy)).Gives fun values' =>
      (rows values').outline = (rows values).outline :=
  fun c _ c' h => congrArg rows (CopyM.Gives.mapM (CopyM.Gives.mapM blank_field) values c _ c' h)

theorem outline_vars (ids : List VarId) :
    (ids.mapM (copyVariable copy)).Gives fun ids' => (vars ids').outline = (vars ids).outline :=
  fun c _ c' h => congrArg vars (CopyM.Gives.mapM (fun _ _ _ _ _ => rfl) ids c _ c' h)

theorem outline_varLink (id : Option VarId) :
    (id.mapM CopyM.rename).Gives fun id' => (varLink id').outline = (varLink id).outline :=
  fun c _ c' h => congrArg varLink (CopyM.Gives.mapM_option (fun _ _ _ _ _ => rfl) id c _ c' h)

end Part

open Frontend.Part in
/-- Kind by kind: the copy of a node has the kind and the outline of the node. -/
theorem copyNode_resembles (copy : Expr → CopyM Expr) (n : Node) :
    (copyNode copy n).Gives n.Resembles := by
  cases n with
  | label | address | breakLoop | continueLoop => exact .pure ⟨rfl, rfl⟩
  | literal value => cases value <;> exact .pure ⟨rfl, rfl⟩
  | convert | yield | makeBlock | isType | delete | cast | ascend | swizzle | field | op1 =>
    exact .bind (.any _) fun _ _ => .pure ⟨rfl, rfl⟩
  | nullCoalescing | index | op2 | assign | sequence | tryCatch | within | whileLoop =>
    exact .bind (.any _) fun _ _ => .bind (.any _) fun _ _ => .pure ⟨rfl, rfl⟩
  | op3 =>
    exact .bind (.any _) fun _ _ => .bind (.any _) fun _ _ => .bind (.any _) fun _ _ =>
      .pure ⟨rfl, rfl⟩
  | goto _ e | typeInfo _ e _ | ret e =>
    exact .bind (outline_optionTree e) fun _ h => .pure ⟨rfl, by simp [Node.parts, h]⟩
  | looksLikeCall _ _ es | call _ es | makeGenerator _ es | new _ es | stringBuilder es
  | makeArray _ es | makeTuple _ es =>
    exact .bind (outline_trees es) fun _ h => .pure ⟨rfl, by simp [Node.parts, h]⟩
  | namedCall _ fs | makeVariant _ fs =>
    exact .bind (outline_fields fs) fun _ h => .pure ⟨rfl, by simp [Node.parts, h]⟩
  | makeStruct _ values =>
    exact .bind (outline_rows values) fun _ h => .pure ⟨rfl, by simp [Node.parts, h]⟩
  | var ref =>
    exact .bind (outline_varLink ref.var?) fun _ h => .pure ⟨rfl, by simp [Node.parts, h]⟩
  | declare ids =>
    exact .bind (outline_vars ids) fun _ h => .pure ⟨rfl, by simp [Node.parts, h]⟩
  | block info list finalList =>
    exact .bind (outline_vars info.args) fun _ hargs => .bind (outline_trees list) fun _ hlist =>
      .bind (outline_trees finalList) fun _ hfinal =>
        .pure ⟨rfl, by simp [Node.parts, hargs, hlist, hfinal]⟩
  | forEach _ ids sources body =>
    exact .bind (outline_vars ids) fun _ hids => .bind (outline_trees sources) fun _ hsources =>
      .bind (outline_optionTree body) fun _ hbody =>
        .pure ⟨rfl, by simp [Node.parts, hids, hsources, hbody]⟩
  | ifThenElse _ _ e =>
    exact .bind (.any _) fun _ _ => .bind (.any _) fun _ _ => .bind (outline_optionTree e)
      fun _ h => .pure ⟨rfl, by simp [Node.parts, h]⟩
  | comprehension _ _ e =>
    exact .bind (.any _) fun _ _ => .bind (.any _) fun _ _ => .bind (outline_optionTree e)
      fun _ h => .pure ⟨rfl, by simp [Node.parts, h]⟩

end Outlines

section Trees

variable {s t : Store} {R : VarId → VarId → Prop} {copy : Expr → CopyM Expr} {c c' : Copying}

abbrev anyVars : VarId → VarId → Prop := fun _ _ => True

theorem Store.Alike.cons {item item' : Item} {items items' : List Item}
    (h : s.Alike t R [item] [item']) (h' : s.Alike t R items items') :
    s.Alike t R (item :: items) (item' :: items') := by
  cases h with
  | name link => exact .name link h'
  | child node inner => exact .child node inner h'
  | declared link copy inner => exact .declared link copy inner h'

/-- Trees and their copies are alike in every store in which the variables of the copy are still
there. -/
def AlikeTrees (s : Store) (copy : Expr → CopyM Expr) : Prop :=
  ∀ {e e' : Expr} {c c' : Copying},
    (∀ id, s.DeclaresIn e.node.items id → id.index < s.vars.slots.size) → s.Extends c.store →
      (copy e).run c = .ok (e', c') → ∀ {t}, c'.store.Extends t →
        s.Alike t anyVars [.child e] [.child e']

/-- The variable that a copy declares is there, and agrees with the original in all but its
initializer and the module. -/
theorem declare_copies {id v' : VarId} {v : Variable} {init : Option Expr}
    (hrun : (CopyM.declare id { v with init, module? := none }).run c = .ok (v', c'))
    (ht : c'.store.Extends t) : t.vars.get? v' = some { v with init, module? := none } := by
  cases hrun
  have hsize : c.store.vars.nextId.index < (c.store.addVariable
      { v with init, module? := none }).2.vars.slots.size := by
    simp [Store.addVariable, Table.push, Table.nextId]
  refine (ht _ hsize).2.trans ?_
  exact Table.get?_push_nextId _ _

variable {steps : Nat} (htrees : AlikeTrees s (copyIn steps))

include htrees

theorem alike_item {item item' : Item}
    (alive : ∀ id, s.DeclaresIn [item] id → id.index < s.vars.slots.size)
    (hs : s.Extends c.store) (hrun : (copyItem (copyIn steps) item).run c = .ok (item', c'))
    (ht : c'.store.Extends t) : s.Alike t anyVars [item] [item'] := by
  cases item with
  | name id =>
    cases hrun
    exact .name trivial .nil
  | child e =>
    obtain ⟨e', he', rfl⟩ := exists_of_map hrun
    exact htrees (fun id hid => alive id (.child (.head _) hid)) hs he' ht
  | declared id =>
    obtain ⟨v', hv', rfl⟩ := exists_of_map hrun
    have hget : (get : CopyM Copying).run c = .ok (c, c) := rfl
    obtain ⟨_, _, hc, hrest⟩ := exists_of_bind hv'
    rw [hget] at hc
    cases hc
    obtain ⟨init, c₁, hinit, hdeclare⟩ := exists_of_bind hrest
    have hvar : c.store.var id = s.var id := by
      rw [Store.var, Store.var, (hs id (alive id (.here (.head _)))).2]
    rw [hvar] at hinit hdeclare
    refine .declared trivial (declare_copies hdeclare ht) ?_ .nil
    have ht₁ : c₁.store.Extends t := (growth_extends.declare hdeclare).trans ht
    cases hi : (s.var id).init with
    | none =>
      rw [hi] at hinit
      cases hinit
      exact .nil
    | some i =>
      rw [hi] at hinit
      obtain ⟨i', hi', rfl⟩ := exists_of_map (g := some) (m := copyIn steps i) hinit
      exact htrees (fun id hid => alive id (.init (.head _) hi hid)) hs hi' ht₁

theorem alike_items {items items' : List Item}
    (alive : ∀ id, s.DeclaresIn items id → id.index < s.vars.slots.size)
    (hs : s.Extends c.store)
    (hrun : (items.mapM (copyItem (copyIn steps))).run c = .ok (items', c'))
    (ht : c'.store.Extends t) : s.Alike t anyVars items items' := by
  induction items generalizing c items' with
  | nil =>
    cases hrun
    exact .nil
  | cons item items ih =>
    rw [List.mapM_cons] at hrun
    obtain ⟨item', c₁, hitem, hrest⟩ := exists_of_bind hrun
    obtain ⟨rest, c₂, hitems, hpure⟩ := exists_of_bind hrest
    cases hpure
    have hs₁ := growth_extends.item (growth_extends.copyIn steps) hitem
    have ht₁ := growth_extends.items (growth_extends.copyIn steps) hitems
    have first := alike_item htrees (fun id hid => alive id (hid.mono (by simp))) hs hitem
      (ht₁.trans ht)
    exact first.cons (ih (fun id hid => alive id (hid.mono (by simp))) (hs.trans hs₁) hitems)

omit htrees

theorem alikeTrees (s : Store) (steps : Nat) : AlikeTrees s (copyIn steps) := by
  induction steps with
  | zero =>
    intro e e' c c' _ _ hrun
    cases hrun
  | succ steps ih =>
    intro e e' c c' alive hs hrun t ht
    obtain ⟨n', _, hnode, hpure⟩ := exists_of_bind hrun
    cases hpure
    have hitems : (e.node.items.mapM (copyItem (copyIn steps))).run c = .ok (n'.items, c') := by
      rw [mapM_items, StateT.run_map, hnode]
      rfl
    exact .child (copyNode_resembles _ _ _ _ _ hnode) (alike_items ih alive hs hitems ht) .nil

end Trees

section Renamings

def Mention.isDeclaration : Mention → Bool
  | declares _ => true
  | names _ => false

def DeclaredOnce (ms : List Mention) : Prop := (ms.filter Mention.isDeclaration).Nodup

theorem DeclaredOnce.not_later {before after : List Mention} {id : VarId}
    (h : DeclaredOnce (before ++ after)) (hd : .declares id ∈ before) :
    .declares id ∉ after := by
  intro hafter
  unfold DeclaredOnce at h
  rw [List.filter_append] at h
  have hbefore := List.mem_filter.2 ⟨hd, (rfl : Mention.isDeclaration (.declares id) = true)⟩
  have hafter := List.mem_filter.2 ⟨hafter, (rfl : Mention.isDeclaration (.declares id) = true)⟩
  exact (List.nodup_append.1 h).2.2 _ hbefore _ hafter rfl

def Linked (R : VarId → VarId → Prop) (ms ms' : List Mention) : Prop :=
  ∀ v v', (.declares v, .declares v') ∈ ms.zip ms' ∨ (.names v, .names v') ∈ ms.zip ms' → R v v'

namespace Renaming

variable {r : Renaming} {ms before after : List Mention} {m m' : Mention} {v v' : VarId}

/-- Every copy is that of one declaration. -/
theorem mention_of_copy {x : VarId} (h : (m, .declares x) ∈ ms.zip (r.copies ms))
    (h' : (m', .declares x) ∈ ms.zip (r.copies ms)) : m = m' := by
  have later {first m : Mention} {ms : List Mention} {r : Renaming}
      (hfirst : r.copy first = .declares x)
      (h : (m, .declares x) ∈ ms.zip ((r.step first).copies ms)) : False := by
    have hx := (bounds_of_declares (List.of_mem_zip h).2).1
    cases first with
    | declares =>
      cases hfirst
      exact Nat.not_succ_le_self _ hx
    | names => cases hfirst
  induction ms generalizing r with
  | nil => cases h
  | cons first ms ih =>
    rw [copies, List.zip_cons_cons] at h h'
    rcases List.mem_cons.1 h with h | h <;> rcases List.mem_cons.1 h' with h' | h'
    · rw [(Prod.mk.inj h).1, (Prod.mk.inj h').1]
    · exact (later (Prod.mk.inj h).2.symm h').elim
    · exact (later (Prod.mk.inj h').2.symm h).elim
    · exact ih h h'

theorem rename_after_of_not_declared (h : .declares v ∉ after) :
    (r.after (before ++ after)).rename v = (r.after before).rename v := by
  rw [after_append, rename_of_not_declared h]

/-- If every variable is declared once and before it is named, all mentions are renamed alike. -/
theorem linked_rename (once : DeclaredOnce ms) (first : DeclaredFirst ms) :
    Linked (fun v v' => v' = (r.after ms).rename v) ms (r.copies ms) := by
  rintro v v' (h | h)
  · obtain ⟨before, after, heq, hcopy⟩ := mem_zip_copies.1 h
    have hsplit : ms = (before ++ [.declares v]) ++ after := by
      rw [heq, List.append_assoc]
      rfl
    have hnot := (hsplit ▸ once).not_later (List.mem_append_right _ (.head _))
    have hv : ((r.after before).step (.declares v)).rename v = ⟨(r.after before).next⟩ := by
      simp [step, rename]
    cases hcopy
    rw [heq, after_append]
    exact ((rename_of_not_declared (r := (r.after before).step (.declares v)) hnot).trans hv).symm
  · obtain ⟨before, after, heq, hcopy⟩ := mem_zip_copies.1 h
    have hnot : .declares v ∉ .names v :: after := by
      intro hlater
      have hbefore := first v before after heq (by rw [heq]; exact List.mem_append_right _ hlater)
      exact (heq ▸ once).not_later hbefore hlater
    cases hcopy
    rw [heq, rename_after_of_not_declared hnot]

/-- Names of variables that are not declared are kept. -/
theorem linked_kept {n : Nat} :
    Linked (fun v v' => .declares v ∈ ms ∨ v' = v) ms ((Renaming.mk [] n).copies ms) := by
  rintro v v' (h | h)
  · exact .inl (List.of_mem_zip h).1
  · by_cases hd : .declares v ∈ ms
    · exact .inl hd
    · obtain ⟨before, after, rfl, hcopy⟩ := mem_zip_copies.1 h
      have hbefore : .declares v ∉ before := fun hmem => hd (List.mem_append_left _ hmem)
      cases hcopy
      exact .inr (rename_of_not_declared hbefore)

/-- Different variables have different copies. -/
theorem eq_of_rename_eq {w : VarId} (hv : .declares v ∈ ms) (hw : .declares w ∈ ms)
    (h : (r.after ms).rename v = (r.after ms).rename w) : v = w := by
  have hpair := rename_of_declared (r := r) hv
  rw [h] at hpair
  exact Mention.declares.inj (mention_of_copy hpair (rename_of_declared hw))

end Renaming

/-- A declaration is mentioned behind what its initializer mentions. -/
theorem Store.Mentions.of_declared {s : Store} {v : VarId} {items : List Item} {ms : List Mention}
    (h : s.Mentions (.declared v :: items) ms) :
    ∃ ms₁ ms₂, s.Mentions ((s.var v).init.toList.map .child) ms₁ ∧ s.Mentions items ms₂ ∧
      ms = ms₁ ++ .declares v :: ms₂ := by
  cases h with
  | @plain _ _ ms hi h => exact ⟨[], ms, by rw [hi]; exact .nil, h, rfl⟩
  | @init _ i _ ms ms' hi he h =>
    refine ⟨ms, ms', ?_, h, rfl⟩
    have := Store.Mentions.child he .nil
    rw [List.append_nil] at this
    rw [hi]
    exact this

theorem Linked.split {R : VarId → VarId → Prop} {ms₁ ms₂ ms₁' ms₂' : List Mention}
    (h : Linked R (ms₁ ++ ms₂) (ms₁' ++ ms₂')) (hlength : ms₁.length = ms₁'.length) :
    Linked R ms₁ ms₁' ∧ Linked R ms₂ ms₂' := by
  unfold Linked at h
  rw [List.zip_append hlength] at h
  simp only [List.mem_append] at h
  exact ⟨fun v v' hv => h v v' (hv.imp .inl .inl), fun v v' hv => h v v' (hv.imp .inr .inr)⟩

/-- How the variables of trees are related can be told from the lists of what the trees mention. -/
theorem Store.Alike.linked {s t : Store} {R : VarId → VarId → Prop} {items items' : List Item}
    {ms ms' : List Mention} (h : s.Alike t anyVars items items') (hm : s.Mentions items ms)
    (hm' : t.Mentions items' ms') :
    ms.length = ms'.length ∧ (Linked R ms ms' → s.Alike t R items items') := by
  induction h generalizing ms ms' with
  | nil =>
    cases hm
    cases hm'
    exact ⟨rfl, fun _ => .nil⟩
  | @name v v' _ _ _ _ ih =>
    obtain _ | ⟨hm⟩ := hm
    obtain _ | ⟨hm'⟩ := hm'
    obtain ⟨hlength, hlinked⟩ := ih hm hm'
    refine ⟨congrArg (· + 1) hlength, fun h => ?_⟩
    have h : Linked R ([.names v] ++ _) ([.names v'] ++ _) := h
    obtain ⟨hfirst, hrest⟩ := h.split rfl
    exact .name (hfirst v v' (.inr (.head _))) (hlinked hrest)
  | child node _ _ ihe ih =>
    obtain _ | _ | ⟨he, hm⟩ := hm
    obtain _ | _ | ⟨he', hm'⟩ := hm'
    obtain ⟨hlengthe, hlinkede⟩ := ihe he he'
    obtain ⟨hlength, hlinked⟩ := ih hm hm'
    refine ⟨by rw [List.length_append, List.length_append, hlengthe, hlength], fun h => ?_⟩
    obtain ⟨hfirst, hrest⟩ := h.split hlengthe
    exact .child node (hlinkede hfirst) (hlinked hrest)
  | @declared v v' init _ _ _ hcopy _ _ ihe ih =>
    have hinit : (t.var v').init = init := by rw [Store.var, hcopy, Option.getD_some]
    obtain ⟨ms₁, ms₂, he, hrest, rfl⟩ := hm.of_declared
    obtain ⟨ms₁', ms₂', he', hrest', rfl⟩ := hm'.of_declared
    rw [hinit] at he'
    obtain ⟨hlengthe, hlinkede⟩ := ihe he he'
    obtain ⟨hlength, hlinked⟩ := ih hrest hrest'
    refine ⟨by simp [hlengthe, hlength], fun h => ?_⟩
    obtain ⟨hfirst, hrest⟩ := h.split hlengthe
    have hrest : Linked R ([.declares v] ++ _) ([.declares v'] ++ _) := hrest
    obtain ⟨hself, hrest⟩ := hrest.split rfl
    exact .declared (hself v v' (.inl (.head _))) hcopy (hlinkede hfirst) (hlinked hrest)

end Renamings

/-- A copy mentions the renamed variables of its original, and the two are alike. -/
theorem alike_of_copyExpr {s t : Store} {e e' : Expr} {ms : List Mention}
    (alive : ∀ v, s.DeclaresIn [.child e] v → v.index < s.vars.slots.size)
    (hms : s.Mentions [.child e] ms) (hcopy : s.copyExpr e = .ok (e', t)) :
    t.Mentions [.child e'] ((Renaming.mk [] s.vars.slots.size).copies ms) ∧
      s.Alike t anyVars [.child e] [.child e'] := by
  obtain ⟨_, c, hrun, hcopied⟩ := copyExpr_copied hms fun v hv => alive v (hms.declares_of_mem hv)
  obtain ⟨rfl, rfl⟩ := Prod.mk.inj (Except.ok.inj (hcopy.symm.trans hrun))
  obtain ⟨c', hrun, hstore⟩ := run_of_copyExpr hcopy
  refine ⟨hcopied.mentions, ?_⟩
  rw [← hstore]
  exact alikeTrees s _ (fun v hv => alive v (.child (.head _) hv)) (.refl s) hrun (.refl _)

def Expr.nameOf (name : String) (id : VarId) : Expr :=
  .ofNode .builtin (.var { name, var? := some id, isLocal := true })

namespace Store

/-- A tree whose variables are there has a copy exactly if it can be read. Node by node the copy
resembles the tree, and names of variables that are not declared in the tree are kept. If every
variable is declared once and before it is named, the declared variables have copies of their own,
which are new, and the variables of the copy are those of the tree renamed. -/
theorem copy_faithful (s : Store) (e : Expr)
    (alive : ∀ v, s.DeclaresIn [.child e] v → v.index < s.vars.slots.size) :
    ((∃ r, s.copyExpr e = .ok r) ↔ ∃ ms, s.Mentions [.child e] ms) ∧
    ∀ e' t, s.copyExpr e = .ok (e', t) → s.VarsOnly t ∧ s.Extends t ∧
      s.Alike t (fun v v' => s.DeclaresIn [.child e] v ∨ v' = v) [.child e] [.child e'] ∧
      ∀ ms, s.Mentions [.child e] ms → DeclaredOnce ms → DeclaredFirst ms →
        ∃ rename : VarId → VarId, (∀ v, ¬ s.DeclaresIn [.child e] v → rename v = v) ∧
          (∀ v, s.DeclaresIn [.child e] v → ¬ (rename v).index < s.vars.slots.size) ∧
          (∀ v w, s.DeclaresIn [.child e] v → s.DeclaresIn [.child e] w → rename v = rename w →
            v = w) ∧
          s.Alike t (fun v v' => v' = rename v) [.child e] [.child e'] := by
  refine ⟨⟨fun ⟨r, hr⟩ => mentions_of_copyExpr alive hr, ?_⟩, fun e' t hcopy => ?_⟩
  · rintro ⟨ms, hms⟩
    obtain ⟨e', c, hcopy, _⟩ := copyExpr_copied hms fun v hv => alive v (hms.declares_of_mem hv)
    exact ⟨_, hcopy⟩
  obtain ⟨hvars, hold⟩ := addsVars_copyExpr hcopy
  obtain ⟨ms, hms⟩ := mentions_of_copyExpr alive hcopy
  have halive : ∀ v, .declares v ∈ ms → v.index < s.vars.slots.size := fun v hv =>
    alive v (hms.declares_of_mem hv)
  obtain ⟨hmentions, halike⟩ := alike_of_copyExpr alive hms hcopy
  have declared (v : VarId) : s.DeclaresIn [.child e] v ↔ .declares v ∈ ms :=
    ⟨hms.mem_of_declares, hms.declares_of_mem⟩
  simp only [declared]
  refine ⟨hvars, hold, (halike.linked hms hmentions).2 Renaming.linked_kept,
    fun ms' hms' once first => ?_⟩
  obtain rfl := hms.unique hms'
  refine ⟨((Renaming.mk [] s.vars.slots.size).after ms).rename, fun v hv => ?_, fun v hv => ?_,
    fun v w hv hw => Renaming.eq_of_rename_eq hv hw,
    (halike.linked hms hmentions).2 (Renaming.linked_rename once first)⟩
  · exact Renaming.rename_of_not_declared hv
  · have hpair := Renaming.rename_of_declared (r := ⟨[], s.vars.slots.size⟩) hv
    exact Nat.not_lt_of_le (Renaming.bounds_of_declares (List.of_mem_zip hpair).2).1

/-- Variables `x`, `y` that starts as `x`, and `z`. -/
def xyz : Store where
  vars := { slots := #[some { name := "x", type := .ofBase .int },
    some { name := "y", type := .ofBase .int, init := some (.nameOf "x" ⟨0⟩) },
    some { name := "z", type := .ofBase .int }] }

def useOfXYZ : Expr := .ofNode .builtin (.block {}
  [.ofNode .builtin (.declare [⟨0⟩, ⟨1⟩] false), .nameOf "y" ⟨1⟩, .nameOf "z" ⟨2⟩] [])

theorem mentions_useOfXYZ : xyz.Mentions [.child useOfXYZ]
    [.declares ⟨0⟩, .names ⟨0⟩, .declares ⟨1⟩, .names ⟨1⟩, .names ⟨2⟩] := by
  have name (name : String) (id : VarId) :
      xyz.Mentions (Expr.nameOf name id).node.items [.names id] := .name .nil
  have declared : xyz.Mentions [.declared ⟨0⟩, .declared ⟨1⟩]
      [.declares ⟨0⟩, .names ⟨0⟩, .declares ⟨1⟩] :=
    .plain rfl (.init rfl (name "x" ⟨0⟩) .nil)
  exact .child (e := useOfXYZ)
    (.child declared (.child (name "y" ⟨1⟩) (.child (name "z" ⟨2⟩) .nil))) .nil

/-- The block has a copy with an `x` and a `y` of its own and the same `z`. -/
theorem copy_faithful_useOfXYZ : (∀ v, xyz.DeclaresIn [.child useOfXYZ] v → v.index < 3) ∧
    ∃ e' t, xyz.copyExpr useOfXYZ = .ok (e', t) ∧ ∃ rename : VarId → VarId,
      rename ⟨2⟩ = ⟨2⟩ ∧ ¬ (rename ⟨0⟩).index < 3 ∧ ¬ (rename ⟨1⟩).index < 3 ∧
        rename ⟨0⟩ ≠ rename ⟨1⟩ ∧
        xyz.Alike t (fun v v' => v' = rename v) [.child useOfXYZ] [.child e'] := by
  have declared (v : VarId) : xyz.DeclaresIn [.child useOfXYZ] v ↔ v = ⟨0⟩ ∨ v = ⟨1⟩ := by
    refine ⟨fun h => ?_, ?_⟩
    · simpa using mentions_useOfXYZ.mem_of_declares h
    · rintro (rfl | rfl)
      · exact mentions_useOfXYZ.declares_of_mem (by decide)
      · exact mentions_useOfXYZ.declares_of_mem (by decide)
  have alive (v : VarId) (h : xyz.DeclaresIn [.child useOfXYZ] v) : v.index < 3 := by
    rcases (declared v).1 h with rfl | rfl <;> decide
  have first : DeclaredFirst
      [.declares ⟨0⟩, .names ⟨0⟩, .declares ⟨1⟩, .names ⟨1⟩, .names ⟨2⟩] := by
    intro id before after heq hd
    rcases before with _ | ⟨_, _ | ⟨_, _ | ⟨_, _ | ⟨_, _ | ⟨_, _⟩⟩⟩⟩⟩
    · cases heq
    · cases heq
      exact .head _
    · cases heq
    · cases heq
      simp
    · cases heq
      simp at hd
    · simp at heq
  obtain ⟨readable, faithful⟩ := copy_faithful xyz useOfXYZ alive
  obtain ⟨⟨e', t⟩, hcopy⟩ := readable.2 ⟨_, mentions_useOfXYZ⟩
  obtain ⟨-, -, -, renames⟩ := faithful e' t hcopy
  obtain ⟨rename, hkept, hnew, hinj, halike⟩ :=
    renames _ mentions_useOfXYZ (show List.Nodup _ by decide) first
  refine ⟨alive, e', t, hcopy, rename, hkept _ ?_, hnew _ ?_, hnew _ ?_, fun h => ?_, halike⟩
  · rw [declared]
    decide
  · exact (declared _).2 (.inl rfl)
  · exact (declared _).2 (.inr rfl)
  · have := hinj _ _ ((declared _).2 (.inl rfl)) ((declared _).2 (.inr rfl)) h
    cases this

end Store

end Frontend
