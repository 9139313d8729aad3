import Frontend.Proofs.Optimizer.Links
import Frontend.Proofs.Traversal.Collecting

/-!
# What the check of a program finds

The check comes by every tree of the module, generics included, and finds exactly the defects of the
nodes that belong to these trees. While it is inside a structure, the structure shows no fields.
-/

namespace Frontend

theorem defectCollector_collects (requireTypes : Bool) :
    (defectCollector requireTypes).Collects (fun _ _ _ => False)
      fun s e d => d ∈ s.defects requireTypes e where
  calm := Visitor.calm_of_nodes _ _ 0
  enter _ _ := .pure ⟨rfl, rfl, .nothing _⟩
  leave _ _ := ⟨.keep, _, rfl, rfl, rfl, fun _ => List.mem_append⟩
  before_detach _ _ := rfl
  after_detach _ _ := rfl

theorem defects_modifyBody (s : Store) (id : FunctionId) (body : Option Expr)
    (requireTypes : Bool) :
    (s.modifyFunction id fun f => { f with body }).defects requireTypes =
      s.defects requireTypes := by
  have alive (other : FunctionId) :
      (s.modifyFunction id fun f => { f with body }).functions.isAlive other =
        s.functions.isAlive other := by
    simp only [Store.modifyFunction, Table.isAlive, Table.get?_modify]
    split
    · cases s.functions.get? other <;> rfl
    · rfl
  funext e
  simp only [Store.defects, alive]
  rfl

theorem blind_defects (requireTypes : Bool) :
    Blind fun (s : Store) e d => d ∈ s.defects requireTypes e where
  detach _ _ := rfl
  body s id body := by
    funext e d
    rw [defects_modifyBody]

namespace Store

variable {s : Store} {e : Expr}

def FieldInRange (s : Store) (e : Expr) : Prop :=
  ∀ name value index element? derefsFreely x,
    e.node = .field .field name value (some index) element? derefsFreely →
      value.type.bind s.accessedStruct? = some x → index < x.fields.length

def LinkAlive (s : Store) (e : Expr) : Prop :=
  ∀ name id, e.node.link? = some (name, id) → s.functions.isAlive id = true

theorem defects_eq_nil : s.defects false e = [] ↔ s.LinkAlive e ∧ s.FieldInRange e := by
  unfold defects LinkAlive FieldInRange
  simp only [Bool.false_and, Bool.false_eq_true, if_false, List.nil_append, List.append_eq_nil_iff]
  refine and_congr ?_ ?_
  · constructor
    · intro h name id hl
      rw [hl] at h
      by_contra dead
      simp [dead] at h
    · intro h
      split
      · rename_i name id hl
        rw [if_pos (h name id hl)]
      · rfl
  · constructor
    · intro h name value index element? derefsFreely x hn hx
      rw [hn] at h
      simp only [hx] at h
      by_contra out
      simp [out] at h
    · intro h
      split
      · rename_i name value index element? derefsFreely hn
        split
        · rename_i x hx
          rw [if_pos (h name value index element? derefsFreely x hn hx)]
        · rfl
      · rfl

inductive TreeOf (s : Store) (id : FunctionId) : Expr → Prop
  | body {f e} (hf : s.function? id = some f) (hb : f.body = some e) : TreeOf s id e
  | argument {f a e} (hf : s.function? id = some f) (ha : a ∈ f.args)
    (hi : (s.var a).init = some e) : TreeOf s id e

theorem collectedInFunction_iff {δ : Type} {before after : Store → Expr → δ → Prop} {d : δ}
    {id : FunctionId} :
    s.CollectedInFunction before after id d ↔
      ∃ e, s.TreeOf id e ∧ s.Collected before after e d := by
  constructor
  · rintro ⟨f, hf, ⟨a, ha, i, hi, hd⟩ | ⟨b, hb, hd⟩⟩
    · exact ⟨i, .argument hf ha hi, hd⟩
    · exact ⟨b, .body hf hb, hd⟩
  · rintro ⟨e, he, hd⟩
    cases he with
    | body hf hb => exact ⟨_, hf, .inr ⟨e, hb, hd⟩⟩
    | argument hf ha hi => exact ⟨_, hf, .inl ⟨_, ha, e, hi, hd⟩⟩

end Store

namespace Program

variable {p : Program}

/-- A tree of the code that may run: of a global, or of a function that is not native. -/
inductive CodeTree (p : Program) : Expr → Prop
  | global {id e} (hid : id ∈ p.thisModule.globalOrder) (hi : (p.store.var id).init = some e) :
    CodeTree p e
  | function {id e} (hid : id ∈ p.thisModule.functions.values)
    (hn : Visitor.isNative p.store id = false) (ht : p.store.TreeOf id e) : CodeTree p e

/-- A tree of the other declarations, with the store as it shows while the tree is visited. -/
inductive DataTree (p : Program) : Store → Expr → Prop
  | value {id x e} (hid : id ∈ p.thisModule.enumerations.values)
    (hx : x ∈ ((p.store.enumeration? id).getD default).entries) (he : x.2 = some e) :
    DataTree p (p.store.modifyEnumeration id fun e => { e with entries := [] }) e
  | field {id f e} (hid : id ∈ p.thisModule.structOrder)
    (hf : f ∈ ((p.store.struct? id).getD default).fields) (he : f.init = some e) :
    DataTree p (p.store.modifyStruct id fun x => { x with fields := [] }) e
  | generic {id e} (hid : id ∈ p.thisModule.generics.values)
    (hn : Visitor.isNative p.store id = false) (ht : p.store.TreeOf id e) :
    DataTree p p.store e

/-- A tree that the check comes by, with the store that it sees then. -/
def Checks (p : Program) (s : Store) (e : Expr) : Prop :=
  (s = p.store ∧ p.CodeTree e) ∨ p.DataTree s e

theorem DataTree.functions {s : Store} {e : Expr} (h : p.DataTree s e) :
    s.functions = p.store.functions ∧ s.vars = p.store.vars := by
  cases h <;> exact ⟨rfl, rfl⟩

theorem collected_iff {δ : Type} {after : Store → Expr → δ → Prop} {d : δ} :
    p.store.CollectedInModule (fun _ _ _ => False) after p.this true d ↔
      ∃ s e, p.Checks s e ∧ ∃ x, s.Meets e x ∧ after s x d := by
  have tree {s : Store} {e : Expr} :
      s.Collected (fun _ _ _ => False) after e d ↔ ∃ x, s.Meets e x ∧ after s x d := by
    simp [Store.Collected]
  simp only [Store.CollectedInModule, Store.CollectedInEnum, Store.CollectedInStruct,
    Store.CollectedInVar, Store.CollectedInCode, Store.collectedInFunction_iff, tree, if_true]
  constructor
  · rintro (⟨id, hid, x, hx, e, he, hd⟩ | ⟨id, hid, f, hf, e, he, hd⟩ | ⟨id, hid, e, he, hd⟩ |
      ⟨id, hid, hn, e, he, hd⟩ | ⟨id, hid, hn, e, he, hd⟩)
    · exact ⟨_, e, .inr (.value hid hx he), hd⟩
    · exact ⟨_, e, .inr (.field hid hf he), hd⟩
    · exact ⟨_, e, .inl ⟨rfl, .global hid he⟩, hd⟩
    · exact ⟨_, e, .inr (.generic hid hn he), hd⟩
    · exact ⟨_, e, .inl ⟨rfl, .function hid hn he⟩, hd⟩
  · rintro ⟨s, e, ⟨rfl, h⟩ | h, hd⟩
    · cases h with
      | global hid he => exact .inr (.inr (.inl ⟨_, hid, e, he, hd⟩))
      | function hid hn he => exact .inr (.inr (.inr (.inr ⟨_, hid, hn, e, he, hd⟩)))
    · cases h with
      | value hid hx he => exact .inl ⟨_, hid, _, hx, e, he, hd⟩
      | field hid hf he => exact .inr (.inl ⟨_, hid, _, hf, e, he, hd⟩)
      | generic hid hn he => exact .inr (.inr (.inr (.inl ⟨_, hid, hn, e, he, hd⟩)))

/-- The check ends and finds the defects of all nodes that it comes by. -/
theorem defects_ends (p : Program) (requireTypes : Bool) :
    Ends (defects requireTypes) p fun ds p' => p' = p.collect ∧ ∀ d, d ∈ ds ↔
      ∃ s e, p.Checks s e ∧ ∃ x, s.Meets e x ∧ d ∈ s.defects requireTypes x := by
  refine (walk_ends (Visitor.visitModule_ends (defectCollector_collects requireTypes).builds p.this
    true ⟨p.store, []⟩)).mono ?_
  rintro ds p' ⟨st, hvisit, rfl, rfl⟩
  obtain ⟨hs, hu⟩ := Collecting.moduleVisit blind_nothing (blind_defects requireTypes) hvisit
  refine ⟨by rw [hs]; rfl, fun d => ?_⟩
  rw [hu d, ← collected_iff]
  simp

def Valid (p : Program) : Prop := Ends (defects false) p fun ds _ => ds = []

def findsNothing (p : Program) : Bool :=
  match (defects false).run p with
  | .ok ([], _) => true
  | _ => false

theorem findsNothing_iff : p.findsNothing = true ↔ p.Valid := by
  unfold findsNothing Valid
  constructor
  · intro h
    split at h
    · rename_i p' hrun
      exact ⟨[], p', hrun, rfl⟩
    · cases h
  · rintro ⟨_, p', hrun, rfl⟩
    rw [hrun]

instance (p : Program) : Decidable p.Valid := decidable_of_iff _ findsNothing_iff

theorem valid_iff : p.Valid ↔ ∀ s e, p.Checks s e → ∀ x, s.Meets e x →
    s.LinkAlive x ∧ s.FieldInRange x := by
  constructor
  · rintro ⟨ds, p', hrun, rfl⟩ s e he x hx
    rw [← Store.defects_eq_nil, List.eq_nil_iff_forall_not_mem]
    intro d hd
    have := ((p.defects_ends false).of_run hrun).2 d
    exact List.not_mem_nil (this.2 ⟨s, e, he, x, hx, hd⟩)
  · intro h
    refine (p.defects_ends false).mono ?_
    rintro ds p' ⟨_, hds⟩
    rw [List.eq_nil_iff_forall_not_mem]
    intro d hd
    obtain ⟨s, e, he, x, hx, hd⟩ := (hds d).1 hd
    rw [Store.defects_eq_nil.2 (h s e he x hx)] at hd
    cases hd

end Program

end Frontend
