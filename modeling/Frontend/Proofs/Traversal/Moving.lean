import Frontend.Proofs.Traversal.Ends
import Frontend.Traversal.Program

/-!
# Where a traversal can take the state

Hooks may do what they want as long as they move the state along a relation. A traversal that ends
has moved the state along the relation too, whatever the hooks answered.
-/

namespace Frontend

variable {σ α β : Type} {L : Visit σ → Visit σ → Prop}

def Moves (L : Visit σ → Visit σ → Prop) (m : VisitM σ α) : Prop :=
  ∀ st a st', m.run st = .ok (a, st') → L st st'

/-- Every hook moves the state along a relation of states, and so do changes of variables. -/
structure Visitor.MovesAlong (v : Visitor σ) (L : Visit σ → Visit σ → Prop) : Prop where
  refl : ∀ st, L st st
  trans : ∀ {st₁ st₂ st₃}, L st₁ st₂ → L st₂ st₃ → L st₁ st₃
  modifyVariable : ∀ st id g, L st { st with store := st.store.modifyVariable id g }
  enter : ∀ e, Moves L (v.enter e)
  leave : ∀ e, Moves L (v.leave e)
  enterSlot : ∀ slot e, Moves L (v.enterSlot slot e)
  leaveSlot : ∀ slot e, Moves L (v.leaveSlot slot e)
  enterField : ∀ slot f, Moves L (v.enterField slot f)
  leaveField : ∀ slot f, Moves L (v.leaveField slot f)
  enterVariable : ∀ place id last, Moves L (v.enterVariable place id last)
  leaveVariable : ∀ place id last, Moves L (v.leaveVariable place id last)
  enterType : ∀ t, Moves L (v.enterType t)
  leaveType : ∀ t, Moves L (v.leaveType t)
  leaveStruct : ∀ id, Moves L (v.leaveStruct id)
  leaveEnum : ∀ id, Moves L (v.leaveEnum id)
  leaveFunction : ∀ id, Moves L (v.leaveFunction id)
  allows : ∀ gate, Moves L (v.allows gate)
  notice : ∀ notice, Moves L (v.notice notice)

/-- Every hook moves the state along a relation of states, and so do changes of a variable that
leave its name and its stamp. -/
structure Visitor.Follows (v : Visitor σ) (L : Visit σ → Visit σ → Prop) : Prop where
  refl : ∀ st, L st st
  trans : ∀ {st₁ st₂ st₃}, L st₁ st₂ → L st₂ st₃ → L st₁ st₃
  modifyVariable : ∀ st id g, (∀ x, (g x).name = x.name ∧ (g x).module? = x.module?) →
    L st { st with store := st.store.modifyVariable id g }
  enter : ∀ e, Moves L (v.enter e)
  leave : ∀ e, Moves L (v.leave e)
  enterSlot : ∀ slot e, Moves L (v.enterSlot slot e)
  leaveSlot : ∀ slot e, Moves L (v.leaveSlot slot e)
  enterField : ∀ slot f, Moves L (v.enterField slot f)
  leaveField : ∀ slot f, Moves L (v.leaveField slot f)
  enterVariable : ∀ place id last, Moves L (v.enterVariable place id last)
  leaveVariable : ∀ place id last, Moves L (v.leaveVariable place id last)
  enterType : ∀ t, Moves L (v.enterType t)
  leaveType : ∀ t, Moves L (v.leaveType t)
  leaveStruct : ∀ id, Moves L (v.leaveStruct id)
  leaveEnum : ∀ id, Moves L (v.leaveEnum id)
  leaveFunction : ∀ id, Moves L (v.leaveFunction id)
  allows : ∀ gate, Moves L (v.allows gate)
  notice : ∀ notice, Moves L (v.notice notice)

theorem Visitor.MovesAlong.follows {v : Visitor σ} (hv : v.MovesAlong L) : v.Follows L :=
  { hv with modifyVariable := fun st id g _ => hv.modifyVariable st id g }

namespace Moves

theorem fail (fault : Fault) : Moves L (VisitM.fail fault : VisitM σ α) := nofun

theorem modifyStore {f : Store → Store} (h : ∀ st : Visit σ, L st { st with store := f st.store }) :
    Moves L (VisitM.modifyStore f) := by
  intro st a st' hrun
  cases hrun
  exact h st

end Moves

namespace Visitor

variable {v : Visitor σ} (hv : v.Follows L)

namespace Follows

include hv

theorem pure (a : α) : Moves L (Pure.pure a) := by
  intro st _ st' hrun
  cases hrun
  exact hv.refl st

theorem bind {m : VisitM σ α} {f : α → VisitM σ β} (hm : Moves L m) (hf : ∀ a, Moves L (f a)) :
    Moves L (m >>= f) := by
  intro st b st' hrun
  obtain ⟨a, st₁, hm₁, hf₁⟩ := exists_of_bind hrun
  exact hv.trans (hm _ _ _ hm₁) (hf a _ _ _ hf₁)

theorem store : Moves L (VisitM.store (σ := σ)) := by
  intro st _ st' hrun
  cases hrun
  exact hv.refl st

theorem visitEach {f : Nat → Bool → α → VisitM σ (Option α)} (hf : ∀ i last a, Moves L (f i last a))
    (i : Nat) (as : List α) : Moves L (Frontend.visitEach f i as) := by
  induction as generalizing i with
  | nil => exact hv.pure []
  | cons a as ih => exact hv.bind (hf i _ a) fun _ => hv.bind (ih (i + 1)) fun _ => hv.pure _

theorem forIn {f : α → PUnit → VisitM σ (ForInStep PUnit)} (hf : ∀ a, Moves L (f a ⟨⟩))
    (as : List α) : Moves L (ForIn.forIn as PUnit.unit f) := by
  induction as with
  | nil => exact hv.pure _
  | cons a as ih =>
    rw [List.forIn_cons]
    refine hv.bind (hf a) fun r => ?_
    cases r with
    | done _ => exact hv.pure _
    | yield _ => exact ih

theorem mapM {f : α → VisitM σ β} (hf : ∀ a, Moves L (f a)) (as : List α) :
    Moves L (as.mapM f) := by
  induction as with
  | nil => exact hv.pure []
  | cons a as ih =>
    rw [List.mapM_cons]
    exact hv.bind (hf a) fun _ => hv.bind ih fun _ => hv.pure _

theorem optionMapM {f : α → VisitM σ β} (hf : ∀ a, Moves L (f a)) (o : Option α) :
    Moves L (o.mapM f) := by
  cases o with
  | none => exact hv.pure none
  | some a =>
    rw [Option.mapM_some, map_eq_pure_bind]
    exact hv.bind (hf a) fun _ => hv.pure _

theorem visitTypeIn (steps : Nat) (t : Ty) : Moves L (v.visitTypeIn steps t) := by
  induction steps generalizing t with
  | zero => exact .fail _
  | succ steps ih =>
    exact hv.bind (hv.enterType t) fun t => hv.bind
      (hv.bind (hv.optionMapM ih t.first) fun _ => hv.bind (hv.optionMapM ih t.second) fun _ =>
        hv.bind (hv.mapM ih t.args) fun _ => hv.pure _) fun _ => hv.leaveType _

theorem visitType (t : Ty) : Moves L (v.visitType t) := hv.visitTypeIn _ t

theorem visitTypeOption (o : Option Ty) : Moves L (v.visitTypeOption o) :=
  hv.optionMapM hv.visitType o

variable {child : Child σ} (hc : ∀ e, Moves L (child e))

include hc

theorem required (e : Expr) : Moves L (Visitor.required child e) := by
  refine hv.bind (hc e) ?_
  rintro ⟨r, e'⟩
  dsimp only
  split
  · exact hv.pure _
  · exact .fail _

theorem optional : (o : Option Expr) → Moves L (Visitor.optional child o)
  | none => hv.pure _
  | some e => hv.bind (hc e) fun _ => hv.pure _

theorem requiredIn (slot : Slot) (e : Expr) : Moves L (v.requiredIn child slot e) :=
  hv.bind (hv.enterSlot slot e) fun _ => hv.required hc e

theorem inSlot (slot : Slot) (e : Expr) : Moves L (v.inSlot child slot e) := by
  refine hv.bind (hv.enterSlot slot e) fun _ => hv.bind (hc e) ?_
  rintro ⟨r, e'⟩
  dsimp only
  split
  · exact hv.pure _
  · exact hv.bind (hv.leaveSlot slot _) fun _ => hv.pure _

theorem inSlots (slot : Nat → Bool → Slot) (es : List Expr) : Moves L (v.inSlots child slot es) :=
  hv.visitEach (fun i last e => hv.inSlot hc (slot i last) e) 0 es

theorem fields (slot : Nat → Bool → FieldSlot) (fs : List FieldInit) :
    Moves L (v.fields child slot fs) :=
  hv.visitEach (fun i last f => hv.bind (hv.enterField (slot i last) f) fun _ =>
    hv.bind (hv.required hc f.value) fun _ => hv.bind (hv.leaveField (slot i last) _) fun _ =>
      hv.pure _) 0 fs

theorem visitVariable (place : VariablePlace) (id : VarId) :
    Moves L (v.visitVariable child place id) := by
  have modify (g : Variable → Variable)
      (hg : ∀ x, (g x).name = x.name ∧ (g x).module? = x.module?) :
      Moves L (VisitM.modifyStore (·.modifyVariable id g)) :=
    .modifyStore fun st => hv.modifyVariable st id g hg
  refine hv.bind hv.store fun _ => hv.bind (modify _ fun _ => ⟨rfl, rfl⟩) fun _ =>
    hv.bind (hv.visitType _) fun _ => hv.bind (modify _ fun _ => ⟨rfl, rfl⟩) fun _ =>
    hv.bind hv.store fun _ => ?_
  split
  · exact hv.pure _
  · refine hv.bind (modify _ fun _ => ⟨rfl, rfl⟩) fun _ => hv.bind (hv.inSlot hc _ _) fun r => ?_
    cases r with
    | none => exact hv.pure _
    | some init => exact modify _ fun _ => ⟨rfl, rfl⟩

theorem declared (place : VariablePlace) (last : Bool) (id : VarId) :
    Moves L (v.declared child place last id) := by
  refine hv.bind (hv.enterVariable place id last) fun _ => ?_
  have hleave : Moves L (do return (← v.leaveVariable place id last).apply id) :=
    hv.bind (hv.leaveVariable place id last) fun _ => hv.pure _
  split
  · exact hv.bind (hv.visitVariable hc place id) fun _ => hleave
  · exact hleave

theorem removableVariables (place : VariablePlace) (ids : List VarId) :
    Moves L (v.removableVariables child place ids) :=
  hv.visitEach (fun _ last id => hv.declared hc place last id) 0 ids

theorem fixedVariables (place : VariablePlace) (ids : List VarId) :
    Moves L (v.fixedVariables child place ids) := by
  refine hv.visitEach (fun _ last id => hv.bind (hv.declared hc place last id) fun r => ?_) 0 ids
  cases r with
  | none => exact hv.bind hv.store fun _ => .fail _
  | some id => exact hv.pure _

theorem finallySection (info : BlockInfo) (finalList : List Expr) :
    Moves L (v.finallySection child info finalList) := by
  unfold Visitor.finallySection
  split
  · exact hv.pure _
  · exact hv.bind (hv.notice _) fun _ => hv.bind (hv.inSlots hc _ _) fun _ =>
      hv.bind (hv.notice _) fun _ => hv.pure _

theorem loopSource (last : Bool) (e : Expr) : Moves L (v.loopSource child last e) := by
  refine hv.bind (hv.enterSlot _ e) fun _ => hv.bind (hv.required hc e) fun e' =>
    hv.bind (hv.leaveSlot _ e') fun r => ?_
  split
  · exact hv.pure _
  · exact .fail _

theorem row (i : Nat) (last : Bool) (fs : List FieldInit) : Moves L (v.row child i last fs) :=
  hv.bind (hv.notice _) fun _ => hv.bind (hv.fields hc _ fs) fun _ =>
    hv.bind (hv.notice _) fun _ => hv.pure _

theorem walk (n : Node) : Moves L (v.walk child n) := by
  cases n with
  | label | var | breakLoop | continueLoop | literal => exact hv.pure _
  | goto | ret => exact hv.bind (hv.optional hc _) fun _ => hv.pure _
  | convert | yield | makeBlock | delete | ascend | swizzle | field | op1 =>
    exact hv.bind (hv.required hc _) fun _ => hv.pure _
  | address => exact hv.bind (hv.visitTypeOption _) fun _ => hv.pure _
  | nullCoalescing | index | op2 | assign | sequence | tryCatch | within | whileLoop =>
    exact hv.bind (hv.required hc _) fun _ => hv.bind (hv.requiredIn hc _ _) fun _ => hv.pure _
  | op3 =>
    exact hv.bind (hv.required hc _) fun _ => hv.bind (hv.requiredIn hc _ _) fun _ =>
      hv.bind (hv.requiredIn hc _ _) fun _ => hv.pure _
  | looksLikeCall | call | stringBuilder =>
    exact hv.bind (hv.inSlots hc _ _) fun _ => hv.pure _
  | namedCall => exact hv.bind (hv.fields hc _ _) fun _ => hv.pure _
  | makeGenerator | makeTuple =>
    exact hv.bind (hv.visitTypeOption _) fun _ => hv.bind (hv.inSlots hc _ _) fun _ => hv.pure _
  | new | makeArray =>
    exact hv.bind (hv.visitType _) fun _ => hv.bind (hv.inSlots hc _ _) fun _ => hv.pure _
  | isType =>
    exact hv.bind (hv.required hc _) fun _ => hv.bind (hv.notice _) fun _ =>
      hv.bind (hv.visitType _) fun _ => hv.pure _
  | typeInfo =>
    exact hv.bind (hv.visitTypeOption _) fun _ => hv.bind (hv.optional hc _) fun _ => hv.pure _
  | cast => exact hv.bind (hv.visitType _) fun _ => hv.bind (hv.required hc _) fun _ => hv.pure _
  | block info list finalList =>
    refine hv.bind (hv.removableVariables hc _ _) fun args => ?_
    simp only
    split
    · exact hv.bind (hv.finallySection hc _ _) fun _ => hv.bind (hv.inSlots hc _ _) fun _ =>
        hv.pure _
    · exact hv.bind (hv.inSlots hc _ _) fun _ => hv.bind (hv.finallySection hc _ _) fun _ =>
        hv.pure _
  | ifThenElse cond ifTrue ifFalse isStatic =>
    refine hv.bind (hv.required hc _) fun _ => hv.bind (hv.allows _) fun enters => ?_
    cases enters with
    | false => exact hv.pure _
    | true =>
      refine hv.bind (hv.requiredIn hc _ _) fun _ => ?_
      cases ifFalse with
      | none => exact hv.pure _
      | some e =>
        exact hv.bind (hv.enterSlot _ e) fun _ => hv.bind (hv.optional hc _) fun _ => hv.pure _
  | forEach names vars sources body =>
    refine hv.bind (hv.fixedVariables hc _ _) fun _ =>
      hv.bind (hv.visitEach (fun _ last e => hv.loopSource hc last e) 0 sources) fun _ =>
        hv.bind (hv.notice _) fun _ => ?_
    cases body with
    | none => exact hv.pure _
    | some body => exact hv.bind (hv.requiredIn hc _ _) fun _ => hv.pure _
  | declare => exact hv.bind (hv.removableVariables hc _ _) fun _ => hv.pure _
  | makeStruct type rows =>
    exact hv.bind (hv.visitType _) fun _ => hv.bind (hv.visitEach (hv.row hc) 0 rows) fun _ =>
      hv.pure _
  | makeVariant => exact hv.bind (hv.visitType _) fun _ => hv.bind (hv.fields hc _ _) fun _ => hv.pure _
  | comprehension source body filter isGenerator =>
    refine hv.bind (hv.required hc _) fun _ => hv.bind (hv.requiredIn hc _ _) fun _ => ?_
    cases filter with
    | none => exact hv.pure _
    | some e =>
      exact hv.bind (hv.enterSlot _ e) fun _ => hv.bind (hv.optional hc _) fun _ => hv.pure _

omit hc in
theorem visitIn (steps : Nat) (e : Expr) : Moves L (v.visitIn steps e) := by
  induction steps generalizing e with
  | zero => exact .fail _
  | succ steps ih =>
    exact hv.bind (hv.enter e) fun e => hv.bind (hv.walk ih e.node) fun _ =>
      hv.bind (hv.leave _) fun _ => hv.pure _

end Follows

end Visitor

end Frontend
