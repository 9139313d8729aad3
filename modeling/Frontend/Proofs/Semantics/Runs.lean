import Frontend.Expr.Basic
import Frontend.Proofs.Semantics.Operators

/-!
# Runs of trees

The meaning of a statement tree is the set of its finite runs: what the surroundings see of a run,
and how it ends. Variables and calls that are not resolved may give any value, and are seen. Calls
of a function that panics throw. What the rules for operators leave open is up to a `Machine`, which
answers by the operator and the values alone.
-/

namespace Frontend

inductive Value (ω : Type) where
  | const (c : Constant)
  | other (x : ω)

/-- What the surroundings see. -/
inductive Event (ω : Type) where
  | read (ref : VarRef) (value : Value ω)
  | call (name : String) (args : List (Value ω)) (value : Value ω)

inductive Completion (ω : Type) where
  | normal
  | returns (value : Option (Value ω))
  | breaks
  | continues
  | throws

/-- The finite runs of something: what is seen of a run, and its result. -/
def Behavior (ω α : Type) : Type := List (Event ω) → α → Prop

namespace Behavior

variable {ω α β γ : Type}

theorem ext {B C : Behavior ω α} (h : ∀ t a, B t a ↔ C t a) : B = C :=
  funext fun t => funext fun a => propext (h t a)

/-- No run at all. -/
def stuck : Behavior ω α := fun _ _ => False

def onlyIf (P : Prop) (B : Behavior ω α) : Behavior ω α := fun t a => P ∧ B t a

protected def pure (a : α) : Behavior ω α := fun t b => t = [] ∧ b = a

protected def bind (B : Behavior ω α) (f : α → Behavior ω β) : Behavior ω β := fun t b =>
  ∃ t₁ a t₂, B t₁ a ∧ f a t₂ b ∧ t = t₁ ++ t₂

instance : Monad (Behavior ω) where
  pure := Behavior.pure
  bind := Behavior.bind

theorem pure_bind' (a : α) (f : α → Behavior ω β) : (pure a >>= f : Behavior ω β) = f a := by
  refine ext fun t b => ⟨?_, fun h => ⟨[], a, t, ⟨rfl, rfl⟩, h, rfl⟩⟩
  rintro ⟨_, _, t₂, ⟨rfl, rfl⟩, h, rfl⟩
  exact h

theorem bind_pure' (B : Behavior ω α) : (B >>= pure : Behavior ω α) = B := by
  refine ext fun t a => ⟨?_, fun h => ⟨t, a, [], h, ⟨rfl, rfl⟩, (List.append_nil t).symm⟩⟩
  rintro ⟨t₁, _, _, h, ⟨rfl, rfl⟩, rfl⟩
  rwa [List.append_nil]

theorem bind_assoc' (B : Behavior ω α) (f : α → Behavior ω β) (g : β → Behavior ω γ) :
    (B >>= f >>= g : Behavior ω γ) = B >>= fun a => f a >>= g := by
  refine ext fun t c => ⟨?_, ?_⟩
  · rintro ⟨_, b, t₃, ⟨t₁, a, t₂, hB, hf, rfl⟩, hg, rfl⟩
    exact ⟨t₁, a, t₂ ++ t₃, hB, ⟨t₂, b, t₃, hf, hg, rfl⟩, List.append_assoc ..⟩
  · rintro ⟨t₁, a, _, hB, ⟨t₂, b, t₃, hf, hg, rfl⟩, rfl⟩
    exact ⟨t₁ ++ t₂, b, t₃, ⟨t₁, a, t₂, hB, hf, rfl⟩, hg, (List.append_assoc ..).symm⟩

instance : LawfulMonad (Behavior ω) :=
  LawfulMonad.mk' _ bind_pure' pure_bind' bind_assoc'

/-- Runs the second part only where the first one completes normally. -/
def andThen (B C : Behavior ω (Completion ω)) : Behavior ω (Completion ω) := do
  match ← B with
  | .normal => C
  | c => pure c

def handledBy (B C : Behavior ω (Completion ω)) : Behavior ω (Completion ω) := do
  match ← B with
  | .throws => C
  | c => pure c

/-- Goes on with the value of an expression, or throws where it has none. -/
def onValue (B : OptionT (Behavior ω) α) (f : α → Behavior ω (Completion ω)) :
    Behavior ω (Completion ω) := do
  match ← B.run with
  | some a => f a
  | none => pure .throws

inductive Loop (C : OptionT (Behavior ω) Bool) (B : Behavior ω (Completion ω)) :
    Behavior ω (Completion ω)
  | ends {t} (h : C t (some false)) : Loop C B t .normal
  | fails {t} (h : C t none) : Loop C B t .throws
  | again {t u v c d} (h : C t (some true)) (hB : B u c) (hc : c = .normal ∨ c = .continues)
    (hd : Loop C B v d) : Loop C B (t ++ (u ++ v)) d
  | breaks {t u} (h : C t (some true)) (hB : B u .breaks) : Loop C B (t ++ u) .normal
  | returns {t u v} (h : C t (some true)) (hB : B u (.returns v)) : Loop C B (t ++ u) (.returns v)
  | throws {t u} (h : C t (some true)) (hB : B u .throws) : Loop C B (t ++ u) .throws

@[simp] theorem normal_andThen (C : Behavior ω (Completion ω)) :
    andThen (pure .normal) C = C := pure_bind _ _

theorem andThen_of_leaves {B C : Behavior ω (Completion ω)} (h : ∀ t, ¬ B t .normal) :
    B.andThen C = B := by
  refine ext fun t c => ⟨?_, fun hB => ?_⟩
  · rintro ⟨t₁, a, t₂, hB, hC, rfl⟩
    cases a with
    | normal => exact absurd hB (h t₁)
    | returns | breaks | continues | throws =>
      obtain ⟨rfl, rfl⟩ := hC
      rwa [List.append_nil]
  · refine ⟨t, c, [], hB, ?_, (List.append_nil t).symm⟩
    cases c with
    | normal => exact absurd hB (h t)
    | returns | breaks | continues | throws => exact ⟨rfl, rfl⟩

theorem andThen_normal (B : Behavior ω (Completion ω)) : B.andThen (pure .normal) = B := by
  have h : (fun c : Completion ω => match c with
      | .normal => pure .normal
      | c => pure c) = (pure : Completion ω → Behavior ω (Completion ω)) := by
    funext c
    cases c <;> rfl
  rw [andThen]
  exact (congrArg (B >>= ·) h).trans (bind_pure B)

theorem andThen_assoc (B C D : Behavior ω (Completion ω)) :
    (B.andThen C).andThen D = B.andThen (C.andThen D) := by
  simp only [andThen, bind_assoc]
  congr 1
  funext c
  cases c <;> first | rfl | exact pure_bind _ _

end Behavior

/-- What the rules for operators leave open. -/
structure Machine where
  /-- Values that are no constants. -/
  Other : Type
  /-- The outcome of an operator that the rules do not cover; without a value it throws. -/
  apply1 : String → Value Other → Option (Value Other)
  apply2 : String → Value Other → Value Other → Option (Value Other)
  apply3 : String → Value Other → Value Other → Value Other → Option (Value Other)
  /-- Whether a condition that is no truth value holds; without an answer it throws. -/
  holds : Value Other → Option Bool
  /-- Whether `&&` and `||` skip their right side when the left one decides. -/
  skips : Bool

namespace Machine

variable (M : Machine)

inductive Applies1 (op : String) : Value M.Other → Option (Value M.Other) → Prop
  | rule {a c} (h : Constant.Denotes1 op a c) : Applies1 op (.const a) (some (.const c))
  | other {v} (h : ∀ a c, v = .const a → ¬ Constant.Denotes1 op a c) : Applies1 op v (M.apply1 op v)

inductive Applies2 (op : String) :
    Value M.Other → Value M.Other → Option (Value M.Other) → Prop
  | rule {a b c} (h : Constant.Denotes2 op a b c) :
    Applies2 op (.const a) (.const b) (some (.const c))
  | other {v w} (h : ∀ a b c, v = .const a → w = .const b → ¬ Constant.Denotes2 op a b c) :
    Applies2 op v w (M.apply2 op v w)

/-- An expression under evaluation; without a value it throws. -/
abbrev Evaluation (α : Type) : Type := OptionT (Behavior M.Other) α

def anyValue (event : Value M.Other → Event M.Other) : M.Evaluation (Value M.Other) :=
  OptionT.mk fun t r => ∃ v, t = [event v] ∧ r = some v

def operator1 (op : String) (v : Value M.Other) : M.Evaluation (Value M.Other) :=
  OptionT.mk fun t r => t = [] ∧ M.Applies1 op v r

def operator2 (op : String) (v w : Value M.Other) : M.Evaluation (Value M.Other) :=
  OptionT.mk fun t r => t = [] ∧ M.Applies2 op v w r

/-- The result of an operator whose right side is skipped. -/
def decided? (op : String) (v : Value M.Other) : Option Bool :=
  match M.skips, op, v with
  | true, "&&", .const (.bool false) => some false
  | true, "||", .const (.bool true) => some true
  | _, _, _ => none

def condition (v : Value M.Other) : M.Evaluation Bool :=
  match v with
  | .const (.bool b) => pure b
  | v => OptionT.mk (pure (M.holds v))

mutual

def values : Expr → M.Evaluation (Value M.Other)
  | ⟨_, _, _, node⟩ => nodeValues node

def nodeValues : Node → M.Evaluation (Value M.Other)
  | .literal (.const c) => pure (.const c)
  | .var ref => M.anyValue (.read ref)
  | .call name args none => do
    let vs ← listValues args
    M.anyValue (.call name vs)
  | .op1 op value none => do
    let v ← values value
    M.operator1 op v
  | .op2 op left right none => do
    let v ← values left
    match M.decided? op v with
    | some b => pure (.const (.bool b))
    | none =>
      let w ← values right
      M.operator2 op v w
  | .op3 op value left right none => do
    match ← values value with
    | .const (.bool true) => values left
    | .const (.bool false) => values right
    | v =>
      let x ← values left
      let y ← values right
      OptionT.mk (pure (M.apply3 op v x y))
  | _ => OptionT.mk .stuck

def listValues : List Expr → M.Evaluation (List (Value M.Other))
  | [] => pure []
  | e :: es => do
    let v ← values e
    let vs ← listValues es
    return v :: vs

end

def optionValue : Option Expr → M.Evaluation (Option (Value M.Other))
  | none => pure none
  | some e => some <$> M.values e

variable (panics : FunctionId → Prop)

mutual

def runs : Expr → Behavior M.Other (Completion M.Other)
  | ⟨_, _, _, node⟩ => nodeRuns node

/-- The runs of a statement. An expression is run for what is seen of it. -/
def nodeRuns : Node → Behavior M.Other (Completion M.Other)
  | .call _ args (some id) =>
    .onlyIf (panics id) (.onValue (M.listValues args) fun _ => pure .throws)
  | .block _ list [] => listRuns list
  | .ifThenElse cond ifTrue ifFalse _ =>
    .onValue (M.values cond >>= M.condition) fun b => if b then runs ifTrue else optionRuns ifFalse
  | .whileLoop cond body => .Loop (M.values cond >>= M.condition) (runs body)
  | .tryCatch body handler => (runs body).handledBy (runs handler)
  | .ret value _ _ => .onValue (M.optionValue value) fun v => pure (.returns v)
  | .breakLoop => pure .breaks
  | .continueLoop => pure .continues
  | node => .onValue (M.nodeValues node) fun _ => pure .normal

def optionRuns : Option Expr → Behavior M.Other (Completion M.Other)
  | none => pure .normal
  | some e => runs e

def listRuns : List Expr → Behavior M.Other (Completion M.Other)
  | [] => pure .normal
  | e :: es => (runs e).andThen (listRuns es)

end

section Equations

variable {panics} {span : Span} {type : Option Ty} {flags : UInt32}

theorem runs_block (info : BlockInfo) (list : List Expr) :
    M.runs panics ⟨span, type, flags, .block info list []⟩ = M.listRuns panics list := rfl

theorem runs_panic (name : String) (args : List Expr) (id : FunctionId) :
    M.runs panics ⟨span, type, flags, .call name args (some id)⟩ =
      .onlyIf (panics id) (.onValue (M.listValues args) fun _ => pure .throws) := rfl

theorem runs_ifThenElse (cond ifTrue : Expr) (ifFalse : Option Expr) (isStatic : Bool) :
    M.runs panics ⟨span, type, flags, .ifThenElse cond ifTrue ifFalse isStatic⟩ =
      .onValue (M.values cond >>= M.condition) fun b =>
        if b then M.runs panics ifTrue else M.optionRuns panics ifFalse := rfl

theorem runs_whileLoop (cond body : Expr) :
    M.runs panics ⟨span, type, flags, .whileLoop cond body⟩ =
      .Loop (M.values cond >>= M.condition) (M.runs panics body) := rfl

theorem runs_tryCatch (body handler : Expr) :
    M.runs panics ⟨span, type, flags, .tryCatch body handler⟩ =
      (M.runs panics body).handledBy (M.runs panics handler) := rfl

theorem runs_ret (value : Option Expr) (moves fromYield : Bool) :
    M.runs panics ⟨span, type, flags, .ret value moves fromYield⟩ =
      .onValue (M.optionValue value) fun v => pure (.returns v) := rfl

end Equations

end Machine

end Frontend
