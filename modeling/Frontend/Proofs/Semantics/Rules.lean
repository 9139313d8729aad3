import Frontend.Proofs.Optimizer.Shrinking
import Frontend.Proofs.Semantics.Meaning

/-!
# The rules of the optimizer keep the meaning

Constant operators have the value that folding gives them, a condition known ahead of time selects
the branch that is taken, blocks can be inlined, statements behind one that always leaves are never
run, and constants are run for nothing.
-/

namespace Frontend

open Machine

namespace Behavior

variable {ω α : Type}

@[simp] theorem onValue_pure (a : α) (f : α → Behavior ω (Completion ω)) :
    onValue (pure a) f = f a := pure_bind' _ _

theorem loop_false (B : Behavior ω (Completion ω)) : Loop (pure false) B = pure .normal := by
  refine ext fun t c => ⟨fun h => ?_, ?_⟩
  · cases h with
    | ends h =>
      obtain ⟨rfl, _⟩ := h
      exact ⟨rfl, rfl⟩
    | fails h | again h | breaks h | returns h | throws h => cases h.2
  · rintro ⟨rfl, rfl⟩
    exact .ends ⟨rfl, rfl⟩

end Behavior

namespace Machine

variable (M : Machine) {op : String} {a b c : Constant}

theorem operator1_of_denotes (h : Constant.Denotes1 op a c) :
    M.operator1 op (.const a) = pure (.const c) := by
  refine Behavior.ext fun t r => and_congr_right fun _ => ⟨fun hr => ?_, ?_⟩
  · cases hr with
    | rule h' => rw [h.unique h']
    | other hn => exact absurd h (hn _ _ rfl)
  · rintro rfl
    exact .rule h

theorem operator2_of_denotes (h : Constant.Denotes2 op a b c) :
    M.operator2 op (.const a) (.const b) = pure (.const c) := by
  refine Behavior.ext fun t r => and_congr_right fun _ => ⟨fun hr => ?_, ?_⟩
  · cases hr with
    | rule h' => rw [h.unique h']
    | other hn => exact absurd h (hn _ _ _ rfl rfl)
  · rintro rfl
    exact .rule h

/-- Where the right side is skipped, it would not have changed the result. -/
theorem decided_of_denotes {x : Bool} (h : Constant.Denotes2 op a b c)
    (hd : M.decided? op (.const a) = some x) : c = .bool x := by
  unfold decided? at hd
  split at hd
  · rename_i ha
    cases ha
    cases hd
    cases h with
    | bool h => cases h; rfl
    | word _ _ hx => cases hx
    | truth _ hx => cases hx
  · rename_i ha
    cases ha
    cases hd
    cases h with
    | bool h => cases h; rfl
    | word _ _ hx => cases hx
    | truth _ hx => cases hx
  · cases hd

end Machine

variable {panics : FunctionId → Prop} {e e' : Expr}

section Conditions

theorem PlainValue.of_const {c : Constant} (hp : PlainValue e) (h : e.const? = some c) :
    c.IsSimple ∧ ∀ M : Machine, M.values e = pure (.const c) := by
  cases hp with
  | const hc =>
    cases h
    exact ⟨hc, fun _ => rfl⟩
  | var | call | op1 | op2 | op3 => cases h

/-- A condition known ahead of time has one value. -/
theorem PlainValue.of_condition {b : Bool} (hp : PlainValue e) (h : condition? e = some b)
    (M : Machine) : M.values e = pure (.const (.bool b)) := by
  obtain ⟨c, hc, hb⟩ := Option.bind_eq_some_iff.1 h
  obtain rfl : c = .bool b := by
    cases c <;> cases hb
    rfl
  exact (hp.of_const hc).2 M

theorem condition_of_known {b : Bool} (hp : PlainValue e) (h : condition? e = some b)
    (M : Machine) : (M.values e >>= M.condition : M.Evaluation Bool) = pure b := by
  rw [hp.of_condition h]
  exact pure_bind _ _

end Conditions

namespace SameMeaning

/-- What is no statement by itself keeps its meaning with its values. -/
theorem of_values (hc : PlainCode panics e → PlainValue e)
    (h : PlainValue e → PlainValue e' ∧ ∀ M : Machine, M.values e' = M.values e) :
    SameMeaning panics e e' where
  value := h
  code hp := of_value (hc hp) h

/-- What is no expression keeps its meaning with its runs. -/
theorem of_runs (hv : ¬ PlainValue e) (h : PlainCode panics e → PlainCode panics e' ∧
    ∀ M : Machine, M.runs panics e' = M.runs panics e) : SameMeaning panics e e' where
  value hp := absurd hp hv
  code := h

/-- No tree with a part that runs are not defined for takes part. -/
theorem of_not_plain (h : ¬ PlainCode panics e) : SameMeaning panics e e' where
  value hp := absurd (.value hp) h
  code hp := absurd hp h

end SameMeaning

section Folding

variable {s : Store} {span : Span} {type : Option Ty} {flags : UInt32} {op : String} {c : Constant}

theorem values_const (M : Machine) (span : Span) (c : Constant) :
    M.values (.const span c) = pure (.const c) := rfl

theorem sameMeaning_fold1 {value : Expr} {function : Option FunctionId} {a : Constant}
    (ha : value.const? = some a) (hc : a.fold1 op = some c) :
    SameMeaning panics ⟨span, type, flags, .op1 op value function⟩ (.const span c) := by
  refine .of_values (fun hp => ?_) fun hp => ?_
  · cases hp with
    | value hp => exact hp
  · cases hp with
    | op1 hp =>
      obtain ⟨hsimple, hvalue⟩ := hp.of_const ha
      obtain ⟨hdenotes, hresult⟩ := Constant.denotes_fold1 hsimple hc
      refine ⟨.const hresult, fun M => ?_⟩
      have : M.values ⟨span, type, flags, .op1 op value none⟩ =
          M.values value >>= M.operator1 op := rfl
      rw [this, hvalue, values_const, pure_bind, M.operator1_of_denotes hdenotes]

theorem sameMeaning_fold2 {left right : Expr} {function : Option FunctionId} {a b : Constant}
    (ha : left.const? = some a) (hb : right.const? = some b) (hc : a.fold2 op b = some c) :
    SameMeaning panics ⟨span, type, flags, .op2 op left right function⟩ (.const span c) := by
  refine .of_values (fun hp => ?_) fun hp => ?_
  · cases hp with
    | value hp => exact hp
  · cases hp with
    | op2 hl hr =>
      obtain ⟨hsimple, hleft⟩ := hl.of_const ha
      obtain ⟨_, hright⟩ := hr.of_const hb
      obtain ⟨hdenotes, hresult⟩ := Constant.denotes_fold2 hsimple hc
      refine ⟨.const hresult, fun M => ?_⟩
      simp only [values, nodeValues, hleft, hright, values_const, pure_bind,
        M.operator2_of_denotes hdenotes]
      cases hd : M.decided? op (.const a) with
      | none => rfl
      | some x => rw [M.decided_of_denotes hdenotes hd]

/-- A folded operator has the value of the operator. -/
theorem sameMeaning_foldConstant (h : s.foldConstant? e = some e') : SameMeaning panics e e' := by
  obtain ⟨span, type, flags, node⟩ := e
  unfold Store.foldConstant? at h
  split at h
  · rename_i op value function hnode
    cases hnode
    split at h
    · obtain ⟨a, ha, h⟩ := Option.bind_eq_some_iff.1 h
      obtain ⟨c, hc, h⟩ := Option.bind_eq_some_iff.1 h
      cases h
      exact sameMeaning_fold1 ha hc
    · cases h
  · rename_i op left right function hnode
    cases hnode
    split at h
    · obtain ⟨a, ha, h⟩ := Option.bind_eq_some_iff.1 h
      obtain ⟨b, hb, h⟩ := Option.bind_eq_some_iff.1 h
      obtain ⟨c, hc, h⟩ := Option.bind_eq_some_iff.1 h
      cases h
      exact sameMeaning_fold2 ha hb hc
    · cases h
  · rename_i hnode
    cases hnode
    refine .of_not_plain fun hp => ?_
    cases hp with
    | value hp => cases hp
  · cases h

end Folding

section Branches

variable {s : Store} {span : Span} {type : Option Ty} {flags : UInt32}

theorem plainCode_emptyBlock (span : Span) : PlainCode panics (.emptyBlock span) :=
  .block rfl rfl rfl fun _ h => by cases h

theorem sameMeaning_ifThenElse {cond ifTrue : Expr} {ifFalse : Option Expr} {isStatic b : Bool}
    (h : condition? cond = some b) :
    SameMeaning panics ⟨span, type, flags, .ifThenElse cond ifTrue ifFalse isStatic⟩
      (if b then ifTrue else ifFalse.getD (.emptyBlock span)) := by
  refine .of_runs (fun hp => by cases hp) fun hp => ?_
  cases hp with
  | value hp => cases hp
  | ifThenElse hc ht hf =>
    have hruns (M : Machine) :
        M.runs panics ⟨span, type, flags, .ifThenElse cond ifTrue ifFalse isStatic⟩ =
          if b then M.runs panics ifTrue else M.optionRuns panics ifFalse := by
      rw [runs_ifThenElse, condition_of_known hc h, Behavior.onValue_pure]
    cases b with
    | true => exact ⟨ht, fun M => (hruns M).symm⟩
    | false =>
      cases ifFalse with
      | none => exact ⟨plainCode_emptyBlock span, fun M => (hruns M).symm⟩
      | some e => exact ⟨hf e rfl, fun M => (hruns M).symm⟩

theorem sameMeaning_whileLoop {cond body : Expr} (h : condition? cond = some false) :
    SameMeaning panics ⟨span, type, flags, .whileLoop cond body⟩ (.emptyBlock span) := by
  refine .of_runs (fun hp => by cases hp) fun hp => ?_
  cases hp with
  | value hp => cases hp
  | whileLoop hc hb =>
    refine ⟨plainCode_emptyBlock span, fun M => ?_⟩
    rw [runs_whileLoop, condition_of_known hc h, Behavior.loop_false]
    rfl

theorem sameMeaning_op3 {op : String} {value left right : Expr} {function : Option FunctionId}
    {b : Bool} (h : condition? value = some b) :
    SameMeaning panics ⟨span, type, flags, .op3 op value left right function⟩
      (if b then left else right) := by
  refine .of_values (fun hp => ?_) fun hp => ?_
  · cases hp with
    | value hp => exact hp
  · cases hp with
    | op3 hp hl hr =>
      have hvalue := hp.of_condition h
      cases b with
      | true =>
        refine ⟨hl, fun M => ?_⟩
        simp only [values, nodeValues, hvalue, pure_bind, if_true]
      | false =>
        refine ⟨hr, fun M => ?_⟩
        simp only [values, nodeValues, hvalue, pure_bind, Bool.false_eq_true, if_false]

/-- The chosen branch is the one that runs. -/
theorem sameMeaning_chooseBranch (h : s.chooseBranch? e = some e') : SameMeaning panics e e' := by
  obtain ⟨span, type, flags, node⟩ := e
  unfold Store.chooseBranch? at h
  split at h
  · rename_i hnode
    cases hnode
    obtain ⟨b, hb, rfl⟩ := Option.map_eq_some_iff.1 h
    exact sameMeaning_ifThenElse hb
  · rename_i hnode
    cases hnode
    split at h
    · rename_i hcond
      cases h
      exact sameMeaning_whileLoop hcond
    · cases h
  · rename_i hnode
    cases hnode
    split at h
    · obtain ⟨b, hb, rfl⟩ := Option.map_eq_some_iff.1 h
      exact sameMeaning_op3 hb
    · cases h
  · cases h

end Branches

section Lists

variable {es es' es'' : List Expr}

theorem listRuns_append (M : Machine) (es es' : List Expr) :
    M.listRuns panics (es ++ es') = (M.listRuns panics es).andThen (M.listRuns panics es') := by
  induction es with
  | nil => exact (Behavior.normal_andThen _).symm
  | cons e es ih =>
    rw [List.cons_append, listRuns, listRuns, ih, Behavior.andThen_assoc]

theorem listRuns_singleton (M : Machine) (e : Expr) : M.listRuns panics [e] = M.runs panics e :=
  Behavior.andThen_normal _

structure SameList (panics : FunctionId → Prop) (es es' : List Expr) : Prop where
  plain : ∀ e ∈ es', PlainCode panics e
  runs : ∀ M : Machine, M.listRuns panics es' = M.listRuns panics es

theorem SameList.trans {as bs cs : List Expr} (h : SameList panics as bs)
    (h' : SameList panics bs cs) : SameList panics as cs :=
  ⟨h'.plain, fun M => (h'.runs M).trans (h.runs M)⟩

/-- A statement may be replaced by statements that stand for it. -/
theorem SameList.cons (he : SameList panics [e] es) (h : SameList panics es' es'') :
    SameList panics (e :: es') (es ++ es'') where
  plain x hx := (List.mem_append.1 hx).elim (he.plain x) (h.plain x)
  runs M := by
    rw [listRuns_append, he.runs, h.runs, ← listRuns_append]
    rfl

theorem sameList_inlineAll (hs : ∀ e ∈ es, SameList panics [e] (Expr.inlined e)) :
    SameList panics es (Expr.inlineAll es) := by
  induction es with
  | nil => exact ⟨fun _ h => (by cases h), fun _ => rfl⟩
  | cons e es ih =>
    exact (hs e (.head _)).cons (ih fun e he => hs e (.tail _ he))

theorem sameList_self (h : PlainCode panics e) : SameList panics [e] [e] :=
  ⟨fun _ hx => List.mem_singleton.1 hx ▸ h, fun _ => rfl⟩

/-- A plain block runs its statements in its place. -/
theorem sameList_inlined (h : PlainCode panics e) : SameList panics [e] (Expr.inlined e) := by
  induction h with
  | @block span type flags info list ha ht hc hp ih =>
    unfold Expr.inlined
    split
    · refine ⟨(sameList_inlineAll ih).plain, fun M => ?_⟩
      rw [(sameList_inlineAll ih).runs, listRuns_singleton, runs_block]
    · exact sameList_self (.block ha ht hc hp)
  | @value e h =>
    have same : SameList panics [e] [e] := sameList_self (.value h)
    cases h <;> exact same
  | panic hid h => exact sameList_self (.panic hid h)
  | ifThenElse hc ht hf => exact sameList_self (.ifThenElse hc ht hf)
  | whileLoop hc hb => exact sameList_self (.whileLoop hc hb)
  | tryCatch hb hh => exact sameList_self (.tryCatch hb hh)
  | ret h => exact sameList_self (.ret h)
  | breakLoop => exact sameList_self .breakLoop
  | continueLoop => exact sameList_self .continueLoop

end Lists

section Leaving

variable {s : Store} {es : List Expr} {M : Machine}

theorem not_normal_andThen {ω : Type} {B C : Behavior ω (Completion ω)}
    (h : (∀ t, ¬ B t .normal) ∨ ∀ t, ¬ C t .normal) (t : List (Event ω)) :
    ¬ B.andThen C t .normal := by
  rintro ⟨t₁, c, t₂, hB, hC, rfl⟩
  cases c with
  | normal => exact h.elim (fun h => h _ hB) fun h => h _ hC
  | returns | breaks | continues | throws => cases hC.2

theorem not_normal_onValue {ω α : Type} {B : OptionT (Behavior ω) α}
    {f : α → Behavior ω (Completion ω)} (h : ∀ a t, ¬ f a t .normal) (t : List (Event ω)) :
    ¬ Behavior.onValue B f t .normal := by
  rintro ⟨t₁, r, t₂, hB, hf, rfl⟩
  cases r with
  | none => cases hf.2
  | some a => exact h a _ hf

theorem not_normal_listRuns
    (hs : ∀ e ∈ es, s.alwaysLeaves e = true → ∀ t, ¬ M.runs panics e t .normal)
    (h : s.anyLeaves es = true) : ∀ t, ¬ M.listRuns panics es t .normal := by
  induction es with
  | nil => cases h
  | cons e es ih =>
    refine not_normal_andThen ?_
    rcases Bool.or_eq_true_iff.1 h with h | h
    · exact .inl (hs e (.head _) h)
    · exact .inr (ih (fun e he => hs e (.tail _ he)) h)

/-- A statement that always leaves never completes normally. -/
theorem not_normal_of_leaves (hp : PlainCode panics e) (h : s.alwaysLeaves e = true) :
    ∀ t, ¬ M.runs panics e t .normal := by
  induction hp with
  | value hp => cases hp <;> cases h
  | panic hid hp =>
    rintro t ⟨_, hrun⟩
    exact not_normal_onValue (fun _ _ h => by cases h.2) t hrun
  | block ha ht hc hp ih =>
    have h : s.anyLeaves _ = true := (Bool.and_eq_true_iff.1 h).2
    exact not_normal_listRuns ih h
  | @ifThenElse _ _ _ cond ifTrue ifFalse _ hc ht hf iht ihf =>
    cases ifFalse with
    | none => cases h
    | some ifFalse =>
      obtain ⟨h₁, h₂⟩ := Bool.and_eq_true_iff.1 h
      refine not_normal_onValue fun b => ?_
      cases b with
      | true => exact iht h₁
      | false => exact ihf ifFalse rfl h₂
  | whileLoop | tryCatch => cases h
  | ret => exact not_normal_onValue fun _ _ h => by cases h.2
  | breakLoop => exact fun t h => by cases h.2
  | continueLoop => exact fun t h => by cases h.2

theorem not_label (hp : PlainCode panics e) : e.isLabel = false := by
  cases hp with
  | value hp => cases hp <;> rfl
  | panic | block | ifThenElse | whileLoop | tryCatch | ret | breakLoop | continueLoop => rfl

theorem reachable_skipping {leaves : Expr → Bool} (hp : ∀ e ∈ es, PlainCode panics e) :
    Expr.reachable leaves true es = [] := by
  induction es with
  | nil => rfl
  | cons e es ih =>
    have he : e.isLabel = false := not_label (hp e (.head _))
    simp only [Expr.reachable, he, Bool.not_false, Bool.and_true, if_true]
    exact ih fun e he => hp e (.tail _ he)

/-- Statements behind one that always leaves are never run. -/
theorem sameList_reachable (hp : ∀ e ∈ es, PlainCode panics e) :
    SameList panics es (Expr.reachable s.alwaysLeaves false es) := by
  induction es with
  | nil => exact ⟨fun _ h => (by cases h), fun _ => rfl⟩
  | cons e es ih =>
    have he : PlainCode panics e := hp e (.head _)
    have hes : ∀ e ∈ es, PlainCode panics e := fun e he => hp e (.tail _ he)
    simp only [Expr.reachable, Bool.false_and, Bool.false_eq_true, if_false]
    cases hleaves : s.alwaysLeaves e with
    | false => exact (sameList_self he).cons (ih hes)
    | true =>
      rw [reachable_skipping hes]
      refine ⟨(sameList_self he).plain, fun M => ?_⟩
      rw [listRuns_singleton, listRuns,
        Behavior.andThen_of_leaves (not_normal_of_leaves he hleaves)]

end Leaving

section Constants

variable {es : List Expr}

theorem sameList_literal (hp : PlainCode panics e) (h : e.isLiteral = true) :
    SameList panics [e] [] := by
  refine ⟨fun _ h => (by cases h), fun M => ?_⟩
  rw [listRuns_singleton]
  cases hp with
  | value hp =>
    cases hp with
    | @const _ _ _ c hc =>
      exact (Behavior.onValue_pure (Value.const c) fun _ => pure Completion.normal).symm
    | var | call | op1 | op2 | op3 => cases h
  | panic | block | ifThenElse | whileLoop | tryCatch | ret | breakLoop | continueLoop => cases h

theorem sameList_dropConstants (hp : ∀ e ∈ es, PlainCode panics e) :
    SameList panics es (Expr.dropConstants false es) := by
  fun_induction Expr.dropConstants false es with
  | case1 => exact ⟨fun _ h => (by cases h), fun _ => rfl⟩
  | case2 e h => exact sameList_self (hp e (.head _))
  | case3 e h =>
    have h : e.isLiteral = true := by simpa using h
    exact sameList_literal (hp e (.head _)) h
  | case4 e es _ h ih =>
    exact (sameList_self (hp e (.head _))).cons (ih fun e he => hp e (.tail _ he))
  | case5 e es _ h ih =>
    have h : e.isLiteral = true := by simpa using h
    exact (sameList_literal (hp e (.head _)) h).cons (ih fun e he => hp e (.tail _ he))

end Constants

section Blocks

variable {s : Store} {span : Span} {type : Option Ty} {flags : UInt32} {info : BlockInfo}
  {list list' finalList finalList' : List Expr}

/-- A plain block may be given statements that stand for its own. -/
theorem sameMeaning_block (hfinal : finalList = [] → finalList' = [])
    (h : info.returnType = none → (∀ e ∈ list, PlainCode panics e) → SameList panics list list') :
    SameMeaning panics ⟨span, type, flags, .block info list finalList⟩
      ⟨span, type, flags, .block info list' finalList'⟩ := by
  refine .of_runs (fun hp => by cases hp) fun hp => ?_
  cases hp with
  | value hp => cases hp
  | block ha ht hc hp =>
    obtain rfl := hfinal rfl
    have h := h ht hp
    exact ⟨.block ha ht hc h.plain, fun M => by rw [runs_block, runs_block, h.runs]⟩

/-- A tidied block runs as before. -/
theorem sameMeaning_tidyBlock (h : s.tidyBlock? e = some e') : SameMeaning panics e e' := by
  obtain ⟨span, type, flags, node⟩ := e
  unfold Store.tidyBlock? at h
  split at h
  · rename_i hnode
    cases hnode
    dsimp only at h
    split at h
    · cases h
      refine sameMeaning_block (fun h => by rw [h]; rfl) fun _ hp => ?_
      have hinline := sameList_inlineAll fun e he => sameList_inlined (hp e he)
      exact hinline.trans (sameList_reachable hinline.plain)
    · cases h
  · cases h

theorem yieldsValue_of_none (h : info.returnType = none) : info.yieldsValue = false := by
  unfold BlockInfo.yieldsValue
  rw [h]

theorem sameMeaning_cleanBlock (h : e.cleanBlock? = some e') : SameMeaning panics e e' := by
  obtain ⟨span, type, flags, node⟩ := e
  unfold Expr.cleanBlock? at h
  split at h
  · rename_i hnode
    cases hnode
    dsimp only at h
    split at h
    · cases h
    · cases h
      refine sameMeaning_block (fun h => by rw [h]; rfl) fun ht hp => ?_
      rw [yieldsValue_of_none ht]
      exact sameList_dropConstants hp
  · cases h

end Blocks

end Frontend
