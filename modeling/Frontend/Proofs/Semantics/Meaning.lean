import Frontend.Proofs.Semantics.Runs
import Frontend.Proofs.Traversal.Children

/-!
# Trees of the same meaning

`PlainValue` and `PlainCode` single out the trees that runs are defined for. `SameMeaning` says that
a tree may take the place of another: it is plain if the other is, and then has the same runs on
every machine. Putting such trees in the places of children keeps the meaning of a node.
-/

namespace Frontend

open Machine

/-- An expression of truth values, integers, variables, calls that are not resolved, and operators
without a function. -/
inductive PlainValue : Expr → Prop
  | const {span type flags c} (h : c.IsSimple) :
    PlainValue ⟨span, type, flags, .literal (.const c)⟩
  | var {span type flags ref} : PlainValue ⟨span, type, flags, .var ref⟩
  | call {span type flags name args} (h : ∀ a ∈ args, PlainValue a) :
    PlainValue ⟨span, type, flags, .call name args none⟩
  | op1 {span type flags op value} (h : PlainValue value) :
    PlainValue ⟨span, type, flags, .op1 op value none⟩
  | op2 {span type flags op left right} (hl : PlainValue left) (hr : PlainValue right) :
    PlainValue ⟨span, type, flags, .op2 op left right none⟩
  | op3 {span type flags op value left right} (h : PlainValue value) (hl : PlainValue left)
    (hr : PlainValue right) : PlainValue ⟨span, type, flags, .op3 op value left right none⟩

variable {panics : FunctionId → Prop}

/-- Structured statements around plain expressions. Blocks are neither closures nor values and have
no `finally` section; a linked call is one that panics. -/
inductive PlainCode (panics : FunctionId → Prop) : Expr → Prop
  | value {e} (h : PlainValue e) : PlainCode panics e
  | panic {span type flags name args id} (hid : panics id) (h : ∀ a ∈ args, PlainValue a) :
    PlainCode panics ⟨span, type, flags, .call name args (some id)⟩
  | block {span type flags} {info : BlockInfo} {list} (ha : info.args = [])
    (ht : info.returnType = none) (hc : info.isClosure = false)
    (h : ∀ e ∈ list, PlainCode panics e) : PlainCode panics ⟨span, type, flags, .block info list []⟩
  | ifThenElse {span type flags cond ifTrue ifFalse isStatic} (hc : PlainValue cond)
    (ht : PlainCode panics ifTrue) (hf : ∀ e, ifFalse = some e → PlainCode panics e) :
    PlainCode panics ⟨span, type, flags, .ifThenElse cond ifTrue ifFalse isStatic⟩
  | whileLoop {span type flags cond body} (hc : PlainValue cond) (hb : PlainCode panics body) :
    PlainCode panics ⟨span, type, flags, .whileLoop cond body⟩
  | tryCatch {span type flags body handler} (hb : PlainCode panics body)
    (hh : PlainCode panics handler) : PlainCode panics ⟨span, type, flags, .tryCatch body handler⟩
  | ret {span type flags value moves fromYield} (h : ∀ e, value = some e → PlainValue e) :
    PlainCode panics ⟨span, type, flags, .ret value moves fromYield⟩
  | breakLoop {span type flags} : PlainCode panics ⟨span, type, flags, .breakLoop⟩
  | continueLoop {span type flags} : PlainCode panics ⟨span, type, flags, .continueLoop⟩

theorem PlainValue.runs {e : Expr} (h : PlainValue e) (M : Machine) :
    M.runs panics e = .onValue (M.values e) fun _ => pure .normal := by
  cases h <;> rfl

section Totality

variable {M : Machine} {α β : Type}

theorem evaluates_bind {B : M.Evaluation α} {f : α → M.Evaluation β} (hB : ∃ t r, B t r)
    (hf : ∀ a, ∃ t r, f a t r) : ∃ t r, (B >>= f) t r := by
  obtain ⟨t, r, hB⟩ := hB
  cases r with
  | none => exact ⟨t ++ [], none, t, none, [], hB, ⟨rfl, rfl⟩, rfl⟩
  | some a =>
    obtain ⟨t', r', hf⟩ := hf a
    exact ⟨t ++ t', r', t, some a, t', hB, hf, rfl⟩

theorem evaluates_pure (a : α) : ∃ t r, (pure a : M.Evaluation α) t r := ⟨[], some a, rfl, rfl⟩

theorem evaluates_anyValue (event : Value M.Other → Event M.Other) :
    ∃ t r, M.anyValue event t r := by
  let v : Value M.Other := .const (.bool true)
  exact ⟨[event v], some v, v, rfl, rfl⟩

theorem evaluates_operator1 (op : String) (v : Value M.Other) : ∃ t r, M.operator1 op v t r := by
  by_cases h : ∃ a c, v = .const a ∧ Constant.Denotes1 op a c
  · obtain ⟨a, c, rfl, h⟩ := h
    exact ⟨[], _, rfl, .rule h⟩
  · exact ⟨[], _, rfl, .other fun a c ha hd => h ⟨a, c, ha, hd⟩⟩

theorem evaluates_operator2 (op : String) (v w : Value M.Other) :
    ∃ t r, M.operator2 op v w t r := by
  by_cases h : ∃ a b c, v = .const a ∧ w = .const b ∧ Constant.Denotes2 op a b c
  · obtain ⟨a, b, c, rfl, rfl, h⟩ := h
    exact ⟨[], _, rfl, .rule h⟩
  · exact ⟨[], _, rfl, .other fun a b c ha hb hd => h ⟨a, b, c, ha, hb, hd⟩⟩

theorem evaluates_listValues {es : List Expr} (h : ∀ e ∈ es, ∃ t r, M.values e t r) :
    ∃ t r, M.listValues es t r := by
  induction es with
  | nil => exact evaluates_pure _
  | cons e es ih =>
    refine evaluates_bind (h e (.head _)) fun v => ?_
    exact evaluates_bind (ih fun e he => h e (.tail _ he)) fun vs => evaluates_pure _

/-- No plain expression gets stuck: it has a value or throws. -/
theorem PlainValue.evaluates {e : Expr} (h : PlainValue e) : ∃ t r, M.values e t r := by
  induction h with
  | const => exact evaluates_pure _
  | var => exact evaluates_anyValue _
  | call _ ih => exact evaluates_bind (evaluates_listValues ih) fun _ => evaluates_anyValue _
  | op1 _ ih => exact evaluates_bind ih fun _ => evaluates_operator1 _ _
  | @op2 _ _ _ op left right _ _ ihl ihr =>
    refine evaluates_bind ihl fun v => ?_
    cases M.decided? op v with
    | some b => exact evaluates_pure _
    | none => exact evaluates_bind ihr fun _ => evaluates_operator2 _ _ _
  | @op3 _ _ _ op value left right _ _ _ ih ihl ihr =>
    have both (v : Value M.Other) : ∃ t r, (do
        let x ← M.values left
        let y ← M.values right
        OptionT.mk (pure (M.apply3 op v x y)) : M.Evaluation (Value M.Other)) t r :=
      evaluates_bind ihl fun _ => evaluates_bind ihr fun _ => ⟨[], _, rfl, rfl⟩
    refine evaluates_bind ih fun v => ?_
    cases v with
    | other x => exact both _
    | const c =>
      cases c with
      | bool b =>
        cases b with
        | true => exact ihl
        | false => exact ihr
      | _ => exact both _

end Totality

/-- The second tree is as plain as the first and has the same runs. -/
structure SameMeaning (panics : FunctionId → Prop) (e e' : Expr) : Prop where
  value : PlainValue e → PlainValue e' ∧ ∀ M : Machine, M.values e' = M.values e
  code : PlainCode panics e → PlainCode panics e' ∧ ∀ M : Machine, M.runs panics e' = M.runs panics e

namespace SameMeaning

variable {e e' : Expr} {es es' : List Expr}

theorem refl (e : Expr) : SameMeaning panics e e where
  value h := ⟨h, fun _ => rfl⟩
  code h := ⟨h, fun _ => rfl⟩

theorem trans {a b c : Expr} (h : SameMeaning panics a b) (h' : SameMeaning panics b c) :
    SameMeaning panics a c where
  value ha := by
    obtain ⟨hb, hab⟩ := h.value ha
    obtain ⟨hc, hbc⟩ := h'.value hb
    exact ⟨hc, fun M => (hbc M).trans (hab M)⟩
  code ha := by
    obtain ⟨hb, hab⟩ := h.code ha
    obtain ⟨hc, hbc⟩ := h'.code hb
    exact ⟨hc, fun M => (hbc M).trans (hab M)⟩

/-- Of an expression only its values matter. -/
theorem of_value (h : PlainValue e)
    (hv : PlainValue e → PlainValue e' ∧ ∀ M : Machine, M.values e' = M.values e) :
    PlainCode panics e' ∧ ∀ M : Machine, M.runs panics e' = M.runs panics e := by
  obtain ⟨h', hM⟩ := hv h
  exact ⟨.value h', fun M => by rw [h.runs, h'.runs, hM]⟩

theorem listValues (h : List.Forall₂ (SameMeaning panics) es es') (hp : ∀ e ∈ es, PlainValue e) :
    (∀ e ∈ es', PlainValue e) ∧ ∀ M : Machine, M.listValues es' = M.listValues es := by
  induction h with
  | nil => exact ⟨hp, fun _ => rfl⟩
  | cons h _ ih =>
    obtain ⟨hv, hM⟩ := h.value (hp _ (.head _))
    obtain ⟨hvs, hMs⟩ := ih fun e he => hp e (.tail _ he)
    refine ⟨List.forall_mem_cons.2 ⟨hv, hvs⟩, fun M => ?_⟩
    simp only [Machine.listValues, hM, hMs]

theorem listRuns (h : List.Forall₂ (SameMeaning panics) es es')
    (hp : ∀ e ∈ es, PlainCode panics e) :
    (∀ e ∈ es', PlainCode panics e) ∧
      ∀ M : Machine, M.listRuns panics es' = M.listRuns panics es := by
  induction h with
  | nil => exact ⟨hp, fun _ => rfl⟩
  | cons h _ ih =>
    obtain ⟨hc, hM⟩ := h.code (hp _ (.head _))
    obtain ⟨hcs, hMs⟩ := ih fun e he => hp e (.tail _ he)
    refine ⟨List.forall_mem_cons.2 ⟨hc, hcs⟩, fun M => ?_⟩
    simp only [Machine.listRuns, hM, hMs]

theorem optionValue {a a' : Option Expr} (h : Option.Rel (SameMeaning panics) a a')
    (hp : ∀ e, a = some e → PlainValue e) :
    (∀ e, a' = some e → PlainValue e) ∧ ∀ M : Machine, M.optionValue a' = M.optionValue a := by
  cases h with
  | none => exact ⟨hp, fun _ => rfl⟩
  | some h =>
    obtain ⟨hv, hM⟩ := h.value (hp _ rfl)
    refine ⟨fun e he => ?_, fun M => ?_⟩
    · cases he
      exact hv
    · simp only [Machine.optionValue, hM]

theorem optionRuns {a a' : Option Expr} (h : Option.Rel (SameMeaning panics) a a')
    (hp : ∀ e, a = some e → PlainCode panics e) :
    (∀ e, a' = some e → PlainCode panics e) ∧
      ∀ M : Machine, M.optionRuns panics a' = M.optionRuns panics a := by
  cases h with
  | none => exact ⟨hp, fun _ => rfl⟩
  | some h =>
    obtain ⟨hc, hM⟩ := h.code (hp _ rfl)
    refine ⟨fun e he => ?_, fun M => ?_⟩
    · cases he
      exact hc
    · simp only [Machine.optionRuns, hM]

theorem values_congr {n : Node} (h : e.node.Rewritten (SameMeaning panics) n)
    (hp : PlainValue e) :
    PlainValue { e with node := n } ∧
      ∀ M : Machine, M.values { e with node := n } = M.values e := by
  cases hp with
  | const hc =>
    cases h
    exact ⟨.const hc, fun _ => rfl⟩
  | var =>
    cases h
    exact ⟨.var, fun _ => rfl⟩
  | call hp =>
    cases h with
    | call h =>
      obtain ⟨hvs, hM⟩ := listValues h hp
      exact ⟨.call hvs, fun M => by simp only [values, nodeValues, hM]⟩
  | op1 hp =>
    cases h with
    | op1 h =>
      obtain ⟨hv, hM⟩ := h.value hp
      exact ⟨.op1 hv, fun M => by simp only [values, nodeValues, hM]⟩
  | op2 hpl hpr =>
    cases h with
    | op2 hl hr =>
      obtain ⟨hv, hM⟩ := hl.value hpl
      obtain ⟨hw, hM'⟩ := hr.value hpr
      exact ⟨.op2 hv hw, fun M => by simp only [values, nodeValues, hM, hM']⟩
  | op3 hp hpl hpr =>
    cases h with
    | op3 h hl hr =>
      obtain ⟨hv, hM⟩ := h.value hp
      obtain ⟨hx, hMl⟩ := hl.value hpl
      obtain ⟨hy, hMr⟩ := hr.value hpr
      exact ⟨.op3 hv hx hy, fun M => by simp only [values, nodeValues, hM, hMl, hMr]⟩

theorem runs_congr {n : Node} (h : e.node.Rewritten (SameMeaning panics) n)
    (hp : PlainCode panics e) :
    PlainCode panics { e with node := n } ∧
      ∀ M : Machine, M.runs panics { e with node := n } = M.runs panics e := by
  cases hp with
  | value hp => exact of_value hp (values_congr h)
  | panic hid hp =>
    cases h with
    | call h =>
      obtain ⟨hvs, hM⟩ := listValues h hp
      exact ⟨.panic hid hvs, fun M => by simp only [runs_panic, hM]⟩
  | @block _ _ _ info _ ha ht hc hp =>
    cases h with
    | @block _ _ _ _ finalList' h hf hd =>
      -- A section that is left out of the visit stays, and one that is visited keeps its length.
      obtain rfl : finalList' = [] := by
        unfold visitedFinally at hf
        cases hdis : info.finallyDisabled with
        | true => exact hd hdis
        | false =>
          rw [hdis] at hf
          exact List.forall₂_nil_left_iff.1 hf
      obtain ⟨hcs, hM⟩ := listRuns h hp
      exact ⟨.block ha ht hc hcs, fun M => by simp only [runs_block, hM]⟩
  | ifThenElse hc ht hf =>
    cases h with
    | ifThenElse h h' h'' =>
      obtain ⟨hv, hM⟩ := h.value hc
      obtain ⟨ht', hMt⟩ := h'.code ht
      obtain ⟨hf', hMf⟩ := optionRuns h'' hf
      exact ⟨.ifThenElse hv ht' hf', fun M => by simp only [runs_ifThenElse, hM, hMt, hMf]⟩
  | whileLoop hc hb =>
    cases h with
    | whileLoop h h' =>
      obtain ⟨hv, hM⟩ := h.value hc
      obtain ⟨hb', hMb⟩ := h'.code hb
      exact ⟨.whileLoop hv hb', fun M => by simp only [runs_whileLoop, hM, hMb]⟩
  | tryCatch hb hh =>
    cases h with
    | tryCatch h h' =>
      obtain ⟨hb', hMb⟩ := h.code hb
      obtain ⟨hh', hMh⟩ := h'.code hh
      exact ⟨.tryCatch hb' hh', fun M => by simp only [runs_tryCatch, hMb, hMh]⟩
  | ret hp =>
    cases h with
    | ret h =>
      obtain ⟨hv, hM⟩ := optionValue h hp
      exact ⟨.ret hv, fun M => by simp only [runs_ret, hM]⟩
  | breakLoop =>
    cases h
    exact ⟨.breakLoop, fun _ => rfl⟩
  | continueLoop =>
    cases h
    exact ⟨.continueLoop, fun _ => rfl⟩

theorem congr {n : Node} (h : e.node.Rewritten (SameMeaning panics) n) :
    SameMeaning panics e { e with node := n } where
  value := values_congr h
  code := runs_congr h

end SameMeaning

end Frontend
