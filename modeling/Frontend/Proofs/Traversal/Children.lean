import Frontend.Expr.Subtrees
import Frontend.Optimizer.Reachability
import Frontend.Program.Validity
import Mathlib.Data.List.Forall2

/-!
# Children of a node, as a traversal visits them

`Node.visited` lists the children in the order of a visit, and `Node.declared` the variables that
are entered before them. `Node.Rewritten R` holds between two nodes of one kind that agree in
everything but their children, each visited child being related to the one in its place by `R`.
What a node says by itself is the same on both sides.
-/

namespace Frontend

inductive FieldInit.Rewritten (R : Expr → Expr → Prop) : FieldInit → FieldInit → Prop
  | mk {name value value' moves span} (h : R value value') :
    Rewritten R ⟨name, value, moves, span⟩ ⟨name, value', moves, span⟩

def visitedFinally (info : BlockInfo) (finalList : List Expr) : List Expr :=
  if info.finallyDisabled then [] else finalList

/-- The children that a visit comes by, in its order. -/
def Node.visited : Node → List Expr
  | .goto _ target => target.toList
  | .convert _ value => [value]
  | .nullCoalescing value default => [value, default]
  | .looksLikeCall _ _ args => args
  | .call _ args _ => args
  | .namedCall _ args => args.map (·.value)
  | .makeGenerator _ args => args
  | .new _ args _ => args
  | .yield value _ => [value]
  | .makeBlock body _ _ => [body]
  | .isType value _ => [value]
  | .typeInfo _ value _ => value.toList
  | .delete value _ => [value]
  | .cast value _ _ _ => [value]
  | .ascend value _ _ => [value]
  | .index _ value position => [value, position]
  | .block info list finalList =>
    if info.finallyBeforeBody then visitedFinally info finalList ++ list
    else list ++ visitedFinally info finalList
  | .swizzle _ value _ => [value]
  | .field _ _ value _ _ _ => [value]
  | .stringBuilder elements => elements
  | .op1 _ value _ => [value]
  | .op2 _ left right _ => [left, right]
  | .op3 _ value left right _ => [value, left, right]
  | .assign _ left right _ => [left, right]
  | .sequence left right => [left, right]
  | .tryCatch body handler => [body, handler]
  | .ret value _ _ => value.toList
  | .ifThenElse cond ifTrue ifFalse _ => cond :: ifTrue :: ifFalse.toList
  | .within value body => [value, body]
  | .whileLoop cond body => [cond, body]
  | .forEach _ _ sources body => sources ++ body.toList
  | .makeStruct _ rows _ => rows.flatMap fun fields => fields.map (·.value)
  | .makeVariant _ fields => fields.map (·.value)
  | .makeArray _ values => values
  | .makeTuple _ values _ => values
  | .comprehension source body filter _ => source :: body :: filter.toList
  | .label .. | .address .. | .var _ | .breakLoop | .continueLoop | .declare .. | .literal _ => []

/-- The variables whose types and initializers a visit enters. Iterators of a loop are only told. -/
def Node.declared : Node → List VarId
  | .block info _ _ => info.args
  | .declare vars _ => vars
  | _ => []

/-- The same node around children in their places that are related to the old ones. -/
inductive Node.Rewritten (R : Expr → Expr → Prop) : Node → Node → Prop
  | label {number comment} : Rewritten R (.label number comment) (.label number comment)
  | goto {number target target'} (h : Option.Rel R target target') :
    Rewritten R (.goto number target) (.goto number target')
  | convert {mode value value'} (h : R value value') :
    Rewritten R (.convert mode value) (.convert mode value')
  | address {target function type} :
    Rewritten R (.address target function type) (.address target function type)
  | nullCoalescing {value value' default default'} (h : R value value')
      (hd : R default default') :
    Rewritten R (.nullCoalescing value default) (.nullCoalescing value' default')
  | looksLikeCall {name kind args args'} (h : List.Forall₂ R args args') :
    Rewritten R (.looksLikeCall name kind args) (.looksLikeCall name kind args')
  | call {name args args' function} (h : List.Forall₂ R args args') :
    Rewritten R (.call name args function) (.call name args' function)
  | namedCall {name args args'} (h : List.Forall₂ (FieldInit.Rewritten R) args args') :
    Rewritten R (.namedCall name args) (.namedCall name args')
  | makeGenerator {type args args'} (h : List.Forall₂ R args args') :
    Rewritten R (.makeGenerator type args) (.makeGenerator type args')
  | new {type args args' hasInitializer} (h : List.Forall₂ R args args') :
    Rewritten R (.new type args hasInitializer) (.new type args' hasInitializer)
  | yield {value value' moves} (h : R value value') :
    Rewritten R (.yield value moves) (.yield value' moves)
  | makeBlock {block block' isLambda isLocalFunction} (h : R block block') :
    Rewritten R (.makeBlock block isLambda isLocalFunction)
      (.makeBlock block' isLambda isLocalFunction)
  | isType {value value' type} (h : R value value') :
    Rewritten R (.isType value type) (.isType value' type)
  | typeInfo {query value value' type} (h : Option.Rel R value value') :
    Rewritten R (.typeInfo query value type) (.typeInfo query value' type)
  | delete {value value' native} (h : R value value') :
    Rewritten R (.delete value native) (.delete value' native)
  | cast {value value' type upcast reinterpret} (h : R value value') :
    Rewritten R (.cast value type upcast reinterpret) (.cast value' type upcast reinterpret)
  | ascend {value value' onStack needsTypeInfo} (h : R value value') :
    Rewritten R (.ascend value onStack needsTypeInfo) (.ascend value' onStack needsTypeInfo)
  | index {safe value value' index index'} (h : R value value') (hi : R index index') :
    Rewritten R (.index safe value index) (.index safe value' index')
  | block {info list list' finalList finalList'} (h : List.Forall₂ R list list')
      (hf : List.Forall₂ R (visitedFinally info finalList) (visitedFinally info finalList'))
      (hd : info.finallyDisabled = true → finalList' = finalList) :
    Rewritten R (.block info list finalList) (.block info list' finalList')
  | swizzle {mask value value' fields} (h : R value value') :
    Rewritten R (.swizzle mask value fields) (.swizzle mask value' fields)
  | field {access name value value' field? element? derefsFreely} (h : R value value') :
    Rewritten R (.field access name value field? element? derefsFreely)
      (.field access name value' field? element? derefsFreely)
  | stringBuilder {elements elements'} (h : List.Forall₂ R elements elements') :
    Rewritten R (.stringBuilder elements) (.stringBuilder elements')
  | var {ref} : Rewritten R (.var ref) (.var ref)
  | op1 {op value value' function} (h : R value value') :
    Rewritten R (.op1 op value function) (.op1 op value' function)
  | op2 {op left left' right right' function} (hl : R left left') (hr : R right right') :
    Rewritten R (.op2 op left right function) (.op2 op left' right' function)
  | op3 {op value value' left left' right right' function} (h : R value value')
      (hl : R left left') (hr : R right right') :
    Rewritten R (.op3 op value left right function) (.op3 op value' left' right' function)
  | assign {mode left left' right right' function} (hl : R left left') (hr : R right right') :
    Rewritten R (.assign mode left right function) (.assign mode left' right' function)
  | sequence {left left' right right'} (hl : R left left') (hr : R right right') :
    Rewritten R (.sequence left right) (.sequence left' right')
  | tryCatch {body body' handler handler'} (hb : R body body') (hh : R handler handler') :
    Rewritten R (.tryCatch body handler) (.tryCatch body' handler')
  | ret {value value' moves fromYield} (h : Option.Rel R value value') :
    Rewritten R (.ret value moves fromYield) (.ret value' moves fromYield)
  | breakLoop : Rewritten R .breakLoop .breakLoop
  | continueLoop : Rewritten R .continueLoop .continueLoop
  | ifThenElse {cond cond' ifTrue ifTrue' ifFalse ifFalse' isStatic} (hc : R cond cond')
      (ht : R ifTrue ifTrue') (hf : Option.Rel R ifFalse ifFalse') :
    Rewritten R (.ifThenElse cond ifTrue ifFalse isStatic)
      (.ifThenElse cond' ifTrue' ifFalse' isStatic)
  | within {value value' body body'} (h : R value value') (hb : R body body') :
    Rewritten R (.within value body) (.within value' body')
  | whileLoop {cond cond' body body'} (hc : R cond cond') (hb : R body body') :
    Rewritten R (.whileLoop cond body) (.whileLoop cond' body')
  | forEach {names vars sources sources' body body'} (hs : List.Forall₂ R sources sources')
      (hb : Option.Rel R body body') :
    Rewritten R (.forEach names vars sources body) (.forEach names vars sources' body')
  | declare {vars inScope} : Rewritten R (.declare vars inScope) (.declare vars inScope)
  | makeStruct {type rows rows' useInitializer}
      (h : List.Forall₂ (List.Forall₂ (FieldInit.Rewritten R)) rows rows') :
    Rewritten R (.makeStruct type rows useInitializer) (.makeStruct type rows' useInitializer)
  | makeVariant {type fields fields'} (h : List.Forall₂ (FieldInit.Rewritten R) fields fields') :
    Rewritten R (.makeVariant type fields) (.makeVariant type fields')
  | makeArray {type values values'} (h : List.Forall₂ R values values') :
    Rewritten R (.makeArray type values) (.makeArray type values')
  | makeTuple {type values values' isKeyValue} (h : List.Forall₂ R values values') :
    Rewritten R (.makeTuple type values isKeyValue) (.makeTuple type values' isKeyValue)
  | comprehension {source source' body body' filter filter' isGenerator} (hs : R source source')
      (hb : R body body') (hf : Option.Rel R filter filter') :
    Rewritten R (.comprehension source body filter isGenerator)
      (.comprehension source' body' filter' isGenerator)
  | literal {value} : Rewritten R (.literal value) (.literal value)

section Lists

variable {α β : Type} {R : α → β → Prop}

theorem forall₂_of_append {as : List α} {bs : List β} {as' : List α} {bs' : List β}
    (hl : as.length = bs.length) (h : List.Forall₂ R (as ++ as') (bs ++ bs')) :
    List.Forall₂ R as bs ∧ List.Forall₂ R as' bs' := by
  induction as generalizing bs with
  | nil =>
    obtain rfl : bs = [] := List.length_eq_zero_iff.1 hl.symm
    exact ⟨.nil, h⟩
  | cons a as ih =>
    obtain ⟨b, bs, rfl⟩ : ∃ b bs₀, bs = b :: bs₀ := List.exists_cons_of_length_eq_add_one hl.symm
    obtain ⟨hab, h⟩ := List.forall₂_cons.1 h
    obtain ⟨hs, hs'⟩ := ih (Nat.succ.inj hl) h
    exact ⟨.cons hab hs, hs'⟩

theorem exists_of_forall₂ {as : List α} {bs : List β} (h : List.Forall₂ R as bs) {a : α}
    (ha : a ∈ as) : ∃ b ∈ bs, R a b := by
  induction h with
  | nil => cases ha
  | @cons a' b _ _ hab _ ih =>
    rcases List.mem_cons.1 ha with rfl | ha
    · exact ⟨b, .head _, hab⟩
    · obtain ⟨b, hb, hab⟩ := ih ha
      exact ⟨b, .tail _ hb, hab⟩

/-- A list that is related to one split at an element splits alike. -/
theorem split_of_forall₂ {front back : List α} {a : α} {bs : List β}
    (h : List.Forall₂ R (front ++ a :: back) bs) :
    ∃ front' b back', bs = front' ++ b :: back' ∧ List.Forall₂ R front front' ∧ R a b := by
  induction front generalizing bs with
  | nil =>
    cases h with
    | @cons _ b _ bs hab h => exact ⟨[], b, bs, rfl, .nil, hab⟩
  | cons x front ih =>
    cases h with
    | @cons _ y _ bs hxy h =>
      obtain ⟨front', b, back', rfl, hfront, hab⟩ := ih h
      exact ⟨y :: front', b, back', rfl, .cons hxy hfront, hab⟩

theorem eq_of_forall₂ {S : α → α → Prop} (hS : ∀ a b, S a b → b = a) {as bs : List α}
    (h : List.Forall₂ S as bs) : bs = as := by
  induction h with
  | nil => rfl
  | cons h _ ih => rw [hS _ _ h, ih]

theorem eq_of_rel {S : α → α → Prop} (hS : ∀ a b, S a b → b = a) {a b : Option α}
    (h : Option.Rel S a b) : b = a := by
  cases h with
  | none => rfl
  | some h => rw [hS _ _ h]

theorem filterMap_cons_toList (f : α → Option β) (a : α) (as : List α) :
    (a :: as).filterMap f = (f a).toList ++ as.filterMap f := by
  cases h : f a <;> simp [h]

theorem forall₂_toList {a : Option α} {b : Option β} (h : Option.Rel R a b) :
    List.Forall₂ R a.toList b.toList := by
  cases h with
  | none => exact .nil
  | some h => exact .cons h .nil

/-- Two optional values that are both there or both absent are related if their lists are. -/
theorem rel_of_toList {S : α → β → Prop} {a : Option α} {b : Option β} (h : Option.Rel S a b)
    (hv : List.Forall₂ R a.toList b.toList) : Option.Rel R a b := by
  cases h with
  | none => exact .none
  | some _ => exact .some (List.forall₂_cons.1 hv).1

end Lists

namespace FieldInit.Rewritten

variable {R S : Expr → Expr → Prop}

theorem value {f f' : FieldInit} (h : f.Rewritten R f') : R f.value f'.value := by
  cases h with
  | mk h => exact h

theorem eq {f f' : FieldInit} (h : f.Rewritten Eq f') : f' = f := by
  cases h with
  | mk h => rw [h]

theorem values {fs fs' : List FieldInit} (h : List.Forall₂ (FieldInit.Rewritten R) fs fs') :
    List.Forall₂ R (fs.map (·.value)) (fs'.map (·.value)) := by
  rw [List.forall₂_map_left_iff, List.forall₂_map_right_iff]
  exact h.imp fun _ _ => value

theorem rowValues {rows rows' : List (List FieldInit)}
    (h : List.Forall₂ (List.Forall₂ (FieldInit.Rewritten R)) rows rows') :
    List.Forall₂ R (rows.flatMap fun fs => fs.map (·.value))
      (rows'.flatMap fun fs => fs.map (·.value)) := by
  induction h with
  | nil => exact .nil
  | cons h _ ih =>
    rw [List.flatMap_cons, List.flatMap_cons]
    exact List.rel_append (values h) ih

/-- Named values of one shape are related if their trees are. -/
theorem of_values {fs fs' : List FieldInit} (h : List.Forall₂ (FieldInit.Rewritten S) fs fs')
    (hv : List.Forall₂ R (fs.map (·.value)) (fs'.map (·.value))) :
    List.Forall₂ (FieldInit.Rewritten R) fs fs' := by
  induction h with
  | nil => exact .nil
  | cons h _ ih =>
    cases h with
    | mk h =>
      obtain ⟨hv, hvs⟩ := List.forall₂_cons.1 hv
      exact .cons (.mk hv) (ih hvs)

theorem of_rowValues {rows rows' : List (List FieldInit)}
    (h : List.Forall₂ (List.Forall₂ (FieldInit.Rewritten S)) rows rows')
    (hv : List.Forall₂ R (rows.flatMap fun fs => fs.map (·.value))
      (rows'.flatMap fun fs => fs.map (·.value))) :
    List.Forall₂ (List.Forall₂ (FieldInit.Rewritten R)) rows rows' := by
  induction h with
  | nil => exact .nil
  | cons h _ ih =>
    rw [List.flatMap_cons, List.flatMap_cons] at hv
    obtain ⟨hr, hv⟩ := forall₂_of_append (by simpa using h.length_eq) hv
    exact .cons (of_values h hr) (ih hv)

end FieldInit.Rewritten

namespace Node.Rewritten

variable {R S : Expr → Expr → Prop} {n n' : Node}

/-- The visited children are related in order. -/
theorem visited (h : n.Rewritten R n') : List.Forall₂ R n.visited n'.visited := by
  cases h with
  | goto h | typeInfo h | ret h => exact forall₂_toList h
  | convert h | yield h | makeBlock h | isType h | delete h | cast h | ascend h | swizzle h
  | field h | op1 h => exact .cons h .nil
  | nullCoalescing h₁ h₂ | index h₁ h₂ | op2 h₁ h₂ | assign h₁ h₂ | sequence h₁ h₂
  | tryCatch h₁ h₂ | within h₁ h₂ | whileLoop h₁ h₂ => exact .cons h₁ (.cons h₂ .nil)
  | looksLikeCall h | call h | makeGenerator h | new h | stringBuilder h | makeArray h
  | makeTuple h => exact h
  | namedCall h | makeVariant h => exact FieldInit.Rewritten.values h
  | makeStruct h => exact FieldInit.Rewritten.rowValues h
  | op3 h₁ h₂ h₃ => exact .cons h₁ (.cons h₂ (.cons h₃ .nil))
  | ifThenElse h₁ h₂ h₃ | comprehension h₁ h₂ h₃ =>
    exact .cons h₁ (.cons h₂ (forall₂_toList h₃))
  | forEach h₁ h₂ => exact List.rel_append h₁ (forall₂_toList h₂)
  | block h hf _ =>
    simp only [Node.visited]
    split
    · exact List.rel_append hf h
    · exact List.rel_append h hf
  | label | address | var | breakLoop | continueLoop | declare | literal => exact .nil

/-- Nodes of one shape are related by any relation that relates their visited children. -/
theorem of_visited (h : n.Rewritten S n') (hv : List.Forall₂ R n.visited n'.visited) :
    n.Rewritten R n' := by
  cases h with
  | goto h => exact .goto (rel_of_toList h hv)
  | typeInfo h => exact .typeInfo (rel_of_toList h hv)
  | ret h => exact .ret (rel_of_toList h hv)
  | convert | yield | makeBlock | isType | delete | cast | ascend | swizzle | field | op1
  | nullCoalescing | index | op2 | assign | sequence | tryCatch | within | whileLoop
  | op3 =>
    simp only [Node.visited, List.forall₂_cons] at hv
    constructor <;> simp only [hv]
  | looksLikeCall => exact .looksLikeCall hv
  | call => exact .call hv
  | makeGenerator => exact .makeGenerator hv
  | new => exact .new hv
  | stringBuilder => exact .stringBuilder hv
  | makeArray => exact .makeArray hv
  | makeTuple => exact .makeTuple hv
  | namedCall h => exact .namedCall (FieldInit.Rewritten.of_values h hv)
  | makeVariant h => exact .makeVariant (FieldInit.Rewritten.of_values h hv)
  | makeStruct h => exact .makeStruct (FieldInit.Rewritten.of_rowValues h hv)
  | ifThenElse _ _ h =>
    simp only [Node.visited, List.forall₂_cons] at hv
    exact .ifThenElse hv.1 hv.2.1 (rel_of_toList h hv.2.2)
  | comprehension _ _ h =>
    simp only [Node.visited, List.forall₂_cons] at hv
    exact .comprehension hv.1 hv.2.1 (rel_of_toList h hv.2.2)
  | forEach h₁ h₂ =>
    obtain ⟨hs, hb⟩ := forall₂_of_append h₁.length_eq hv
    exact .forEach hs (rel_of_toList h₂ hb)
  | block h hf hd =>
    simp only [Node.visited] at hv
    split at hv
    · obtain ⟨hf, h⟩ := forall₂_of_append hf.length_eq hv
      exact .block h hf hd
    · obtain ⟨h, hf⟩ := forall₂_of_append h.length_eq hv
      exact .block h hf hd
  | label => exact .label
  | address => exact .address
  | var => exact .var
  | breakLoop => exact .breakLoop
  | continueLoop => exact .continueLoop
  | declare => exact .declare
  | literal => exact .literal

theorem mono (hRS : ∀ e e', R e e' → S e e') (h : n.Rewritten R n') : n.Rewritten S n' :=
  h.of_visited (h.visited.imp hRS)

theorem eq (h : n.Rewritten Eq n') : n' = n := by
  cases h with
  | goto h | typeInfo h | ret h => rw [eq_of_rel (fun _ _ => Eq.symm) h]
  | looksLikeCall h | call h | makeGenerator h | new h | stringBuilder h | makeArray h
  | makeTuple h => rw [eq_of_forall₂ (fun _ _ => Eq.symm) h]
  | namedCall h | makeVariant h => rw [eq_of_forall₂ (fun _ _ => FieldInit.Rewritten.eq) h]
  | makeStruct h =>
    rw [eq_of_forall₂ (fun _ _ => eq_of_forall₂ fun _ _ => FieldInit.Rewritten.eq) h]
  | ifThenElse h₁ h₂ h₃ | comprehension h₁ h₂ h₃ =>
    rw [h₁, h₂, eq_of_rel (fun _ _ => Eq.symm) h₃]
  | forEach h₁ h₂ =>
    rw [eq_of_forall₂ (fun _ _ => Eq.symm) h₁, eq_of_rel (fun _ _ => Eq.symm) h₂]
  | @block info _ _ _ _ h hf hd =>
    rw [eq_of_forall₂ (fun _ _ => Eq.symm) h]
    by_cases off : info.finallyDisabled = true
    · rw [hd off]
    · simp only [visitedFinally, if_neg off] at hf
      rw [eq_of_forall₂ (fun _ _ => Eq.symm) hf]
  | _ => simp_all

/-- A tree stays what it is if its visited children stay. -/
theorem expr_eq {e : Expr} (h : e.node.Rewritten R n') (same : n'.visited = e.node.visited) :
    { e with node := n' } = e := by
  have node : n' = e.node := by
    refine (h.of_visited (R := Eq) ?_).eq
    rw [same, List.forall₂_eq_eq_eq]
  cases e
  cases node
  rfl

theorem declared_eq (h : n.Rewritten R n') : n'.declared = n.declared := by
  cases h <;> rfl

theorem link?_eq (h : n.Rewritten R n') : n'.link? = n.link? := by
  cases h <;> rfl

end Node.Rewritten

end Frontend
