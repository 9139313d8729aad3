import Frontend.Proofs.Traversal.Lists
import Frontend.Traversal.Program

/-!
# Lists below nodes

A tree in a list is visited between the two hooks of its place, of which the second one only runs
for what the visit of the tree has left. Named values and declared variables have hooks of their
own. Whatever the hooks answer, a list is left with what they leave of its elements, and the visit
of a node that holds lists consists of such visits.
-/

namespace Frontend

def Node.holdsLists : Node → Bool
  | .looksLikeCall .. | .call .. | .namedCall .. | .makeGenerator .. | .new .. | .block ..
  | .stringBuilder .. | .forEach .. | .declare .. | .makeStruct .. | .makeVariant ..
  | .makeArray .. | .makeTuple .. => true
  | _ => false

namespace Visitor

variable {σ : Type} (v : Visitor σ) (child : Child σ)

section Elements

/-- The visit of a tree in a place: the first hook of the place, the visit of the tree itself, and
the second hook for what that leaves. -/
inductive TreeVisit (slot : Slot) (e : Expr) (st : Visit σ) : Option Expr → Visit σ → Prop
  | removed {r e' st₁ st₂} (enter : (v.enterSlot slot e).run st = .ok ((), st₁))
    (own : (child e).run st₁ = .ok ((r, e'), st₂)) (gone : r.apply e' = none) :
    TreeVisit slot e st none st₂
  | left {r r' e' e'' st₁ st₂ st₃} (enter : (v.enterSlot slot e).run st = .ok ((), st₁))
    (own : (child e).run st₁ = .ok ((r, e'), st₂)) (stays : r.apply e' = some e'')
    (leave : (v.leaveSlot slot e'').run st₂ = .ok (r', st₃)) :
    TreeVisit slot e st (r'.apply e'') st₃

inductive FieldVisit (slot : FieldSlot) (f : FieldInit) (st : Visit σ) :
    Option FieldInit → Visit σ → Prop
  | mk {r r' e' e'' st₁ st₂ st₃} (enter : (v.enterField slot f).run st = .ok ((), st₁))
    (own : (child f.value).run st₁ = .ok ((r, e'), st₂)) (stays : r.apply e' = some e'')
    (leave : (v.leaveField slot { f with value := e'' }).run st₂ = .ok (r', st₃)) :
    FieldVisit slot f st (r'.apply { f with value := e'' }) st₃

/-- The visit of a declared variable, which is not entered if it is an iterator. -/
inductive VariableVisit (place : VariablePlace) (last : Bool) (id : VarId) (st : Visit σ) :
    Option VarId → Visit σ → Prop
  | entered {r st₁ st₂ st₃} (enter : (v.enterVariable place id last).run st = .ok ((), st₁))
    (apart : place ≠ .loop) (own : (v.visitVariable child place id).run st₁ = .ok ((), st₂))
    (leave : (v.leaveVariable place id last).run st₂ = .ok (r, st₃)) :
    VariableVisit place last id st (r.apply id) st₃
  | iterator {r st₁ st₂} (enter : (v.enterVariable place id last).run st = .ok ((), st₁))
    (loop : place = .loop) (leave : (v.leaveVariable place id last).run st₁ = .ok (r, st₂)) :
    VariableVisit place last id st (r.apply id) st₂

variable {v child} {st st' : Visit σ}

theorem inSlot_run_iff {slot : Slot} {e : Expr} {o : Option Expr} :
    (v.inSlot child slot e).run st = .ok (o, st') ↔ v.TreeVisit child slot e st o st' := by
  simp only [inSlot, run_bind_eq_ok_iff]
  constructor
  · rintro ⟨_, st₁, enter, ⟨r, e'⟩, st₂, own, rest⟩
    cases stays : r.apply e' with
    | none =>
      simp only [stays] at rest
      cases rest
      exact .removed enter own stays
    | some e'' =>
      simp only [stays, run_bind_eq_ok_iff] at rest
      obtain ⟨r', st₃, leave, last⟩ := rest
      cases last
      exact .left enter own stays leave
  · intro h
    cases h with
    | removed enter own gone =>
      refine ⟨_, _, enter, _, _, own, ?_⟩
      simp only [gone]
      rfl
    | left enter own stays leave =>
      refine ⟨_, _, enter, _, _, own, ?_⟩
      simp only [stays, run_bind_eq_ok_iff]
      exact ⟨_, _, leave, rfl⟩

theorem required_run_iff {e e' : Expr} : (required child e).run st = .ok (e', st') ↔
    ∃ r e₁, (child e).run st = .ok ((r, e₁), st') ∧ r.apply e₁ = some e' := by
  simp only [required, run_bind_eq_ok_iff]
  constructor
  · rintro ⟨⟨r, e₁⟩, st₁, own, rest⟩
    cases stays : r.apply e₁ with
    | none =>
      simp only [stays] at rest
      cases rest
    | some e'' =>
      simp only [stays] at rest
      cases rest
      exact ⟨r, e₁, own, stays⟩
  · rintro ⟨r, e₁, own, stays⟩
    refine ⟨_, _, own, ?_⟩
    simp only [stays]
    rfl

theorem declared_run_iff {place : VariablePlace} {last : Bool} {id : VarId} {o : Option VarId} :
    (v.declared child place last id).run st = .ok (o, st') ↔
      v.VariableVisit child place last id st o st' := by
  by_cases loop : place = .loop
  · simp only [declared, loop, ne_eq, not_true_eq_false, if_false, run_bind_eq_ok_iff]
    constructor
    · rintro ⟨_, st₁, enter, r, st₂, leave, last⟩
      cases last
      exact .iterator enter rfl leave
    · intro h
      cases h with
      | entered _ apart => exact absurd rfl apart
      | iterator enter _ leave => exact ⟨_, _, enter, _, _, leave, rfl⟩
  · simp only [declared, loop, ne_eq, not_false_eq_true, if_true, run_bind_eq_ok_iff]
    constructor
    · rintro ⟨_, st₁, enter, _, st₂, own, r, st₃, leave, last⟩
      cases last
      exact .entered enter loop own leave
    · intro h
      cases h with
      | entered enter _ own leave => exact ⟨_, _, enter, _, _, own, _, _, leave, rfl⟩
      | iterator _ same => exact absurd same loop

end Elements

section Lists

variable {v child} {st st' : Visit σ}

theorem inSlots_exact (slot : Nat → Bool → Slot) :
    VisitsExactly (v.inSlots child slot) fun k last => v.TreeVisit child (slot k last) :=
  .of_visitEach fun _ _ _ _ _ _ => inSlot_run_iff

theorem fields_exact (slot : Nat → Bool → FieldSlot) :
    VisitsExactly (v.fields child slot) fun k last => v.FieldVisit child (slot k last) := by
  apply VisitsExactly.of_visitEach
  intro k last f st o st'
  simp only [run_bind_eq_ok_iff, required_run_iff]
  constructor
  · rintro ⟨_, st₁, enter, e'', st₂, ⟨r, e', own, stays⟩, r', st₃, leave, last⟩
    cases last
    exact .mk enter own stays leave
  · intro h
    cases h with
    | mk enter own stays leave => exact ⟨_, _, enter, _, _, ⟨_, _, own, stays⟩, _, _, leave, rfl⟩

theorem removableVariables_exact (place : VariablePlace) :
    VisitsExactly (v.removableVariables child place) fun _ last =>
      v.VariableVisit child place last :=
  .of_visitEach fun _ _ _ _ _ _ => declared_run_iff

/-- Variables that must stay: no visit takes them out of their list. -/
theorem fixedVariables_exact (place : VariablePlace) :
    VisitsExactly (v.fixedVariables child place) fun _ last id st o st' =>
      v.VariableVisit child place last id st o st' ∧ o.isSome = true := by
  apply VisitsExactly.of_visitEach
  intro k last id st o st'
  simp only [run_bind_eq_ok_iff, declared_run_iff]
  constructor
  · rintro ⟨kept, st₁, visit, rest⟩
    cases kept with
    | none => cases rest
    | some id' =>
      cases rest
      exact ⟨visit, rfl⟩
  · rintro ⟨visit, some⟩
    obtain ⟨id', rfl⟩ := Option.isSome_iff_exists.1 some
    exact ⟨_, _, visit, rfl⟩

theorem inSlots_run_iff {slot : Nat → Bool → Slot} {es es' : List Expr} :
    (v.inSlots child slot es).run st = .ok (es', st') ↔
      VisitsInOrder (fun k last => v.TreeVisit child (slot k last)) es st es' st' :=
  (inSlots_exact slot).ends_iff es st es' st'

theorem fields_run_iff {slot : Nat → Bool → FieldSlot} {fs fs' : List FieldInit} :
    (v.fields child slot fs).run st = .ok (fs', st') ↔
      VisitsInOrder (fun k last => v.FieldVisit child (slot k last)) fs st fs' st' :=
  (fields_exact slot).ends_iff fs st fs' st'

theorem removableVariables_run_iff {place : VariablePlace} {ids ids' : List VarId} :
    (v.removableVariables child place ids).run st = .ok (ids', st') ↔
      VisitsInOrder (fun _ last => v.VariableVisit child place last) ids st ids' st' :=
  (removableVariables_exact place).ends_iff ids st ids' st'

theorem fixedVariables_run_iff {place : VariablePlace} {ids ids' : List VarId} :
    (v.fixedVariables child place ids).run st = .ok (ids', st') ↔
      VisitsInOrder (fun _ last id st o st' =>
        v.VariableVisit child place last id st o st' ∧ o.isSome = true) ids st ids' st' :=
  (fixedVariables_exact place).ends_iff ids st ids' st'

/-- The sources of a loop must stay, too. -/
theorem loopSources_run_iff {es es' : List Expr} :
    (visitEach (fun _ last e => v.loopSource child last e) 0 es).run st = .ok (es', st') ↔
      VisitsInOrder (fun _ last e st o st' =>
        v.TreeVisit child (.loopSource last) e st o st' ∧ o.isSome = true) es st es' st' := by
  refine (VisitsExactly.of_visitEach fun k last e st o st' => ?_).ends_iff es st es' st'
  simp only [loopSource, run_bind_eq_ok_iff, required_run_iff]
  constructor
  · rintro ⟨_, st₁, enter, e'', st₂, ⟨r, e', own, stays⟩, r', st₃, leave, rest⟩
    cases kept : r'.apply e'' with
    | none =>
      simp only [kept] at rest
      cases rest
    | some e₃ =>
      simp only [kept] at rest
      cases rest
      exact ⟨kept ▸ .left enter own stays leave, rfl⟩
  · rintro ⟨visit, some⟩
    cases visit with
    | removed => cases some
    | left enter own stays leave =>
      refine ⟨_, _, enter, _, _, ⟨_, _, own, stays⟩, _, _, leave, ?_⟩
      obtain ⟨e₃, kept⟩ := Option.isSome_iff_exists.1 some
      simp only [kept]
      rfl

end Lists

section Nodes

inductive RowVisit (i : Nat) (last : Bool) (fs : List FieldInit) (st : Visit σ) :
    Option (List FieldInit) → Visit σ → Prop
  | mk {fs' st₁ st₂ st₃} (begins : (v.notice (.rowBegin i last)).run st = .ok ((), st₁))
    (fields : VisitsInOrder (fun _ last => v.FieldVisit child (.structField i last)) fs st₁ fs' st₂)
    (ends : (v.notice (.rowEnd i last)).run st₂ = .ok ((), st₃)) :
    RowVisit i last fs st (some fs') st₃

inductive FinallyVisit (disabled : Bool) (es : List Expr) (st : Visit σ) :
    List Expr → Visit σ → Prop
  | skipped (idle : es = [] ∨ disabled = true) : FinallyVisit disabled es st es st
  | visited {es' st₁ st₂ st₃} (some : es ≠ []) (enabled : disabled = false)
    (begins : (v.notice .finallyBegin).run st = .ok ((), st₁))
    (list : VisitsInOrder (fun _ _ => v.TreeVisit child .finalStatement) es st₁ es' st₂)
    (ends : (v.notice .finallyEnd).run st₂ = .ok ((), st₃)) : FinallyVisit disabled es st es' st₃

inductive WalksLists (st : Visit σ) : Node → Node → Visit σ → Prop
  | looksLikeCall {name kind es es' st'}
    (args : VisitsInOrder (fun _ last => v.TreeVisit child (.looksLikeCallArg name last))
      es st es' st') :
    WalksLists st (.looksLikeCall name kind es) (.looksLikeCall name kind es') st'
  | call {name es es' function st'}
    (args : VisitsInOrder (fun _ last => v.TreeVisit child (.callArg name last)) es st es' st') :
    WalksLists st (.call name es function) (.call name es' function) st'
  | namedCall {name fs fs' st'}
    (args : VisitsInOrder (fun _ last => v.FieldVisit child (.namedCallArg name last))
      fs st fs' st') :
    WalksLists st (.namedCall name fs) (.namedCall name fs') st'
  | makeGenerator {t t' es es' st₁ st'} (type : (v.visitTypeOption t).run st = .ok (t', st₁))
    (args : VisitsInOrder (fun _ last => v.TreeVisit child (.looksLikeCallArg "generator" last))
      es st₁ es' st') :
    WalksLists st (.makeGenerator t es) (.makeGenerator t' es') st'
  | new {t t' es es' hasInitializer st₁ st'} (type : (v.visitType t).run st = .ok (t', st₁))
    (args : VisitsInOrder (fun _ last => v.TreeVisit child (.newArg t' last)) es st₁ es' st') :
    WalksLists st (.new t es hasInitializer) (.new t' es' hasInitializer) st'
  | block {info args' es es' fs fs' st₁ st₂ st'} (order : info.finallyBeforeBody = false)
    (args : VisitsInOrder (fun _ last => v.VariableVisit child .blockArg last)
      info.args st args' st₁)
    (body : VisitsInOrder (fun _ _ => v.TreeVisit child .statement) es st₁ es' st₂)
    (final : v.FinallyVisit child info.finallyDisabled fs st₂ fs' st') :
    WalksLists st (.block info es fs) (.block { info with args := args' } es' fs') st'
  | finallyFirst {info args' es es' fs fs' st₁ st₂ st'} (order : info.finallyBeforeBody = true)
    (args : VisitsInOrder (fun _ last => v.VariableVisit child .blockArg last)
      info.args st args' st₁)
    (final : v.FinallyVisit child info.finallyDisabled fs st₁ fs' st₂)
    (body : VisitsInOrder (fun _ _ => v.TreeVisit child .statement) es st₂ es' st') :
    WalksLists st (.block info es fs) (.block { info with args := args' } es' fs') st'
  | stringBuilder {es es' st'}
    (elements : VisitsInOrder (fun _ last => v.TreeVisit child (.stringElement last))
      es st es' st') :
    WalksLists st (.stringBuilder es) (.stringBuilder es') st'
  | forEach {names ids ids' es es' body body' st₁ st₂ st₃ st'}
    (vars : VisitsInOrder (fun _ last id st o st' =>
      v.VariableVisit child .loop last id st o st' ∧ o.isSome = true) ids st ids' st₁)
    (sources : VisitsInOrder (fun _ last e st o st' =>
      v.TreeVisit child (.loopSource last) e st o st' ∧ o.isSome = true) es st₁ es' st₂)
    (stack : (v.notice (.loopStack names)).run st₂ = .ok ((), st₃))
    (inside : (body.mapM (v.requiredIn child .loopBody)).run st₃ = .ok (body', st')) :
    WalksLists st (.forEach names ids es body) (.forEach names ids' es' body') st'
  | declare {ids ids' inScope st'}
    (vars : VisitsInOrder (fun _ last => v.VariableVisit child .local last) ids st ids' st') :
    WalksLists st (.declare ids inScope) (.declare ids' inScope) st'
  | makeStruct {t t' rows rows' useInitializer st₁ st'}
    (type : (v.visitType t).run st = .ok (t', st₁))
    (values : VisitsInOrder (fun i last => v.RowVisit child i last) rows st₁ rows' st') :
    WalksLists st (.makeStruct t rows useInitializer) (.makeStruct t' rows' useInitializer) st'
  | makeVariant {t t' fs fs' st₁ st'} (type : (v.visitType t).run st = .ok (t', st₁))
    (fields : VisitsInOrder (fun k last => v.FieldVisit child (.variantField k last))
      fs st₁ fs' st') :
    WalksLists st (.makeVariant t fs) (.makeVariant t' fs') st'
  | makeArray {t t' es es' st₁ st'} (type : (v.visitType t).run st = .ok (t', st₁))
    (values : VisitsInOrder (fun k last => v.TreeVisit child (.arrayValue k last)) es st₁ es' st') :
    WalksLists st (.makeArray t es) (.makeArray t' es') st'
  | makeTuple {t t' es es' isKeyValue st₁ st'} (type : (v.visitTypeOption t).run st = .ok (t', st₁))
    (values : VisitsInOrder (fun k last => v.TreeVisit child (.tupleValue k last)) es st₁ es' st') :
    WalksLists st (.makeTuple t es isKeyValue) (.makeTuple t' es' isKeyValue) st'

inductive WalksFunction (id : FunctionId) (st : Visit σ) : Rewrite FunctionId → Visit σ → Prop
  | mk {f args' r st₁ st₂ st'} (function : (st.store.function? id).getD default = f)
    (begins : (v.notice (.functionBegin f.name)).run st = .ok ((), st₁))
    (args : VisitsInOrder (fun _ last id st o st' =>
      v.VariableVisit (v.visitIn (v.steps st₁.store (weightOf f.body))) (.argument f.name) last id
        st o st' ∧ o.isSome = true) f.args st₁ args' st₂)
    (rest : (v.visitFunctionBody f.name id).run
      ⟨st₂.store.modifyFunction id fun f => { f with args := args' }, st₂.user⟩ = .ok (r, st')) :
    WalksFunction id st r st'

variable {v child} {st st' : Visit σ}

theorem rows_run_iff {rows rows' : List (List FieldInit)} :
    (visitEach (v.row child) 0 rows).run st = .ok (rows', st') ↔
      VisitsInOrder (fun i last => v.RowVisit child i last) rows st rows' st' := by
  refine (VisitsExactly.of_visitEach fun i last fs st o st' => ?_).ends_iff rows st rows' st'
  simp only [row, run_bind_eq_ok_iff, fields_run_iff]
  constructor
  · rintro ⟨_, st₁, begins, fs', st₂, fields, _, st₃, ends, rest⟩
    cases rest
    exact .mk begins fields ends
  · intro h
    cases h with
    | mk begins fields ends => exact ⟨_, _, begins, _, _, fields, _, _, ends, rfl⟩

theorem finallySection_run_iff {info : BlockInfo} {es es' : List Expr} :
    (v.finallySection child info es).run st = .ok (es', st') ↔
      v.FinallyVisit child info.finallyDisabled es st es' st' := by
  unfold finallySection
  by_cases idle : es = [] ∨ info.finallyDisabled = true
  · rw [if_pos (by simpa using idle)]
    constructor
    · intro h
      cases h
      exact .skipped idle
    · intro h
      cases h with
      | skipped => rfl
      | visited some enabled =>
        rcases idle with none | disabled
        · exact absurd none some
        · rw [enabled] at disabled
          cases disabled
  · rw [if_neg (by simpa using idle)]
    simp only [run_bind_eq_ok_iff, inSlots_run_iff]
    constructor
    · rintro ⟨_, st₁, begins, fs', st₂, list, _, st₃, ends, rest⟩
      cases rest
      simp only [not_or, Bool.not_eq_true] at idle
      exact .visited idle.1 idle.2 begins list ends
    · intro h
      cases h with
      | skipped some => exact absurd some idle
      | visited _ _ begins list ends => exact ⟨_, _, begins, _, _, list, _, _, ends, rfl⟩

section Blocks

variable {n' : Node} {info : BlockInfo} {es fs : List Expr}

/-- A block whose `finally` section stands behind its statements. -/
theorem walk_block_run_iff (order : info.finallyBeforeBody = false) :
    (v.walk child (.block info es fs)).run st = .ok (n', st') ↔
      v.WalksLists child st (.block info es fs) n' st' := by
  have later : ¬ info.finallyBeforeBody = true := by simp [order]
  simp only [walk, run_bind_eq_ok_iff, removableVariables_run_iff, if_neg later,
    finallySection_run_iff, inSlots_run_iff]
  constructor
  · rintro ⟨args', st₁, args, es', st₂, body, fs', st₃, final, rest⟩
    cases rest
    exact .block order args body final
  · intro h
    cases h with
    | block _ args body final => exact ⟨_, _, args, _, _, body, _, _, final, rfl⟩
    | finallyFirst first => exact absurd first later

/-- A block whose `finally` section stands before its statements. -/
theorem walk_finallyFirst_run_iff (order : info.finallyBeforeBody = true) :
    (v.walk child (.block info es fs)).run st = .ok (n', st') ↔
      v.WalksLists child st (.block info es fs) n' st' := by
  simp only [walk, run_bind_eq_ok_iff, removableVariables_run_iff, if_pos order,
    finallySection_run_iff, inSlots_run_iff]
  constructor
  · rintro ⟨args', st₁, args, fs', st₂, final, es', st₃, body, rest⟩
    cases rest
    exact .finallyFirst order args final body
  · intro h
    cases h with
    | block later => exact absurd order (by simp [later])
    | finallyFirst _ args final body => exact ⟨_, _, args, _, _, final, _, _, body, rfl⟩

end Blocks

theorem walk_forEach_run_iff {n' : Node} {names : List String} {ids : List VarId}
    {es : List Expr} {body : Option Expr} :
    (v.walk child (.forEach names ids es body)).run st = .ok (n', st') ↔
      v.WalksLists child st (.forEach names ids es body) n' st' := by
  simp only [walk, run_bind_eq_ok_iff, fixedVariables_run_iff, loopSources_run_iff]
  cases body with
  | none =>
    constructor
    · rintro ⟨ids', st₁, vars, es', st₂, sources, _, st₃, stack, rest⟩
      cases rest
      exact .forEach vars sources stack rfl
    · intro h
      cases h with
      | forEach vars sources stack inside =>
        cases inside
        exact ⟨_, _, vars, _, _, sources, _, _, stack, rfl⟩
  | some body =>
    simp only [run_bind_eq_ok_iff]
    constructor
    · rintro ⟨ids', st₁, vars, es', st₂, sources, _, st₃, stack, body', st₄, inside, rest⟩
      cases rest
      refine .forEach vars sources stack ?_
      rw [Option.mapM_some, StateT.run_map, inside]
      rfl
    · intro h
      cases h with
      | forEach vars sources stack inside =>
        rw [Option.mapM_some] at inside
        obtain ⟨body', visit, rfl⟩ := exists_of_map inside
        exact ⟨_, _, vars, _, _, sources, _, _, stack, _, _, visit, rfl⟩

/-- The visit of a node that holds lists comes to an end as it is described. -/
theorem walk_run_iff {n n' : Node} (lists : n.holdsLists = true) :
    (v.walk child n).run st = .ok (n', st') ↔ v.WalksLists child st n n' st' := by
  cases n with
  | looksLikeCall | call | stringBuilder | namedCall | declare =>
    simp only [walk, run_bind_eq_ok_iff, inSlots_run_iff, fields_run_iff,
      removableVariables_run_iff]
    constructor
    · rintro ⟨_, st₁, list, rest⟩
      cases rest
      constructor
      exact list
    · intro h
      cases h with | _ list => exact ⟨_, _, list, rfl⟩
  | makeGenerator | new | makeStruct | makeVariant | makeArray | makeTuple =>
    simp only [walk, run_bind_eq_ok_iff, inSlots_run_iff, fields_run_iff, rows_run_iff]
    constructor
    · rintro ⟨t', st₁, type, _, st₂, list, rest⟩
      cases rest
      constructor
      · exact type
      · exact list
    · intro h
      cases h
      rename_i type list
      exact ⟨_, _, type, _, _, list, rfl⟩
  | block info es fs =>
    cases order : info.finallyBeforeBody with
    | false => exact walk_block_run_iff order
    | true => exact walk_finallyFirst_run_iff order
  | forEach names ids es body => exact walk_forEach_run_iff
  | _ => cases lists

theorem visitFunction_run_iff {id : FunctionId} {r : Rewrite FunctionId} :
    (v.visitFunction id).run st = .ok (r, st') ↔ v.WalksFunction id st r st' := by
  simp only [visitFunction, run_bind_eq_ok_iff]
  constructor
  · rintro ⟨s, _, store, _, st₁, begins, child, _, start, args', st₂, args, _, _, put, rest⟩
    cases store
    cases start
    cases put
    exact .mk rfl begins (fixedVariables_run_iff.1 args) rest
  · intro h
    cases h with
    | mk function begins args rest =>
      subst function
      have args := fixedVariables_run_iff.2 args
      exact ⟨_, _, rfl, _, _, begins, _, _, rfl, _, _, args, _, _, rfl, rest⟩

end Nodes

/-- Every list that a visit comes by is visited exactly: each element once, from the first to the
last, with its position in the list as it was and whether it was the last one. The second hook of a
place runs for the elements that their own visit has left, and the new list consists of what is left
of the elements, as it was replaced at last, in the order of the old one. This holds of the trees in
a list, of named values and of declared variables, whatever the hooks answer. The visit of a node
takes its lists one after the other, and the visit of a function begins with its arguments. -/
theorem lists_visited_exactly (v : Visitor σ) (child : Child σ) :
    (∀ slot, VisitsExactly (v.inSlots child slot) fun k last =>
      v.TreeVisit child (slot k last)) ∧
    (∀ slot, VisitsExactly (v.fields child slot) fun k last =>
      v.FieldVisit child (slot k last)) ∧
    (∀ place, VisitsExactly (v.removableVariables child place) fun _ last =>
      v.VariableVisit child place last) ∧
    (∀ place, VisitsExactly (v.fixedVariables child place) fun _ last id st o st' =>
      v.VariableVisit child place last id st o st' ∧ o.isSome = true) ∧
    (∀ n, n.holdsLists = true → ∀ st n' st',
      (v.walk child n).run st = .ok (n', st') ↔ v.WalksLists child st n n' st') ∧
    ∀ id st r st', (v.visitFunction id).run st = .ok (r, st') ↔ v.WalksFunction id st r st' := by
  refine ⟨inSlots_exact, fields_exact, removableVariables_exact, fixedVariables_exact, ?_, ?_⟩
  · intro n lists st n' st'
    exact walk_run_iff lists
  · intro id st r st'
    exact visitFunction_run_iff

/-- A visitor that removes the word `b`, replaces the word `a` that is left in an array, and keeps
the positions in arrays. -/
def rewording : Visitor (List (Nat × Bool)) where
  leave e :=
    match e.node with
    | .literal (.string "b") => return .remove
    | _ => return .keep
  enterSlot slot _ :=
    match slot with
    | .arrayValue position last => VisitM.modifyUser (· ++ [(position, last)])
    | _ => pure ()
  leaveSlot _ e :=
    match e.node with
    | .literal (.string "a") => return .replace { e with node := .literal (.string "d") }
    | _ => return .keep

def wordArray (words : List String) : Node :=
  .makeArray (.ofBase .string) (words.map fun word => .ofNode .builtin (.literal (.string word)))

theorem lists_visited_exactly_wordArray : (wordArray ["a", "b", "c"]).holdsLists = true ∧
    rewording.WalksLists (rewording.visitIn 1) ⟨{}, []⟩ (wordArray ["a", "b", "c"])
      (wordArray ["d", "c"]) ⟨{}, [(0, false), (1, false), (2, true)]⟩ :=
  ⟨rfl, ((lists_visited_exactly rewording (rewording.visitIn 1)).2.2.2.2.1 _ rfl _ _ _).1 (by rfl)⟩

end Visitor

end Frontend
