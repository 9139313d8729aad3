import Mathlib.Data.List.Induction
import Mathlib.Logic.Relation
import Frontend.Proofs.Optimizer.Jumps

/-!
# Paths through statements

A path runs statement by statement. It is a sequence of stacks: the statements that are left to run,
one list inside the other, innermost first. It goes into blocks and branches, leaves them at their
end, and stops where a statement leaves the flow by itself. It begins at the start of a list or at a
label at any depth in it.

No path that begins at the start of a statement that always leaves gets past it. Paths that begin at
a label inside may, and a label may stand in a statement behind one that always leaves. Exactly
where neither happens, no path gets to a statement that is erased.
-/

namespace Frontend

open Relation

/-- The lists of statements inside a statement. A closure is no part of the flow around it. -/
def Node.bodies : Node → List (List Expr)
  | .block info list finalList => if info.isClosure then [] else [list, finalList]
  | .ifThenElse _ ifTrue ifFalse _ => [[ifTrue], ifFalse.toList]
  | .whileLoop _ body | .within _ body => [[body]]
  | .forEach _ _ _ body => [body.toList]
  | .tryCatch body handler => [[body], [handler]]
  | _ => []

namespace Store

/-- What a path may run in the place of a statement that it comes to. -/
def ways (s : Store) : Node → List (List Expr)
  | .ret .. | .breakLoop | .continueLoop => []
  | .call _ _ function => if s.isBuiltinPanic function then [] else [[]]
  | .block info list _ => if info.isClosure then [[]] else [list]
  | .ifThenElse _ ifTrue ifFalse _ => [[ifTrue], ifFalse.toList]
  | .whileLoop _ body => [[body], []]
  | .forEach _ _ _ body => [body.toList, []]
  | .within _ body => [[body]]
  | .tryCatch body handler => [[body], [handler]]
  | _ => [[]]

/-- A path leaves a list at its end, or it goes on into a statement. -/
inductive Step (s : Store) : List (List Expr) → List (List Expr) → Prop
  | close {rest : List (List Expr)} : Step s ([] :: rest) rest
  | run {e : Expr} {es way : List Expr} {rest : List (List Expr)} (h : way ∈ s.ways e.node) :
    Step s ((e :: es) :: rest) (way :: es :: rest)

abbrev Path (s : Store) : List (List Expr) → List (List Expr) → Prop := ReflTransGen s.Step

end Store

/-- A path may begin at a label in the list, at any depth, with these statements left to run. -/
inductive Begins : List Expr → List (List Expr) → Prop
  | here {e : Expr} {es : List Expr} (h : e.isLabel = true) : Begins (e :: es) [e :: es]
  | inside {e : Expr} {es body : List Expr} {rest : List (List Expr)} (hbody : body ∈ e.node.bodies)
    (h : Begins body rest) : Begins (e :: es) (rest ++ [es])
  | later {e : Expr} {es : List Expr} {rest : List (List Expr)} (h : Begins es rest) :
    Begins (e :: es) rest

theorem Begins.of_back {back : List Expr} {stack : List (List Expr)} (front : List Expr)
    (h : Begins back stack) : Begins (front ++ back) stack := by
  induction front with
  | nil => exact h
  | cons e front ih => exact .later ih

def Expr.HoldsLabel (e : Expr) : Prop := ∃ stack, Begins [e] stack

namespace Store

variable {s : Store} {e c : Expr} {es list front mid back : List Expr}
  {stack stack' rest rest' : List (List Expr)}

/-- A path runs from the start of the statements past their end. -/
def Passes (s : Store) (list : List Expr) : Prop := s.Path [list] []

def PassesFromLabel (s : Store) (list : List Expr) : Prop :=
  ∃ stack, Begins list stack ∧ s.Path stack []

/-- A path gets to the statement `c`, or begins inside. -/
def CanReach (s : Store) (front : List Expr) (c : Expr) (back : List Expr) : Prop :=
  c.HoldsLabel ∨ ∃ stack, (stack = [front ++ c :: back] ∨ Begins (front ++ c :: back) stack) ∧
    s.Path stack [c :: back]

/-- The statement `c` behind the others is not among those that stay. -/
def Erases (s : Store) (front : List Expr) (c : Expr) : Prop :=
  Expr.reachable s.alwaysLeaves false (front ++ [c]) = Expr.reachable s.alwaysLeaves false front

section Stacks

theorem Step.append (h : s.Step stack stack') (rest : List (List Expr)) :
    s.Step (stack ++ rest) (stack' ++ rest) := by
  cases h with
  | close => exact .close
  | run h => exact .run h

theorem Path.append (h : s.Path stack stack') (rest : List (List Expr)) :
    s.Path (stack ++ rest) (stack' ++ rest) :=
  h.lift (· ++ rest) fun _ _ hstep => hstep.append rest

/-- A path that has used up the front of its stack has run it past its end. -/
theorem Path.split (stack : List (List Expr)) (h : s.Path (stack ++ rest) rest')
    (hlen : rest'.length ≤ rest.length) : s.Path stack [] ∧ s.Path rest rest' := by
  generalize hall : stack ++ rest = all at h
  induction h using ReflTransGen.head_induction_on generalizing stack with
  | refl =>
    obtain rfl : stack = [] := by
      rw [← List.length_eq_zero_iff]
      have := congrArg List.length hall
      rw [List.length_append] at this
      omega
    rw [List.nil_append] at hall
    exact ⟨.refl, hall ▸ .refl⟩
  | head hstep hpath ih =>
    cases stack with
    | nil =>
      rw [List.nil_append] at hall
      rw [hall]
      exact ⟨.refl, .head hstep hpath⟩
    | cons top stack =>
      cases hstep with
      | close =>
        obtain ⟨rfl, rfl⟩ := List.cons.inj hall
        obtain ⟨hstack, hrest⟩ := ih _ rfl
        exact ⟨.head .close hstack, hrest⟩
      | run hway =>
        obtain ⟨rfl, rfl⟩ := List.cons.inj hall
        obtain ⟨hstack, hrest⟩ := ih (_ :: _ :: stack) rfl
        exact ⟨.head (.run hway) hstack, hrest⟩

/-- A path gets past a statement through one of its ways. -/
theorem passes_singleton : s.Passes [e] ↔ ∃ way ∈ s.ways e.node, s.Passes way := by
  constructor
  · intro h
    obtain h | ⟨_, hstep, hpath⟩ := ReflTransGen.cases_head h
    · cases h
    cases hstep with
    | run hway =>
      exact ⟨_, hway, (Path.split [_] hpath (Nat.zero_le _)).1⟩
  · rintro ⟨way, hway, h⟩
    exact .head (.run hway) ((Path.append h [[]]).trans (.single .close))

theorem passes_cons : s.Passes (e :: es) ↔ s.Passes [e] ∧ s.Passes es := by
  rw [passes_singleton]
  constructor
  · intro h
    obtain h | ⟨_, hstep, hpath⟩ := ReflTransGen.cases_head h
    · cases h
    cases hstep with
    | run hway =>
      obtain ⟨hway', hrest⟩ := Path.split [_] hpath (Nat.zero_le _)
      exact ⟨⟨_, hway, hway'⟩, hrest⟩
  · rintro ⟨⟨way, hway, h⟩, hes⟩
    exact .head (.run hway) ((Path.append h [es]).trans hes)

theorem passes_nil : s.Passes [] := .single .close

theorem passes_append : s.Passes (front ++ back) ↔ s.Passes front ∧ s.Passes back := by
  induction front with
  | nil => exact ⟨fun h => ⟨passes_nil, h⟩, fun h => h.2⟩
  | cons e front ih =>
    rw [List.cons_append, passes_cons, ih, ← and_assoc, ← passes_cons]

/-- Inside a list a path only gets ahead. -/
theorem Path.ahead (h : s.Path [list] [back]) : ∃ mid, list = mid ++ back ∧ s.Passes mid := by
  induction list with
  | nil =>
    obtain h | ⟨_, hstep, hpath⟩ := ReflTransGen.cases_head h
    · cases h
      exact ⟨[], rfl, passes_nil⟩
    · cases hstep
      obtain h | ⟨_, hstep, -⟩ := ReflTransGen.cases_head hpath
      · cases h
      · cases hstep
  | cons e list ih =>
    obtain h | ⟨_, hstep, hpath⟩ := ReflTransGen.cases_head h
    · cases h
      exact ⟨[], rfl, passes_nil⟩
    cases hstep with
    | run hway =>
      obtain ⟨hway', hrest⟩ := Path.split [_] hpath (Nat.le_refl _)
      obtain ⟨mid, rfl, hmid⟩ := ih hrest
      exact ⟨e :: mid, rfl, passes_cons.2 ⟨passes_singleton.2 ⟨_, hway, hway'⟩, hmid⟩⟩

theorem path_of_passes (mid back : List Expr) (h : s.Passes mid) :
    s.Path [mid ++ back] [back] := by
  induction mid with
  | nil => exact .refl
  | cons e mid ih =>
    obtain ⟨he, hmid⟩ := passes_cons.1 h
    obtain ⟨way, hway, hpass⟩ := passes_singleton.1 he
    exact .head (.run hway) ((Path.append hpass [mid ++ back]).trans (ih hmid))

end Stacks

section Labels

theorem passesFromLabel_of_label (h : e.isLabel = true) : s.PassesFromLabel [e] := by
  refine ⟨[[e]], .here h, passes_singleton.2 ⟨[], ?_, passes_nil⟩⟩
  obtain ⟨span, type, flags, node⟩ := e
  cases node with
  | label => exact .head _
  | _ => cases h

theorem PassesFromLabel.holdsLabel (h : s.PassesFromLabel [e]) : e.HoldsLabel := by
  obtain ⟨stack, hbegin, -⟩ := h
  exact ⟨stack, hbegin⟩

/-- A path that begins at a label in a statement may as well begin there when others follow. -/
theorem PassesFromLabel.append (h : s.PassesFromLabel [e]) (back : List Expr) :
    ∃ stack, Begins (e :: back) stack ∧ s.Path stack [back] := by
  obtain ⟨stack, hbegin, hpath⟩ := h
  cases hbegin with
  | here h => exact ⟨_, .here h, path_of_passes [e] back hpath⟩
  | inside hbody h =>
    obtain ⟨hrest, -⟩ := Path.split _ hpath (Nat.zero_le _)
    exact ⟨_, .inside hbody h, hrest.append [back]⟩
  | later h => cases h

/-- A path that begins at a label in a list, and gets to a statement that is none, has passed the
one that the label is in. -/
theorem passed_from_label (h : Begins list stack) (hpath : s.Path stack [c :: back])
    (hc : c.isLabel = false) : ∃ front e mid, list = front ++ e :: (mid ++ c :: back) ∧
      s.PassesFromLabel [e] ∧ s.Passes mid := by
  induction h with
  | @here e es h =>
    obtain ⟨mid, hlist, hmid⟩ := Path.ahead hpath
    cases mid with
    | nil =>
      obtain ⟨rfl, rfl⟩ := List.cons.inj hlist
      rw [hc] at h
      cases h
    | cons e' mid =>
      obtain ⟨rfl, rfl⟩ := List.cons.inj hlist
      exact ⟨[], e, mid, rfl, passesFromLabel_of_label h, (passes_cons.1 hmid).2⟩
  | @inside e es body rest hbody h _ =>
    obtain ⟨hrest, hes⟩ := Path.split rest hpath (Nat.le_refl _)
    obtain ⟨mid, rfl, hmid⟩ := Path.ahead hes
    exact ⟨[], e, mid, rfl, ⟨_, .inside hbody h, (hrest.append [[]]).trans passes_nil⟩, hmid⟩
  | @later e es _ _ ih =>
    obtain ⟨front, e', mid, rfl, he', hmid⟩ := ih hpath
    exact ⟨e :: front, e', mid, rfl, he', hmid⟩

end Labels

section Leaving

theorem isLabel_of_alwaysLeaves (h : s.alwaysLeaves e = true) : e.isLabel = false := by
  obtain ⟨span, type, flags, node⟩ := e
  cases node with
  | label => cases h
  | _ => rfl

mutual

/-- What always leaves is not passed from its start. -/
theorem not_passes_of_alwaysLeaves : (e : Expr) → s.alwaysLeaves e = true → ¬s.Passes [e]
  | ⟨_, _, _, node⟩, h, hpass => by
    obtain ⟨way, hway, hruns⟩ := passes_singleton.1 hpass
    cases node with
    | ret | breakLoop | continueLoop => cases hway
    | call name args function =>
      have hpanic : s.isBuiltinPanic function = true := h
      simp only [ways, hpanic, if_true] at hway
      cases hway
    | block info list finalList =>
      rw [alwaysLeaves, nodeLeaves, Bool.and_eq_true, Bool.not_eq_true'] at h
      simp only [ways, h.1] at hway
      rw [List.mem_singleton.1 hway] at hruns
      exact not_passes_of_anyLeaves list h.2 hruns
    | ifThenElse cond ifTrue ifFalse isStatic =>
      cases ifFalse with
      | none => cases h
      | some ifFalse =>
        rw [alwaysLeaves, nodeLeaves, Bool.and_eq_true] at h
        rcases List.mem_pair.1 hway with rfl | rfl
        · exact not_passes_of_alwaysLeaves ifTrue h.1 hruns
        · exact not_passes_of_alwaysLeaves ifFalse h.2 hruns
    | _ => cases h

theorem not_passes_of_anyLeaves : (list : List Expr) → s.anyLeaves list = true → ¬s.Passes list
  | [], h, _ => by cases h
  | e :: es, h, hpass => by
    obtain ⟨he, hes⟩ := passes_cons.1 hpass
    rw [anyLeaves, Bool.or_eq_true] at h
    rcases h with h | h
    · exact not_passes_of_alwaysLeaves e h he
    · exact not_passes_of_anyLeaves es h hes

end

end Leaving
end Store

def Expr.skipping (leaves : Expr → Bool) : Bool → List Expr → Bool
  | skip, [] => skip
  | skip, e :: es => skipping leaves (if skip && !e.isLabel then true else leaves e) es

namespace Expr

variable {leaves : Expr → Bool} {skip : Bool} {front back : List Expr}

theorem reachable_append : reachable leaves skip (front ++ back) =
    reachable leaves skip front ++ reachable leaves (skipping leaves skip front) back := by
  induction front generalizing skip with
  | nil => rfl
  | cons e front ih =>
    rw [List.cons_append, reachable, reachable, skipping]
    split
    · exact ih
    · rw [ih, List.cons_append]

theorem skipping_append : skipping leaves skip (front ++ back) =
    skipping leaves (skipping leaves skip front) back := by
  induction front generalizing skip with
  | nil => rfl
  | cons e front ih => exact ih

theorem skipping_of_leaves {e : Expr} (h : leaves e = true) : skipping leaves skip [e] = true := by
  rw [skipping, skipping, h, ite_self]

theorem skipping_noLabel (h : ∀ e ∈ front, e.isLabel = false) :
    skipping leaves true front = true := by
  induction front with
  | nil => rfl
  | cons e front ih =>
    rw [skipping, h e (.head _)]
    exact ih fun e' he' => h e' (.tail _ he')

/-- What follows is out of reach exactly behind a statement that leaves, with no label since. -/
theorem skipping_iff : skipping leaves false front = true ↔
    ∃ front' e mid, front = front' ++ e :: mid ∧ leaves e = true ∧
      ∀ x ∈ mid, x.isLabel = false := by
  constructor
  · intro h
    induction front using List.reverseRecOn with
    | nil => cases h
    | append_singleton front x ih =>
      rw [skipping_append, skipping, skipping] at h
      split at h
      · rename_i hskip
        rw [Bool.and_eq_true, Bool.not_eq_true'] at hskip
        obtain ⟨front', e, mid, rfl, he, hmid⟩ := ih hskip.1
        refine ⟨front', e, mid ++ [x], by simp, he, fun y hy => ?_⟩
        rcases List.mem_append.1 hy with hy | hy
        · exact hmid y hy
        · rw [List.mem_singleton.1 hy]
          exact hskip.2
      · exact ⟨front, x, [], rfl, h, List.forall_mem_nil _⟩
  · rintro ⟨front', e, mid, rfl, he, hmid⟩
    rw [← List.singleton_append, ← List.append_assoc, skipping_append, skipping_append,
      skipping_of_leaves he]
    exact skipping_noLabel hmid

end Expr

namespace Store

variable {s : Store} {e c : Expr} {list front back : List Expr}

/-- A statement is erased exactly if it is no label, and one that always leaves stands before it
with no label in between. -/
theorem erases_iff : s.Erases front c ↔ c.isLabel = false ∧
    ∃ front' e mid, front = front' ++ e :: mid ∧ s.alwaysLeaves e = true ∧
      ∀ x ∈ mid, x.isLabel = false := by
  rw [← Expr.skipping_iff, Erases, Expr.reachable_append, List.append_right_eq_self,
    Expr.reachable]
  split
  · rename_i h
    rw [Bool.and_eq_true, Bool.not_eq_true'] at h
    exact iff_of_true rfl h.symm
  · rename_i h
    rw [Bool.and_eq_true, Bool.not_eq_true'] at h
    exact iff_of_false (List.cons_ne_nil _ _) fun h' => h h'.symm

/-- Every statement that is erased from a list is out of the reach of paths, exactly if no erased
one holds a label and no statement that always leaves, in front of an erased one, is passed from a
label inside. -/
theorem erased_unreached_iff :
    (∀ front c back, list = front ++ c :: back → s.Erases front c → ¬s.CanReach front c back) ↔
      (∀ front c back, list = front ++ c :: back → s.Erases front c → ¬c.HoldsLabel) ∧
      ∀ front e c back, list = front ++ e :: c :: back → s.alwaysLeaves e = true →
        c.isLabel = false → ¬s.PassesFromLabel [e] := by
  constructor
  · intro h
    refine ⟨fun front c back hlist herased hlabel => h front c back hlist herased (.inl hlabel),
      fun front e c back hlist he hc hpass => ?_⟩
    obtain ⟨stack, hbegin, hpath⟩ := hpass.append (c :: back)
    refine h (front ++ [e]) c back (by simp [hlist])
      (erases_iff.2 ⟨hc, front, e, [], rfl, he, List.forall_mem_nil _⟩)
      (.inr ⟨stack, .inr ?_, hpath⟩)
    rw [List.append_assoc]
    exact hbegin.of_back front
  · rintro ⟨hlabels, hpasses⟩ front c back rfl herased hreached
    obtain ⟨hc, front, e, mid, rfl, he, hmid⟩ := erases_iff.1 herased
    rcases hreached with hlabel | ⟨stack, rfl | hbegin, hpath⟩
    · exact hlabels _ c back rfl herased hlabel
    · -- From the start of the list no path gets past the statement that leaves.
      obtain ⟨passed, hlist, hpassed⟩ := Path.ahead hpath
      rw [← List.append_cancel_right hlist, passes_append, passes_cons] at hpassed
      exact not_passes_of_alwaysLeaves e he hpassed.2.1
    · have stops : ¬s.PassesFromLabel [e] := by
        cases mid with
        | nil => exact hpasses front e c back (by simp) he hc
        | cons x mid => exact hpasses front e x (mid ++ c :: back) (by simp) he (hmid x (.head _))
      obtain ⟨front', e', mid', hlist, he', hmid'⟩ := passed_from_label hbegin hpath hc
      rw [← List.cons_append, ← List.append_assoc] at hlist
      -- The path begins behind the statement that leaves, inside it, or in front of it.
      rcases List.append_eq_append_iff.1 (List.append_cancel_right hlist) with
        ⟨between, rfl, hrest⟩ | ⟨between, rfl, hrest⟩
      · cases between with
        | nil =>
          obtain rfl : e = e' := (List.cons.inj hrest).1
          exact stops he'
        | cons x between =>
          obtain ⟨rfl, rfl⟩ := List.cons.inj hrest
          have erased : s.Erases (front ++ e :: between) e' := erases_iff.2
            ⟨hmid e' (by simp), front, e, between, rfl, he, fun x hx => hmid x (by simp [hx])⟩
          exact hlabels _ e' (mid' ++ c :: back) (by simp) erased he'.holdsLabel
      · cases between with
        | nil =>
          obtain rfl : e' = e := (List.cons.inj hrest).1
          exact stops he'
        | cons x between =>
          obtain rfl : mid' = between ++ e :: mid := (List.cons.inj hrest).2
          have hpassed := (passes_append.1 hmid').2
          exact not_passes_of_alwaysLeaves e he (passes_cons.1 hpassed).1

/-- What always leaves is not passed from its start, so with labels only in the list itself every
erased statement is out of the reach of paths. Labels at depth are the exceptions: one in an erased
statement, and one from which a path gets past a statement that always leaves. -/
theorem erased_statements_unreached (s : Store) :
    (∀ e, s.alwaysLeaves e = true → ¬s.Passes [e]) ∧
    (∀ list : List Expr, (∀ e ∈ list, e.isLabel = false → ¬e.HoldsLabel) →
      ∀ front c back, list = front ++ c :: back → s.Erases front c → ¬s.CanReach front c back) ∧
    ∀ list : List Expr,
      (∀ front c back, list = front ++ c :: back → s.Erases front c → ¬s.CanReach front c back) ↔
        (∀ front c back, list = front ++ c :: back → s.Erases front c → ¬c.HoldsLabel) ∧
        ∀ front e c back, list = front ++ e :: c :: back → s.alwaysLeaves e = true →
          c.isLabel = false → ¬s.PassesFromLabel [e] := by
  refine ⟨not_passes_of_alwaysLeaves, fun list hdirect => ?_, fun list => erased_unreached_iff⟩
  refine erased_unreached_iff.2 ⟨fun front c back hlist herased => ?_,
    fun front e c back hlist he _ hpass => ?_⟩
  · exact hdirect c (by simp [hlist]) (erases_iff.1 herased).1
  · refine hdirect e (by simp [hlist]) ?_ hpass.holdsLabel
    exact isLabel_of_alwaysLeaves he

end Store

def Node.calls : Node → Bool
  | .call .. => true
  | _ => false

namespace Program

section Samples

/-- It always leaves, and a jump to its label gets past it. -/
def exit : Expr := statements [leaving, landing]

def afterwards : Expr := .ofNode .builtin (.call "f" [] none)

def jumpToExit : Program := ofBodies [statements [jump, exit, afterwards]]

/-- The call is erased although the jump before it gets there. -/
theorem foldBlocks_erases_reached :
    jumpToExit.store.alwaysLeaves exit = true ∧ jumpToExit.store.PassesFromLabel [exit] ∧
    jumpToExit.store.Erases [jump, exit] afterwards ∧
    jumpToExit.store.CanReach [jump, exit] afterwards [] ∧
    jumpToExit.tally Node.calls ⟨0⟩ = 1 ∧
    Ends foldBlocks jumpToExit fun _ p' =>
      p'.tally Node.calls ⟨0⟩ = 0 ∧ p'.tally (Node.jumpsTo 1) ⟨0⟩ = 1 ∧
      p'.tally (Node.labels 1) ⟨0⟩ = 1 := by
  have begins : Begins [exit] ([[landing]] ++ [[]]) :=
    .inside (show [leaving, landing] ∈ exit.node.bodies from .head _) (.later (.here rfl))
  have landed : jumpToExit.store.Passes [landing] :=
    Store.passes_singleton.2 ⟨[], .head _, Store.passes_nil⟩
  have passed : jumpToExit.store.PassesFromLabel [exit] :=
    ⟨_, begins, (landed.append [[]]).trans Store.passes_nil⟩
  have reached : jumpToExit.store.CanReach [jump, exit] afterwards [] := by
    obtain ⟨stack, hbegin, hpath⟩ := passed.append [afterwards]
    exact .inr ⟨stack, .inr (hbegin.of_back [jump]), hpath⟩
  exact ⟨rfl, passed, rfl, reached, by decide +kernel⟩

end Samples

end Program

end Frontend
