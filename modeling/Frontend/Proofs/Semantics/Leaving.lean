import Frontend.Expr.Exits
import Frontend.Proofs.Semantics.Runs

/-!
# Which exits are foreseen

The ways in which a statement may leave the flow are read off its parts: loops stop `break` and
`continue`, `try` stops what its body throws. All parts in statement position are read but the
bodies of `with`, and the condition of an `if` is read too. So the exits of a tree are those of the
statements in it that no part on the way stops, unless they stand in the body of a `with`.
-/

namespace Frontend

inductive Exit where
  | returns
  | breaks
  | continues
  | throws
  | jumps
  deriving DecidableEq, Repr

def Exits.has (a : Exits) : Exit → Bool
  | .returns => a.returns
  | .breaks => a.breaks
  | .continues => a.continues
  | .throws => a.throws
  | .jumps => a.jumps

/-- Where a statement holds a part that may leave the flow. -/
inductive Place where
  | list
  | finalList
  | condition
  | branch
  | loopBody
  | withBody
  | tryBody
  | handler
  deriving DecidableEq, Repr

def Place.absorbs : Place → Exit → Bool
  | loopBody, .breaks | loopBody, .continues | tryBody, .throws => true
  | _, _ => false

def Place.passes (place : Place) (x : Exit) : Prop := place.absorbs x = false

instance (place : Place) (x : Exit) : Decidable (place.passes x) :=
  inferInstanceAs (Decidable (place.absorbs x = false))

def Node.places : Node → List (Place × Expr)
  | .block _ list finalList => list.map (.list, ·) ++ finalList.map (.finalList, ·)
  | .ifThenElse cond ifTrue ifFalse _ =>
    (.condition, cond) :: (.branch, ifTrue) :: ifFalse.toList.map (.branch, ·)
  | .whileLoop _ body => [(.loopBody, body)]
  | .forEach _ _ _ body => body.toList.map (.loopBody, ·)
  | .within _ body => [(.withBody, body)]
  | .tryCatch body handler => [(.tryBody, body), (.handler, handler)]
  | _ => []

@[simp] theorem Place.passes_of_ne {place : Place} {x : Exit} (hl : place ≠ .loopBody)
    (ht : place ≠ .tryBody) : place.passes x := by
  cases place <;> first | rfl | contradiction

namespace Exits

variable {a b : Exits} {x : Exit}

@[simp] theorem has_none : Exits.none.has x = false := by cases x <;> rfl

@[simp] theorem has_union : (a ∪ b).has x = (a.has x || b.has x) := by cases x <;> rfl

theorem has_outOfLoop :
    a.outOfLoop.has x = true ↔ Place.loopBody.passes x ∧ a.has x = true := by
  cases x <;> simp [outOfLoop, has, Place.passes, Place.absorbs]

theorem has_outOfTry :
    a.outOfTry.has x = true ↔ Place.tryBody.passes x ∧ a.has x = true := by
  cases x <;> simp [outOfTry, has, Place.passes, Place.absorbs]

end Exits

namespace Store

variable {s : Store} {x : Exit} {e part : Expr} {place : Place} {through : Place → Prop}

def leaving? (s : Store) : Node → Option Exit
  | .ret .. => some .returns
  | .breakLoop => some .breaks
  | .continueLoop => some .continues
  | .goto .. => some .jumps
  | .call _ _ function => if s.isBuiltinPanic function then some .throws else none
  | _ => none

/-- Something in the tree leaves it in the way `x`: it is reached through places of some kind, and
no part on the way stops it. -/
inductive Escapes (s : Store) (through : Place → Prop) (x : Exit) : Expr → Prop
  | here {e : Expr} (h : s.leaving? e.node = some x) : Escapes s through x e
  | inside {e part : Expr} {place : Place} (hpart : (place, part) ∈ e.node.places)
    (hthrough : through place) (hpasses : place.passes x) (h : Escapes s through x part) :
    Escapes s through x e

theorem optionExits_has {o : Option Expr} :
    (s.optionExits o).has x = true ↔ ∃ e, o = some e ∧ (s.exits e).has x = true := by
  cases o with
  | none => simp [optionExits]
  | some e => simp [optionExits]

theorem listExits_has {es : List Expr} :
    (s.listExits es).has x = true ↔ ∃ e ∈ es, (s.exits e).has x = true := by
  induction es with
  | nil => simp [listExits]
  | cons e es ih => simp [listExits, ih]

private theorem exists_mem_places {l : List Expr} {q : Place × Expr → Prop} :
    (∃ p ∈ l.map (place, ·), q p) ↔ ∃ e ∈ l, q (place, e) := by
  constructor
  · rintro ⟨_, hp, hq⟩
    obtain ⟨e, he, rfl⟩ := List.mem_map.1 hp
    exact ⟨e, he, hq⟩
  · rintro ⟨e, he, hq⟩
    exact ⟨_, List.mem_map_of_mem he, hq⟩

/-- What is read of a node: how it leaves itself, and the exits of its parts that it does not stop.
The body of a `with` is not read. -/
theorem nodeExits_has_iff (node : Node) : (s.nodeExits node).has x = true ↔
    s.leaving? node = some x ∨
      ∃ p ∈ node.places, p.1 ≠ .withBody ∧ p.1.passes x ∧ (s.exits p.2).has x = true := by
  cases node with
  | goto | ret | breakLoop | continueLoop =>
    cases x <;> simp [nodeExits, leaving?, Node.places, Exits.has]
  | call name args function =>
    cases hp : s.isBuiltinPanic function <;> cases x <;>
      simp [nodeExits, leaving?, Node.places, Exits.has, Exits.none, hp]
  | tryCatch body handler => simp [nodeExits, leaving?, Node.places, Exits.has_outOfTry]
  | ifThenElse cond ifTrue ifFalse isStatic =>
    simp only [nodeExits, leaving?, Node.places, Exits.has_union, Bool.or_eq_true, optionExits_has,
      List.mem_cons, exists_eq_or_imp, exists_mem_places]
    simp [or_assoc]
  | whileLoop cond body => simp [nodeExits, leaving?, Node.places, Exits.has_outOfLoop]
  | forEach names vars sources body =>
    simp only [nodeExits, leaving?, Node.places, Exits.has_outOfLoop, optionExits_has,
      exists_mem_places]
    cases body <;> simp
  | block info list finalList =>
    simp only [nodeExits, leaving?, Node.places, Exits.has_union, Bool.or_eq_true, listExits_has,
      List.mem_append, or_and_right, exists_or, exists_mem_places]
    simp [or_comm]
  | _ => simp [nodeExits, leaving?, Node.places]

theorem exits_has_iff : (s.exits e).has x = true ↔
    s.leaving? e.node = some x ∨
      ∃ p ∈ e.node.places, p.1 ≠ .withBody ∧ p.1.passes x ∧ (s.exits p.2).has x = true := by
  obtain ⟨span, type, flags, node⟩ := e
  exact nodeExits_has_iff node

theorem sizeOf_place {p : Place × Expr} (h : p ∈ e.node.places) : sizeOf p.2 < sizeOf e := by
  obtain ⟨span, type, flags, node⟩ := e
  change p ∈ node.places at h
  have : sizeOf p.2 < sizeOf node := by
    cases node with
    | tryCatch body handler =>
      simp only [Node.places, List.mem_cons, List.not_mem_nil, or_false] at h
      rcases h with rfl | rfl <;> simp only [Node.tryCatch.sizeOf_spec] <;> omega
    | ifThenElse cond ifTrue ifFalse isStatic =>
      simp only [Node.places, List.mem_cons, List.mem_map, Option.mem_toList] at h
      rcases h with rfl | rfl | ⟨part, rfl, rfl⟩ <;>
        simp only [Node.ifThenElse.sizeOf_spec, Option.some.sizeOf_spec] <;> omega
    | whileLoop cond body =>
      rw [List.mem_singleton.1 h]
      simp only [Node.whileLoop.sizeOf_spec]
      omega
    | within value body =>
      rw [List.mem_singleton.1 h]
      simp only [Node.within.sizeOf_spec]
      omega
    | forEach names vars sources body =>
      simp only [Node.places, List.mem_map, Option.mem_toList] at h
      obtain ⟨part, rfl, rfl⟩ := h
      simp only [Node.forEach.sizeOf_spec, Option.some.sizeOf_spec]
      omega
    | block info list finalList =>
      simp only [Node.places, List.mem_append, List.mem_map] at h
      simp only [Node.block.sizeOf_spec]
      rcases h with ⟨part, hpart, rfl⟩ | ⟨part, hpart, rfl⟩ <;>
      · have := List.sizeOf_lt_of_mem hpart
        dsimp only
        omega
    | _ => exact absurd h List.not_mem_nil
  simp only [Expr.mk.sizeOf_spec]
  omega

theorem escapes_of_exits (e : Expr) (h : (s.exits e).has x = true) :
    s.Escapes (· ≠ .withBody) x e := by
  rcases exits_has_iff.1 h with h | ⟨p, hp, hread, hpasses, h⟩
  · exact .here h
  · have := sizeOf_place hp
    exact .inside hp hread hpasses (escapes_of_exits p.2 h)
termination_by sizeOf e

theorem exits_of_escapes (h : s.Escapes (· ≠ .withBody) x e) : (s.exits e).has x = true := by
  induction h with
  | here h => exact exits_has_iff.2 (.inl h)
  | inside hpart hread hpasses _ ih => exact exits_has_iff.2 (.inr ⟨_, hpart, hread, hpasses, ih⟩)

/-- On the way to something that leaves the tree there is a `with`. -/
inductive EscapesFromWith (s : Store) (x : Exit) : Expr → Prop
  | here {e body : Expr} (hbody : (.withBody, body) ∈ e.node.places)
    (h : s.Escapes (· ≠ .condition) x body) : EscapesFromWith s x e
  | inside {e part : Expr} {place : Place} (hpart : (place, part) ∈ e.node.places)
    (hplace : place ≠ .condition) (hpasses : place.passes x) (h : EscapesFromWith s x part) :
    EscapesFromWith s x e

/-- Something that leaves the tree is reached past every `with`, or through one. -/
theorem escapes_or_escapesFromWith (h : s.Escapes (· ≠ .condition) x e) :
    s.Escapes (· ≠ .withBody) x e ∨ s.EscapesFromWith x e := by
  induction h with
  | here h => exact .inl (.here h)
  | @inside e part place hpart hplace hpasses h ih =>
    by_cases hwith : place = .withBody
    · subst hwith
      exact .inr (.here hpart h)
    · exact ih.imp (.inside hpart hwith hpasses) (.inside hpart hplace hpasses)

theorem EscapesFromWith.escapes (h : s.EscapesFromWith x e) : s.Escapes (· ≠ .condition) x e := by
  induction h with
  | here hbody h => exact .inside hbody (by decide) (Place.passes_of_ne (by decide) (by decide)) h
  | inside hpart hplace hpasses _ ih => exact .inside hpart hplace hpasses ih

/-- The exits of a statement tree are exactly the ways in which something in it leaves it, on a way
through no body of a `with`; a condition of an `if` counts as a part. So every way to leave the tree
from a statement position is foreseen, exactly if what leaves it through the body of a `with` is
also met elsewhere. -/
theorem exits_foresee_iff (s : Store) (x : Exit) (e : Expr) :
    ((s.exits e).has x = true ↔ s.Escapes (· ≠ .withBody) x e) ∧
      ((s.Escapes (· ≠ .condition) x e → (s.exits e).has x = true) ↔
        (s.EscapesFromWith x e → s.Escapes (· ≠ .withBody) x e)) := by
  refine ⟨⟨escapes_of_exits e, exits_of_escapes⟩,
    fun h hwith => escapes_of_exits e (h hwith.escapes), fun h hleaves => ?_⟩
  rcases escapes_or_escapesFromWith hleaves with hread | hwith
  · exact exits_of_escapes hread
  · exact exits_of_escapes (h hwith)

def returnInWith : Expr :=
  let body := Expr.ofNode .builtin (.block {} [.ofNode .builtin (.ret none false false)] [])
  .ofNode .builtin (.within (.ofNode .builtin (.var { name := "x" })) body)

/-- The `return` leaves the statement, but is not read off it. -/
theorem exits_miss_returnInWith :
    Store.Escapes {} (· ≠ .condition) .returns returnInWith ∧
      (Store.exits {} returnInWith).has .returns = false := by
  refine ⟨.inside (List.mem_singleton_self _) (by decide) (by decide) ?_, rfl⟩
  exact .inside (List.mem_singleton_self _) (by decide) (by decide) (.here rfl)

end Store

def Completion.exit? {ω : Type} : Completion ω → Option Exit
  | .returns _ => some .returns
  | .breaks => some .breaks
  | .continues => some .continues
  | .normal | .throws => none

namespace Behavior

variable {ω α : Type} {t : List (Event ω)} {c : Completion ω} {x : Exit}
  {B C : Behavior ω (Completion ω)}

theorem onValue_ends {V : OptionT (Behavior ω) α} {f : α → Behavior ω (Completion ω)}
    (h : onValue V f t c) (hx : c.exit? = some x) : ∃ a u, f a u c := by
  obtain ⟨_, r, u, -, hf, -⟩ := h
  cases r with
  | none =>
    obtain ⟨-, rfl⟩ := hf
    cases hx
  | some a => exact ⟨a, u, hf⟩

theorem andThen_ends (h : B.andThen C t c) : (∃ u, B u c) ∨ ∃ u, C u c := by
  obtain ⟨t₁, a, t₂, hB, hC, -⟩ := h
  cases a with
  | normal => exact .inr ⟨t₂, hC⟩
  | returns | breaks | continues | throws =>
    obtain ⟨-, rfl⟩ := hC
    exact .inl ⟨t₁, hB⟩

theorem handledBy_ends (h : B.handledBy C t c) : (∃ u, B u c) ∨ ∃ u, C u c := by
  obtain ⟨t₁, a, t₂, hB, hC, -⟩ := h
  cases a with
  | throws => exact .inr ⟨t₂, hC⟩
  | returns | breaks | continues | normal =>
    obtain ⟨-, rfl⟩ := hC
    exact .inl ⟨t₁, hB⟩

theorem loop_ends {V : OptionT (Behavior ω) Bool} (h : Loop V B t c) (hx : c.exit? = some x) :
    Place.loopBody.passes x ∧ ∃ u, B u c := by
  induction h with
  | ends | breaks | fails | throws => cases hx
  | again _ _ _ _ ih => exact ih hx
  | returns _ hB =>
    cases hx
    exact ⟨rfl, _, hB⟩

end Behavior

namespace Machine

variable {M : Machine} {panics : FunctionId → Prop} {s : Store} {x : Exit}
  {t : List (Event M.Other)} {c : Completion M.Other}

theorem listRuns_ends {list : List Expr} (h : M.listRuns panics list t c)
    (hx : c.exit? = some x) : ∃ e ∈ list, ∃ u, M.runs panics e u c := by
  induction list generalizing t with
  | nil =>
    obtain ⟨-, rfl⟩ := h
    cases hx
  | cons e list ih =>
    rcases Behavior.andThen_ends h with ⟨u, hu⟩ | ⟨u, hu⟩
    · exact ⟨e, .head _, u, hu⟩
    · obtain ⟨e', he', hr⟩ := ih hu
      exact ⟨e', .tail _ he', hr⟩

/-- A run of a statement that ends in a jump comes from the statement itself or from a part that
ends the same way, and that is read. -/
theorem run_ends {e : Expr} (h : M.runs panics e t c) (hx : c.exit? = some x) :
    s.leaving? e.node = some x ∨ ∃ p ∈ e.node.places, p.1 ≠ .withBody ∧ p.1.passes x ∧
      ∃ u, M.runs panics p.2 u c := by
  obtain ⟨span, type, flags, node⟩ := e
  cases node with
  | block info list finalList =>
    cases finalList with
    | nil =>
      obtain ⟨e, he, hr⟩ := listRuns_ends h hx
      refine .inr ⟨(.list, e), ?_, nofun, Place.passes_of_ne nofun nofun, hr⟩
      exact List.mem_append_left _ (List.mem_map_of_mem he)
    | cons _ _ =>
      obtain ⟨_, _, -, rfl⟩ := Behavior.onValue_ends h hx
      cases hx
  | ifThenElse cond ifTrue ifFalse isStatic =>
    obtain ⟨b, u, hu⟩ := Behavior.onValue_ends h hx
    cases b with
    | true =>
      refine .inr ⟨(.branch, ifTrue), ?_, nofun, Place.passes_of_ne nofun nofun, u, hu⟩
      exact .tail _ (.head _)
    | false =>
      cases ifFalse with
      | none =>
        obtain ⟨-, rfl⟩ := hu
        cases hx
      | some ifFalse =>
        refine .inr ⟨(.branch, ifFalse), ?_, nofun, Place.passes_of_ne nofun nofun, u, hu⟩
        exact .tail _ (.tail _ (.head _))
  | whileLoop cond body =>
    obtain ⟨hpasses, hr⟩ := Behavior.loop_ends h hx
    exact .inr ⟨_, List.mem_singleton_self _, nofun, hpasses, hr⟩
  | tryCatch body handler =>
    rcases Behavior.handledBy_ends h with ⟨u, hu⟩ | ⟨u, hu⟩
    · have hpasses : Place.tryBody.passes x := by
        cases c <;> cases hx <;> rfl
      exact .inr ⟨_, .head _, nofun, hpasses, u, hu⟩
    · exact .inr ⟨_, .tail _ (.head _), nofun, Place.passes_of_ne nofun nofun, u, hu⟩
  | ret value moves fromYield =>
    obtain ⟨_, _, -, rfl⟩ := Behavior.onValue_ends h hx
    exact .inl hx
  | breakLoop | continueLoop =>
    obtain ⟨-, rfl⟩ := h
    exact .inl hx
  | call name args function =>
    cases function with
    | none =>
      obtain ⟨_, _, -, rfl⟩ := Behavior.onValue_ends h hx
      cases hx
    | some id =>
      obtain ⟨_, _, -, rfl⟩ := Behavior.onValue_ends h.2 hx
      cases hx
  | _ =>
    obtain ⟨_, _, -, rfl⟩ := Behavior.onValue_ends h hx
    cases hx

/-- Every run of a statement that ends in `return`, `break` or `continue` is foreseen. -/
theorem exits_of_run (e : Expr) {t : List (Event M.Other)} (h : M.runs panics e t c)
    (hx : c.exit? = some x) : (s.exits e).has x = true := by
  rcases run_ends h hx with here | ⟨p, hp, hread, hpasses, u, hu⟩
  · exact Store.exits_has_iff.2 (.inl here)
  · have := Store.sizeOf_place hp
    exact Store.exits_has_iff.2 (.inr ⟨p, hp, hread, hpasses, exits_of_run p.2 hu hx⟩)
termination_by sizeOf e

end Machine

end Frontend
