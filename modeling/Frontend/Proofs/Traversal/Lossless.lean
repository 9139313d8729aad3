import Frontend.Proofs.Optimizer.Fixpoint

/-!
# Visits that change nothing

A visit takes lists, initializers, bodies, types and aliases off what holds them and puts back what
its hooks leave. By a visitor whose hooks keep everything, whatever it notes on the way, every tree
is put back as it was and every table of the store is at the end what it was at the start.
-/

namespace Frontend

/-- Changes that are undone by another one. -/
theorem Table.modify_undo {kind : ObjectKind} {α : Type} {t : Table kind α} {id : Id kind}
    {f g : α → α} (h : ∀ a, t.get? id = some a → g (f a) = a) :
    (t.modify id f).modify id g = t := by
  rw [modify_modify]
  exact modify_eq_self h

/-- The related trees of a sequence of visits. -/
theorem Chain.related {σ : Type} {G : Visit σ → Visit σ → Prop}
    {P : Visit σ → Expr → Expr → Visit σ → Prop} {R : Expr → Expr → Prop} {st st' : Visit σ}
    {es es' : List Expr} (hPR : ∀ {st e e' st'}, P st e e' st' → R e e')
    (h : Chain G P st es es' st') : List.Forall₂ R es es' := by
  induction h with
  | nil => exact .nil
  | idle _ _ ih => exact ih
  | cons h _ ih => exact .cons (hPR h) ih

def Passes {σ α : Type} (s t : Store) (m : VisitM σ α) (a : α) : Prop :=
  ∀ st : Visit σ, st.store = s → Ends m st fun b st' => b = a ∧ st'.store = t

def Visit.SameStore {σ : Type} (st st' : Visit σ) : Prop := st'.store = st.store

/-- All hooks keep what they are called on, all gates are open, and the store is left alone. -/
structure Visitor.Keeps {σ : Type} (v : Visitor σ) : Prop where
  calm : v.Calm Visit.SameStore
  enter : ∀ e, Gives Visit.SameStore (v.enter e) e
  leave : ∀ e, Gives Visit.SameStore (v.leave e) .keep

namespace Passes

variable {σ α β : Type} {s t r : Store} {m : VisitM σ α} {a : α} {f : α → VisitM σ β} {b : β}

theorem pure : Passes (σ := σ) s s (Pure.pure a) a := fun _ hst => .pure ⟨rfl, hst⟩

theorem bind (h : Passes s t m a) (hf : Passes t r (f a) b) : Passes s r (m >>= f) b := by
  intro st hst
  refine .bind (h st hst) ?_
  rintro _ st' ⟨rfl, hst'⟩
  exact hf st' hst'

theorem store : Passes (σ := σ) s s VisitM.store s := by
  rintro st rfl
  exact ⟨st.store, st, rfl, rfl, rfl⟩

theorem modifyStore (g : Store → Store) : Passes (σ := σ) s (g s) (VisitM.modifyStore g) () := by
  rintro st rfl
  exact ⟨(), _, rfl, rfl, rfl⟩

/-- A hook that leaves the store alone. -/
theorem hook (h : Gives Visit.SameStore m a) : Passes s s m a := by
  intro st hst
  exact h.ends fun _ hG => ⟨rfl, hG.trans hst⟩

theorem visitEach {g : Nat → Bool → α → VisitM σ (Option α)} {as : List α}
    (hg : ∀ i last, ∀ a ∈ as, Passes s s (g i last a) (some a)) (i : Nat) :
    Passes s s (visitEach g i as) as := by
  induction as generalizing i with
  | nil => exact .pure
  | cons a as ih =>
    exact .bind (hg i _ a (.head _))
      (.bind (ih (fun i last a ha => hg i last a (.tail _ ha)) (i + 1)) .pure)

theorem loop {as : List α} {g : α → PUnit → VisitM σ (ForInStep PUnit)}
    (hg : ∀ a ∈ as, Passes s s (g a ⟨⟩) (.yield ⟨⟩)) :
    Passes s s (do forIn as PUnit.unit g; Pure.pure ()) () := by
  induction as with
  | nil => exact .pure
  | cons a as ih =>
    rw [List.forIn_cons, bind_assoc]
    exact .bind (hg a (.head _)) (ih fun a ha => hg a (.tail _ ha))

end Passes

namespace Visitor.Keeps

variable {σ : Type} {v : Visitor σ} (hv : v.Keeps) {s : Store} {child : Child σ} {e : Expr}

include hv

section Trees

theorem inSlot {slot : Slot} (he : Passes s s (child e) (.keep, e)) :
    Passes s s (v.inSlot child slot e) (some e) :=
  .bind (.hook (hv.calm.enterSlot slot e)) (.bind he (.bind (.hook (hv.calm.leaveSlot slot e)) .pure))

omit hv in
theorem required (he : Passes s s (child e) (.keep, e)) :
    Passes s s (Visitor.required child e) e :=
  .bind he .pure

/-- The type and the initializer of a variable are put back. -/
theorem visitVariable {place : VariablePlace} {id : VarId}
    (hi : ∀ i, (s.var id).init = some i →
      Passes (s.detach id) (s.detach id) (child i) (.keep, i)) :
    Passes s s (v.visitVariable child place id) () := by
  have retyped : (s.modifyVariable id fun x => { x with type := .blank }).modifyVariable id
      (fun x => { x with type := (s.var id).type }) = s := by
    refine congrArg (fun vars => { s with vars }) (Table.modify_undo fun x hx => ?_)
    simp only [Store.var, hx, Option.getD_some]
  refine .bind .store (.bind (.modifyStore _) (.bind (.hook (visitType_gives hv.calm _))
    (.bind (.modifyStore _) ?_)))
  rw [retyped]
  refine .bind .store ?_
  cases h : (s.var id).init with
  | none => exact .pure
  | some i =>
    have attached : Passes (σ := σ) (s.detach id) s
        (VisitM.modifyStore (·.modifyVariable id fun x => { x with init := some i })) () := by
      have := Passes.modifyStore (σ := σ) (s := s.detach id)
        (·.modifyVariable id fun x => { x with init := some i })
      rwa [← Store.attach, Store.attach_detach h] at this
    exact .bind (.modifyStore _) (.bind (hv.inSlot (hi i h)) attached)

/-- A node is put back as it was if its children are, and what it declares. -/
theorem walk {n : Node} (hc : ∀ c ∈ n.visited, Passes s s (child c) (.keep, c))
    (hd : ∀ id ∈ n.declared, ∀ place, Passes s s (v.visitVariable child place id) ()) :
    Passes s s (v.walk child n) n := by
  intro st hst
  refine (walk_ends hv.calm (I := fun st => st.store = s) (P := fun _ e e' _ => e = e')
    (V := fun _ _ _ => True) (fun _ _ h hG => hG.trans h) (fun c hmem st hst => ?_)
    (fun id hmem place st hst => ?_) hst).mono ?_
  · refine (hc c hmem st hst).mono ?_
    rintro _ st' ⟨rfl, hst'⟩
    exact ⟨hst', c, rfl, rfl⟩
  · exact (hd id hmem place st hst).mono fun _ _ h => ⟨h.2, trivial⟩
  · rintro n' st' ⟨hst', hn, _, -, hcs⟩
    exact ⟨(hn.of_visited (R := Eq) (hcs.related fun h => h)).eq, hst'⟩

/-- A tree is kept, and what is declared in it too. -/
theorem visitIn (steps : Nat) (s : Store) (e : Expr) (hs : e.weight + s.initWeight ≤ steps) :
    Passes s s (v.visitIn steps e) (.keep, e) := by
  induction steps generalizing s e with
  | zero =>
    have := e.weight_pos
    omega
  | succ steps ih =>
    have hc : ∀ c ∈ e.node.visited, Passes s s (v.visitIn steps c) (.keep, c) := by
      intro c hmem
      have := le_total_of_mem Expr.weight hmem
      have := e.total_visited_lt
      exact ih s c (by omega)
    have hd : ∀ id ∈ e.node.declared, ∀ place,
        Passes s s (v.visitVariable (v.visitIn steps) place id) () := by
      intro id _ place
      refine hv.visitVariable fun i hi => ih _ i ?_
      have := e.weight_pos
      have := Store.initWeight_detach hi
      omega
    obtain ⟨span, type, flags, node⟩ := e
    exact .bind (.hook (hv.enter _)) (.bind (hv.walk hc hd) (.bind (.hook (hv.leave _)) .pure))

theorem visit (s : Store) (e : Expr) : Passes s s (v.visit e) (.keep, e) :=
  .bind .store (hv.visitIn _ s e (Builds.le_steps v s e.weight))

end Trees

section Declarations

theorem child_passes {weight : Nat} (he : e.weight ≤ weight) :
    Passes s s (v.visitIn (v.steps s weight) e) (.keep, e) :=
  hv.visitIn _ s e (by have := Builds.le_steps v s weight; omega)

theorem variable_passes {weight : Nat} {place : VariablePlace} {id : VarId} :
    Passes s s (v.visitVariable (v.visitIn (v.steps s weight)) place id) () := by
  refine hv.visitVariable fun i hi => hv.visitIn _ _ i ?_
  have := Store.initWeight_detach hi
  have := Builds.le_steps v s weight
  omega

theorem argument {weight : Nat} {name : String} (id : VarId) (last : Bool) :
    Passes s s (v.declared (v.visitIn (v.steps s weight)) (.argument name) last id) (some id) :=
  .bind (.hook (hv.calm.enterVariable _ id last))
    (.bind hv.variable_passes (.bind (.hook (hv.calm.leaveVariable _ id last)) .pure))

/-- The entries of an enumeration are put back. -/
theorem visitEnumeration (id : EnumId) : Passes s s (v.visitEnumeration id) .keep := by
  generalize hx : (s.enumeration? id).getD default = x
  have back : (s.modifyEnumeration id fun e => { e with entries := [] }).modifyEnumeration id
      (fun e => { e with entries := x.entries }) = s := by
    refine congrArg (fun enumerations => { s with enumerations }) (Table.modify_undo fun y hy => ?_)
    rw [← hx, Store.enumeration?, hy, Option.getD_some]
  unfold Visitor.visitEnumeration
  refine .bind .store ?_
  rw [hx]
  refine .bind (.hook (hv.calm.notice _)) (.bind (.modifyStore _) (.bind (.bind .store .pure) ?_))
  refine .bind (.visitEach (fun i last y hy => ?_) 0) (.bind (.modifyStore _) ?_)
  · refine .bind (.hook (hv.calm.notice _)) ?_
    obtain ⟨name, value⟩ := y
    cases value with
    | none => exact .pure
    | some value =>
      have light := le_total_of_mem (fun x : String × Option Expr => weightOf x.2) hy
      exact .bind (hv.child_passes light) (.bind (.hook (hv.calm.leaveSlot _ value)) .pure)
  · rw [back]
    exact .hook (hv.calm.leaveEnum id)

/-- The fields of a structure are put back. -/
theorem visitStruct (id : StructId) : Passes s s (v.visitStruct id) .keep := by
  generalize hx : (s.struct? id).getD default = x
  have back : (s.modifyStruct id fun x => { x with fields := [] }).modifyStruct id
      (fun y => { y with fields := x.fields }) = s := by
    refine congrArg (fun structs => { s with structs }) (Table.modify_undo fun y hy => ?_)
    rw [← hx, Store.struct?, hy, Option.getD_some]
  unfold Visitor.visitStruct
  refine .bind .store ?_
  rw [hx]
  refine .bind (.hook (hv.calm.notice _)) (.bind (.modifyStore _) (.bind (.bind .store .pure)
    (.bind (.hook (hv.calm.allows _)) ?_)))
  refine .bind (.visitEach (fun i last f hf => ?_) 0) (.bind (.modifyStore _) ?_)
  · refine .bind (.hook (hv.calm.notice _)) (.bind (.hook (visitType_gives hv.calm _))
      (.bind (?_ : Passes _ _ _ f.init) (.bind (.hook (hv.calm.notice _)) .pure)))
    cases hi : f.init with
    | none => exact .pure
    | some i =>
      have light := le_total_of_mem (fun f : Field => weightOf f.init) hf
      rw [hi] at light
      exact .bind (hv.child_passes light) .pure
  · rw [back]
    exact .hook (hv.calm.leaveStruct id)

/-- The arguments, the result and the body of a function are put back. -/
theorem visitFunction (id : FunctionId) : Passes s s (v.visitFunction id) .keep := by
  generalize hf : (s.function? id).getD default = f
  have found (g : Function) (hg : s.functions.get? id = some g) : g = f := by
    rw [← hf, Store.function?, hg, Option.getD_some]
  have args : s.modifyFunction id (fun x => { x with args := f.args }) = s := by
    refine congrArg (fun functions => { s with functions }) (Table.modify_eq_self fun x hx => ?_)
    rw [found x hx]
  have result : (s.modifyFunction id fun x => { x with result := .blank }).modifyFunction id
      (fun x => { x with result := f.result }) = s := by
    refine congrArg (fun functions => { s with functions }) (Table.modify_undo fun x hx => ?_)
    rw [found x hx]
  unfold Visitor.visitFunction
  refine .bind .store ?_
  rw [hf]
  refine .bind (.hook (hv.calm.notice _)) (.bind (.bind .store .pure) ?_)
  refine .bind (.visitEach (fun i last arg _ => ?_) 0) (.bind (.modifyStore _) ?_)
  · exact .bind (hv.argument arg last) .pure
  rw [args]
  refine .bind .store (.bind (.modifyStore _) (.bind (.hook (visitType_gives hv.calm _))
    (.bind (.modifyStore _) ?_)))
  rw [hf, result]
  refine .bind .store (.bind (.modifyStore _) ?_)
  rw [hf]
  cases hb : f.body with
  | none =>
    have bare : s.modifyFunction id (fun x => { x with body := none }) = s := by
      refine congrArg (fun functions => { s with functions }) (Table.modify_eq_self fun x hx => ?_)
      rw [found x hx, ← hb]
    rw [bare]
    exact .hook (hv.calm.leaveFunction id)
  | some b =>
    have back : (s.modifyFunction id fun x => { x with body := none }).modifyFunction id
        (fun x => { x with body := some b }) = s := by
      refine congrArg (fun functions => { s with functions }) (Table.modify_undo fun x hx => ?_)
      rw [found x hx, ← hb]
    refine .bind (.hook (hv.calm.enterSlot _ b)) (.bind (.bind .store .pure)
      (.bind (required (hv.child_passes (Nat.le_refl _)))
        (.bind (.hook (hv.calm.leaveSlot _ b)) (.bind (.modifyStore _) ?_))))
    rw [back]
    exact .hook (hv.calm.leaveFunction id)

end Declarations

section Modules

variable {m : ModuleId}

theorem visitEnumerations : Passes s s (v.visitEnumerations m) () := by
  unfold Visitor.visitEnumerations
  exact .bind .store (.loop fun id _ => .bind (hv.visitEnumeration id) .pure)

theorem visitStructs : Passes s s (v.visitStructs m) () := by
  unfold Visitor.visitStructs
  exact .bind .store (.loop fun id _ => .bind (hv.visitStruct id) .pure)

theorem visitAliases : Passes s s (v.visitAliases m) () := by
  have entries (l : List (String × Ty)) :
      Gives Visit.SameStore (l.mapM fun e => return (e.1, ← v.visitType e.2)) l :=
    mapM_gives hv.calm fun e _ => hv.calm.bind (visitType_gives hv.calm e.2) (hv.calm.pure e)
  have back : (s.modifyModule m fun x => { x with aliases := .empty }).modifyModule m
      (fun x => { x with aliases := .ofList (s.module m).aliases.toList }) = s := by
    refine congrArg (fun modules => { s with modules }) (Table.modify_undo fun x hx => ?_)
    rw [NameMap.ofList_toList, Store.module, Store.module?, hx, Option.getD_some]
  unfold Visitor.visitAliases
  refine .bind .store (.bind (.modifyStore _) (.bind (.hook (entries _)) ?_))
  have last := Passes.modifyStore (σ := σ) (s := s.modifyModule m fun x => { x with aliases := .empty })
    (·.modifyModule m fun x => { x with aliases := .ofList (s.module m).aliases.toList })
  rwa [back] at last

theorem visitGlobals : Passes s s (v.visitGlobals m) () := by
  unfold Visitor.visitGlobals
  refine .bind .store (.loop fun id _ => ?_)
  exact .bind (.hook (hv.calm.enterVariable _ id false)) (.bind (.bind .store .pure)
    (.bind hv.variable_passes (.bind (.hook (hv.calm.leaveVariable _ id false)) .pure)))

theorem visitGenerics : Passes s s (v.visitGenerics m) () := by
  unfold Visitor.visitGenerics
  refine .bind .store (.loop fun ⟨name, id⟩ _ => .bind .store ?_)
  split
  · exact .pure
  · exact .bind (hv.visitFunction id) .pure

theorem visitFunctions : Passes s s (v.visitFunctions m) () := by
  unfold Visitor.visitFunctions
  refine .bind .store (.loop fun ⟨name, id⟩ _ => .bind .store ?_)
  split
  · exact .pure
  · exact .bind .store (.bind (.hook (hv.calm.allows _)) (.bind (hv.visitFunction id) .pure))

/-- A visit of a module puts back everything that it takes off. -/
theorem visitModule (s : Store) (m : ModuleId) (withGenerics : Bool) :
    Passes s s (v.visitModule m withGenerics) () := by
  have notice (n : Notice) : Passes s s (v.notice n) () := .hook (hv.calm.notice n)
  have functions (name : String) :
      Passes s s (do v.visitFunctions m; v.notice (.programEnd name)) () :=
    .bind hv.visitFunctions (notice _)
  unfold Visitor.visitModule
  refine .bind .store (.bind (notice _) (.bind hv.visitEnumerations (.bind hv.visitStructs
    (.bind hv.visitAliases (.bind (notice _) (.bind (notice _) (.bind hv.visitGlobals
      (.bind (notice _) ?_))))))))
  cases withGenerics with
  | false => exact functions _
  | true => exact .bind hv.visitGenerics (functions _)

end Modules

/-- Traversal is lossless. By a visitor that keeps everything, a visit of a tree keeps the tree and
the store that it is in, a visit of a module keeps the program, and a walk of a program, with
generics or without, does no more than drop what nothing owned before. -/
theorem lossless :
    (∀ (s : Store) (user : σ) (e : Expr),
      ∃ user', (v.visit e).run ⟨s, user⟩ = .ok ((.keep, e), ⟨s, user'⟩)) ∧
    (∀ (p : Program) (user : σ) (withGenerics : Bool),
      ∃ user', (Program.visiting user (v.visitModule p.this withGenerics)).run p =
        .ok (((), user'), p)) ∧
    ∀ (p : Program) (user : σ) (withGenerics : Bool),
      ∃ user', (Program.walk v user withGenerics).run p = .ok (user', p.collect) ∧
        (p.Settled → p.collect = p) := by
  refine ⟨fun s user e => ?_, fun p user withGenerics => ?_, fun p user withGenerics => ?_⟩
  · obtain ⟨_, ⟨_, user'⟩, hrun, rfl, rfl⟩ := hv.visit s e ⟨s, user⟩ rfl
    exact ⟨user', hrun⟩
  · obtain ⟨_, ⟨_, user'⟩, hrun, -, rfl⟩ :=
      hv.visitModule p.store p.this withGenerics ⟨p.store, user⟩ rfl
    refine ⟨user', ?_⟩
    simp only [Program.visiting, StateT.run_bind, StateT.run_get, pure_bind, hrun]
    rfl
  · have module := (hv.visitModule p.store p.this withGenerics ⟨p.store, user⟩ rfl).mono
      fun _ st' h => h.2
    obtain ⟨user', _, hrun, ⟨store, _⟩, rfl, -, rfl⟩ := Program.walk_ends module
    exact ⟨user', hrun, Program.Settled.collect_eq⟩

end Visitor.Keeps

namespace Visitor

def nodeCounter : Visitor Nat where
  enter e := do
    VisitM.modifyUser (· + 1)
    return e

theorem nodeCounter_keeps : nodeCounter.Keeps := by
  refine ⟨⟨fun _ => rfl, fun h h' => h'.trans h, ?_, ?_, ?_, ?_, ?_, ?_, ?_, ?_, ?_, ?_, ?_, ?_, ?_⟩,
    fun _ _ => ⟨_, rfl, rfl⟩, fun _ st => ⟨st, rfl, rfl⟩⟩
  all_goals
    intros
    exact fun st => ⟨st, rfl, rfl⟩

def declareAndReturn : Expr :=
  let x := Expr.ofNode .builtin (.var { name := "x", var? := some ⟨0⟩ })
  .ofNode .builtin (.block {}
    [.ofNode .builtin (.declare [⟨0⟩] false), .ofNode .builtin (.ret (some x) false false)] [])

def mainOf (body : Expr) (x : Variable) : Program where
  store :=
    { functions := ⟨#[some { name := "main", body := some body }]⟩
      vars := ⟨#[some x]⟩
      modules := ⟨#[some { name := "", functions := .ofList [("@main", ⟨0⟩)] }]⟩ }
  library := [⟨0⟩]
  this := ⟨0⟩

def declaring : Program :=
  mainOf declareAndReturn
    { name := "x", type := .blank, init := some (.ofNode .builtin (.literal .null)) }

theorem lossless_declaring : nodeCounter.Keeps ∧ declaring.Settled ∧
    ∃ count, (Program.walk nodeCounter 0 true).run declaring = .ok (count, declaring) := by
  have settled : declaring.Settled := by
    unfold Program.Settled Store.Settled
    decide
  obtain ⟨count, hrun, hsame⟩ := (Keeps.lossless nodeCounter_keeps).2.2 declaring 0 true
  rw [hsame settled] at hrun
  exact ⟨nodeCounter_keeps, settled, count, hrun⟩

end Visitor

end Frontend
