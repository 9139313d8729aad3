import Frontend.Proofs.Registration.Stamping

/-!
# What a refused registration leaves behind

A module refuses a declaration whose name is taken. All but functions are refused before anything is
written. A function is stamped first, because its name tells its module, and keeps the stamp when it
is refused. So the store is as before exactly if the function bore the name of the module already.
The stamp is all that is left: modules file functions by signature, which stamps do not enter, so
whatever is added afterwards meets the same answers as without the refused function.
-/

namespace Frontend

def Function.unstamped (f : Function) : Function := { f with module? := none }

namespace Store

variable {s t : Store} {m : ModuleId} {id : FunctionId}

inductive Registration where
  | function (shelf : Shelf) (id : FunctionId)
  | global (id : VarId)
  | struct (id : StructId)
  | enumeration (id : EnumId)
  | typeAlias (t : Ty)
  | annot (a : Annot)
  | call (name : String) (factory : CallFactory)

namespace Registration

def run (s : Store) (m : ModuleId) : Registration → Bool × Store
  | function shelf id => s.registerOn shelf m id
  | global id => s.registerVariable m id
  | struct id => s.registerStruct m id
  | enumeration id => s.registerEnumeration m id
  | typeAlias t => s.registerAlias m t
  | annot a => s.registerAnnot m a
  | call name factory => s.registerCall m name factory

def marked (s : Store) (m : ModuleId) : Registration → Store
  | function _ id => s.modifyFunction id (·.stamped (s.module m).name)
  | _ => s

/-- The function, if it is one that is added, bears the name of the module. -/
def Bears (s : Store) (m : ModuleId) : Registration → Prop
  | function _ id => ∀ f, s.function? id = some f → f.module? = some (s.module m).name
  | _ => True

end Registration

theorem registerOn_refused {shelf : Shelf} (h : (s.registerOn shelf m id).1 = false) :
    (s.registerOn shelf m id).2 = s.modifyFunction id (·.stamped (s.module m).name) := by
  cases hfind : (shelf.of (s.module m)).find? (s.nameIn (s.module m).name id) with
  | some other => rw [registerOn_of_taken rfl hfind]
  | none =>
    rw [registerOn_of_free rfl hfind] at h
    cases h

/-- A refused registration stamps a function, and does nothing else. -/
theorem Registration.run_refused {c : Registration} (h : (c.run s m).1 = false) :
    (c.run s m).2 = c.marked s m := by
  cases c with
  | function shelf id => exact registerOn_refused h
  | _ =>
    revert h
    simp only [run, registerVariable, registerStruct, registerEnumeration, registerAlias,
      registerAnnot, registerCall]
    split
    · exact fun _ => rfl
    · exact nofun

theorem modifyFunction_stamped_eq_self_iff {module : String} :
    s.modifyFunction id (·.stamped module) = s ↔
      ∀ f, s.function? id = some f → f.module? = some module := by
  constructor
  · intro h f hf
    have hid : (s.modifyFunction id (·.stamped module)).function? id =
        (s.function? id).map (·.stamped module) := by rw [function?_modifyFunction, if_pos rfl]
    rw [h, hf, Option.map_some, Option.some.injEq] at hid
    rw [hid]
    rfl
  · intro h
    have hself : s.functions.modify id (·.stamped module) = s.functions :=
      Table.modify_eq_self fun f hf => by rw [Function.stamped, ← h f hf]
    rw [modifyFunction, hself]

theorem Registration.marked_eq_self_iff {c : Registration} : c.marked s m = s ↔ c.Bears s m := by
  cases c with
  | function shelf id => exact modifyFunction_stamped_eq_self_iff
  | _ => exact iff_of_true rfl trivial

/-- No registration but that of a function reads or writes the functions of the store. -/
theorem Registration.run_setFunctions {c : Registration}
    (hc : ∀ shelf id, c ≠ .function shelf id) (functions : Table .function Function) :
    c.run { s with functions } m = ((c.run s m).1, { (c.run s m).2 with functions }) ∧
      (c.run s m).2.functions = s.functions := by
  cases c with
  | function shelf id => exact absurd rfl (hc shelf id)
  | _ =>
    dsimp +instances only [run, registerVariable, registerStruct, registerEnumeration, registerAlias,
      registerAnnot, registerCall, module, module?, var, struct?, enumeration?]
    generalize NameMap.contains _ _ = taken
    cases taken <;> exact ⟨rfl, rfl⟩

def SameButStamps (s t : Store) : Prop :=
  ∃ functions, s.functions.Agree (fun f g => f.unstamped = g.unstamped) functions ∧
    t = { s with functions }

namespace SameButStamps

variable {u : Store}

theorem refl (s : Store) : s.SameButStamps s := ⟨s.functions, .refl (fun f => Eq.refl f.unstamped) _, rfl⟩

theorem symm (h : s.SameButStamps t) : t.SameButStamps s := by
  obtain ⟨functions, hf, rfl⟩ := h
  exact ⟨s.functions, hf.symm fun _ _ => Eq.symm, rfl⟩

theorem trans (h : s.SameButStamps t) (h' : t.SameButStamps u) : s.SameButStamps u := by
  obtain ⟨functions, hf, rfl⟩ := h
  obtain ⟨functions', hf', rfl⟩ := h'
  exact ⟨functions', hf.trans (fun _ _ _ => Eq.trans) hf', rfl⟩

theorem modifyFunction (s : Store) (id : FunctionId) (module : String) :
    s.SameButStamps (s.modifyFunction id (·.stamped module)) := by
  have hrefl : s.functions.Agree (fun f g => f.unstamped = g.unstamped) s.functions :=
    .refl (fun f => Eq.refl f.unstamped) _
  exact ⟨_, hrefl.modify (g := (·.stamped module)) (fun _ _ hg => hg) id, rfl⟩

theorem modifyModule (h : s.SameButStamps t) (m : ModuleId) (g : Module → Module) :
    (s.modifyModule m g).SameButStamps (t.modifyModule m g) := by
  obtain ⟨functions, hf, rfl⟩ := h
  exact ⟨functions, hf, rfl⟩

theorem module (h : s.SameButStamps t) (m : ModuleId) : t.module m = s.module m := by
  obtain ⟨functions, -, rfl⟩ := h
  rfl

/-- The name that a function has in a module does not depend on stamps. -/
theorem nameIn (h : s.SameButStamps t) (module : String) (id : FunctionId) :
    t.nameIn module id = s.nameIn module id := by
  obtain ⟨functions, hf, rfl⟩ := h
  have hd : s.SameDeclarations { s with functions } := ⟨rfl, rfl, rfl, rfl⟩
  unfold Store.nameIn
  rw [Store.function?, Store.function?]
  have hsignature (f g : Function) (hg : f.unstamped = g.unstamped) : s.signature g = s.signature f :=
    (congrArg s.signature hg).symm
  simp only [hd.signature]
  rw [hf.map_get? (fun f g hg => by rw [hsignature f g hg]) id]

theorem registerOn (h : s.SameButStamps t) (shelf : Shelf) (m : ModuleId) (id : FunctionId) :
    (t.registerOn shelf m id).1 = (s.registerOn shelf m id).1 ∧
      (s.registerOn shelf m id).2.SameButStamps (t.registerOn shelf m id).2 := by
  have hname := h.nameIn (s.module m).name id
  have hmark := ((modifyFunction s id (s.module m).name).symm.trans h).trans
    (modifyFunction t id (s.module m).name)
  cases hfind : (shelf.of (s.module m)).find? (s.nameIn (s.module m).name id) with
  | some other =>
    rw [registerOn_of_taken rfl hfind, registerOn_of_taken (h.module m) (hname ▸ hfind)]
    exact ⟨rfl, hmark⟩
  | none =>
    rw [registerOn_of_free rfl hfind, registerOn_of_free (h.module m) (hname ▸ hfind), hname]
    exact ⟨rfl, hmark.modifyModule m _⟩

/-- Stores that differ in stamps give one answer, and differ in stamps afterwards. -/
theorem run (h : s.SameButStamps t) (m : ModuleId) (c : Registration) :
    (c.run t m).1 = (c.run s m).1 ∧ (c.run s m).2.SameButStamps (c.run t m).2 := by
  by_cases hc : ∃ shelf id, c = .function shelf id
  · obtain ⟨shelf, id, rfl⟩ := hc
    exact h.registerOn shelf m id
  · obtain ⟨functions, hf, rfl⟩ := h
    obtain ⟨hrun, hfunctions⟩ := Registration.run_setFunctions (s := s) (m := m)
      (fun shelf id he => hc ⟨shelf, id, he⟩) functions
    rw [hrun]
    exact ⟨rfl, functions, hfunctions ▸ hf, rfl⟩

end SameButStamps

/-- Adds one declaration after the other, each to its module, and gives the answers. -/
def runAll (s : Store) : List (ModuleId × Registration) → List Bool × Store
  | [] => ([], s)
  | (m, c) :: calls =>
    ((c.run s m).1 :: (runAll (c.run s m).2 calls).1, (runAll (c.run s m).2 calls).2)

theorem SameButStamps.runAll (h : s.SameButStamps t) (calls : List (ModuleId × Registration)) :
    (t.runAll calls).1 = (s.runAll calls).1 ∧ (s.runAll calls).2.SameButStamps (t.runAll calls).2 := by
  induction calls generalizing s t with
  | nil => exact ⟨rfl, h⟩
  | cons call calls ih =>
    obtain ⟨m, c⟩ := call
    obtain ⟨hanswer, hrun⟩ := h.run m c
    obtain ⟨hanswers, hrest⟩ := ih hrun
    exact ⟨by rw [Store.runAll, Store.runAll, hanswer, hanswers], hrest⟩

/-- A registration that is refused at any point of a history leaves the store as it was up to the
stamp of a function. It leaves everything as it was exactly if it was for no function or for one
that bore the name of the module. What comes later is answered and done as if it had not been tried.
-/
theorem refused_unchanged_iff (start : Store) (before after : List (ModuleId × Registration))
    (m : ModuleId) (c : Registration) (h : (c.run (start.runAll before).2 m).1 = false) :
    let s := (start.runAll before).2
    let t := (c.run s m).2
    t = c.marked s m ∧ (t = s ↔ c.Bears s m) ∧ (t.runAll after).1 = (s.runAll after).1 ∧
      (s.runAll after).2.SameButStamps (t.runAll after).2 := by
  intro s t
  have ht : t = c.marked s m := Registration.run_refused h
  have hsame : s.SameButStamps t := by
    rw [ht]
    cases c with
    | function shelf id => exact .modifyFunction s id _
    | _ => exact .refl s
  exact ⟨ht, by rw [ht, Registration.marked_eq_self_iff], hsame.runAll after⟩

def rivals : Store where
  functions := { slots := #[some { name := "f" }, some { name := "f" }] }
  modules := { slots := #[some { name := "m" }, some { name := "n" }] }

def rivalsAdded : List (ModuleId × Registration) :=
  [(⟨0⟩, .function .functions ⟨0⟩), (⟨1⟩, .function .functions ⟨1⟩)]

/-- The other module refuses a function that has its place already. The store is not as before, but
later registrations are answered as before. -/
theorem refused_unchanged_iff_rivals :
    let s := (rivals.runAll rivalsAdded).2
    let c := Registration.function .functions ⟨0⟩
    (c.run s ⟨1⟩).1 = false ∧ (c.run s ⟨1⟩).2 ≠ s ∧
      ((c.run s ⟨1⟩).2.runAll rivalsAdded).1 = (s.runAll rivalsAdded).1 := by
  have hrefused : ((Registration.function .functions ⟨0⟩).run
    (rivals.runAll rivalsAdded).2 ⟨1⟩).1 = false := by decide +kernel
  obtain ⟨-, hiff, hanswers, -⟩ := refused_unchanged_iff rivals rivalsAdded rivalsAdded ⟨1⟩ _ hrefused
  refine ⟨hrefused, fun he => ?_, hanswers⟩
  exact absurd (hiff.1 he _ rfl) (by decide +kernel)

/-- The refused function is taken for one of the other module, while its own module still files it
under its name there. -/
theorem refused_changes_rivals :
    let s := (rivals.runAll rivalsAdded).2
    let r := (Registration.function .functions ⟨0⟩).run s ⟨1⟩
    (rivals.runAll rivalsAdded).1 = [true, true] ∧ r.1 = false ∧
      (s.function? ⟨0⟩).map s.mangledFunction = some "@m::f" ∧
      (r.2.function? ⟨0⟩).map r.2.mangledFunction = some "@n::f" ∧
      (r.2.module ⟨0⟩).functions.find? "@m::f" = some ⟨0⟩ := by
  decide +kernel

end Store

end Frontend
