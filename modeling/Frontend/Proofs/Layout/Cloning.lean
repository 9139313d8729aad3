import Frontend.Proofs.Layout.Staying

/-!
# Which types say whether they can be cloned

Unlike the other queries, whether values can be cloned is asked of the elements of arrays and tables
too, so that no structure contains itself by value is not enough for an answer. The types are asked
one after the other up to the first no. A type has an answer exactly if no structure that is asked
on the way comes to be asked again on its own account, and no number of steps is enough otherwise.
-/

namespace Frontend.Store

open Relation

variable {s : Store} {t : Ty} {ts : List Ty} {id a b : StructId} {steps : Nat}

def clonedParts (t : Ty) : List Ty :=
  match t.base with
  | .tuple | .variant => t.args
  | .array | .table => t.nested
  | _ => []

theorem nested_of_clonedParts {u : Ty} (h : u ∈ clonedParts t) : u ∈ t.nested := by
  unfold clonedParts at h
  split at h
  · exact Ty.mem_nested_of_args h
  · exact Ty.mem_nested_of_args h
  · exact h
  · exact h
  · cases h

/-- Values of the type can be cloned: by its base, or because all that it is made of can be. -/
inductive Clones (s : Store) : Ty → Prop
  | base {t : Ty} (h : CopyQuery.clone.base? t.base = some true) : Clones s t
  | struct {t : Ty} {id : StructId} {x : Struct} (h : t.base = .struct)
    (live : s.liveStruct? t = some id) (hx : s.struct? id = some x)
    (fields : ∀ f ∈ x.fields, Clones s f.type) : Clones s t
  | parts {t : Ty} (h : CopyQuery.clone.base? t.base = none) (apart : t.base ≠ .struct)
    (parts : ∀ u ∈ clonedParts t, Clones s u) : Clones s t

def StructClones (s : Store) (id : StructId) : Prop :=
  ∃ x, s.struct? id = some x ∧ ∀ f ∈ x.fields, s.Clones f.type

/-- The types come to ask a structure: the one behind a type, or one that its parts come to, once
all types before it have said yes. -/
inductive AsksFor (s : Store) : List Ty → StructId → Prop
  | struct {t : Ty} {ts : List Ty} {id : StructId} (h : t.base = .struct)
    (live : s.liveStruct? t = some id) : AsksFor s (t :: ts) id
  | parts {t : Ty} {ts : List Ty} {id : StructId} (h : AsksFor s (clonedParts t) id) :
    AsksFor s (t :: ts) id
  | later {t : Ty} {ts : List Ty} {id : StructId} (yes : s.Clones t) (h : AsksFor s ts id) :
    AsksFor s (t :: ts) id

def Asks (s : Store) (a b : StructId) : Prop :=
  ∃ x, s.struct? a = some x ∧ s.AsksFor (x.fields.map (·.type)) b

section Types

variable {ofStruct : CopyQuery → StructId → Except Fault Bool}

theorem not_asksFor_nil : ¬ s.AsksFor [] id := fun h => by cases h

theorem asksFor_cons :
    s.AsksFor (t :: ts) id ↔ s.AsksFor [t] id ∨ s.Clones t ∧ s.AsksFor ts id := by
  constructor
  · intro h
    cases h with
    | struct h live => exact .inl (.struct h live)
    | parts h => exact .inl (.parts h)
    | later yes h => exact .inr ⟨yes, h⟩
  · rintro (h | ⟨yes, h⟩)
    · cases h with
      | struct h live => exact .struct h live
      | parts h => exact .parts h
      | later _ h => exact absurd h not_asksFor_nil
    · exact .later yes h

theorem copyAllWith_append {q : CopyQuery} {us : List Ty} :
    s.copyAllWith ofStruct q (ts ++ us) = (do
      if ← s.copyAllWith ofStruct q ts then s.copyAllWith ofStruct q us else return false) := by
  induction ts with
  | nil => rfl
  | cons t ts ih =>
    rw [List.cons_append, copyAllWith, copyAllWith, ih, bind_assoc]
    congr 1
    funext answer
    cases answer <;> rfl

theorem copyOptionWith_eq {q : CopyQuery} (o : Option Ty) :
    s.copyOptionWith ofStruct q o = s.copyAllWith ofStruct q o.toList := by
  cases o with
  | none => rfl
  | some t =>
    simp only [Option.toList_some, copyAllWith, copyOptionWith]
    cases s.copyWith ofStruct q t with
    | error fault => rfl
    | ok answer => cases answer <;> rfl

/-- A base answers by itself, a structure behind a type is asked, and any other type asks its
parts. -/
theorem copyWith_clone (s : Store) (ofStruct : CopyQuery → StructId → Except Fault Bool) (t : Ty) :
    (∃ answer, CopyQuery.clone.base? t.base = some answer ∧
      s.copyWith ofStruct .clone t = .ok answer) ∨
    (t.base = .struct ∧ s.copyWith ofStruct .clone t =
      match s.liveStruct? t with
      | some id => ofStruct .clone id
      | none => .ok false) ∨
    (CopyQuery.clone.base? t.base = none ∧ t.base ≠ .struct ∧
      s.copyWith ofStruct .clone t = s.copyAllWith ofStruct .clone (clonedParts t)) := by
  have nested : (do
      if ← s.copyOptionWith ofStruct .clone t.first then
        if ← s.copyOptionWith ofStruct .clone t.second then s.copyAllWith ofStruct .clone t.args
        else return false
      else return false) = s.copyAllWith ofStruct .clone t.nested := by
    rw [Ty.nested, copyAllWith_append, copyAllWith_append, bind_assoc, copyOptionWith_eq,
      copyOptionWith_eq]
    congr 1
    funext answer
    cases answer <;> rfl
  rw [copyWith_eq]
  unfold clonedParts
  cases h : t.base
  case struct => exact .inr (.inl ⟨rfl, rfl⟩)
  case tuple | variant => exact .inr (.inr ⟨rfl, by simp, rfl⟩)
  case array | table => exact .inr (.inr ⟨rfl, by simp, nested⟩)
  all_goals exact .inl ⟨_, rfl, rfl⟩

section Answering

def TellsClones (s : Store) (ofStruct : CopyQuery → StructId → Except Fault Bool) : Prop :=
  ∀ id answer, ofStruct .clone id = .ok answer → (answer = true ↔ s.StructClones id)

variable (tells : s.TellsClones ofStruct)

theorem clones_iff_of_parts {answer : Bool} (h : CopyQuery.clone.base? t.base = none)
    (apart : t.base ≠ .struct) (hall : answer = true ↔ ∀ u ∈ clonedParts t, s.Clones u) :
    answer = true ↔ s.Clones t := by
  rw [hall]
  constructor
  · exact .parts h apart
  · intro clones
    cases clones with
    | base yes =>
      rw [h] at yes
      cases yes
    | struct base => exact absurd base apart
    | parts _ _ parts => exact parts

theorem clones_of_copyAllWith {answer : Bool}
    (each : ∀ t ∈ ts, ∀ answer, s.copyWith ofStruct .clone t = .ok answer →
      (answer = true ↔ s.Clones t))
    (h : s.copyAllWith ofStruct .clone ts = .ok answer) :
    answer = true ↔ ∀ t ∈ ts, s.Clones t := by
  induction ts generalizing answer with
  | nil =>
    cases h
    simp
  | cons t ts ih =>
    obtain ⟨ht, hts⟩ := List.forall_mem_cons.1 each
    rw [List.forall_mem_cons]
    unfold copyAllWith at h
    cases first : s.copyWith ofStruct .clone t with
    | error fault =>
      rw [first] at h
      cases h
    | ok yes =>
      rw [first] at h
      rw [← ht yes first]
      cases yes with
      | false =>
        cases h
        simp
      | true => simpa using ih hts h

include tells in
/-- An answer for a type is right if those for structures are. -/
theorem clones_of_copyWith {answer : Bool} (h : s.copyWith ofStruct .clone t = .ok answer) :
    answer = true ↔ s.Clones t := by
  induction t using Ty.induction_nested generalizing answer with
  | step t ih =>
    obtain ⟨yes, base, run⟩ | ⟨base, run⟩ | ⟨base, apart, run⟩ := s.copyWith_clone ofStruct t
    · rw [run] at h
      cases h
      constructor
      · rintro rfl
        exact .base base
      · intro clones
        cases clones with
        | base yes =>
          rw [base] at yes
          exact Option.some.inj yes
        | struct isStruct =>
          rw [isStruct] at base
          cases base
        | parts none =>
          rw [none] at base
          cases base
    · rw [run] at h
      have clones_iff : s.Clones t ↔ ∃ id, s.liveStruct? t = some id ∧ s.StructClones id := by
        constructor
        · intro clones
          cases clones with
          | base yes =>
            rw [base] at yes
            cases yes
          | struct _ live hx fields => exact ⟨_, live, _, hx, fields⟩
          | parts _ apart => exact absurd base apart
        · rintro ⟨id, live, x, hx, fields⟩
          exact .struct base live hx fields
      rw [clones_iff]
      cases live : s.liveStruct? t with
      | none =>
        rw [live] at h
        cases h
        simp
      | some id =>
        rw [live] at h
        simpa using tells id answer h
    · rw [run] at h
      apply clones_iff_of_parts base apart
      exact clones_of_copyAllWith (fun u hu answer => ih u (nested_of_clonedParts hu)) h

include tells in
theorem answers_copyAll_clone
    (each : ∀ t ∈ ts, (Answers (s.copyWith ofStruct .clone t) ↔
      ∀ id, s.AsksFor [t] id → Answers (ofStruct .clone id))) :
    Answers (s.copyAllWith ofStruct .clone ts) ↔
      ∀ id, s.AsksFor ts id → Answers (ofStruct .clone id) := by
  induction ts with
  | nil => exact iff_of_true (answers_ok true) fun _ h => absurd h not_asksFor_nil
  | cons t ts ih =>
    obtain ⟨ht, hts⟩ := List.forall_mem_cons.1 each
    rw [copyAllWith, answers_bind]
    constructor
    · rintro ⟨answer, first, rest⟩ id h
      rcases asksFor_cons.1 h with h | ⟨yes, h⟩
      · exact ht.1 ⟨answer, first⟩ id h
      · obtain rfl := (clones_of_copyWith tells first).2 yes
        exact (ih hts).1 rest id h
    · intro h
      obtain ⟨answer, first⟩ := ht.2 fun id hid => h id (asksFor_cons.2 (.inl hid))
      refine ⟨answer, first, ?_⟩
      cases answer with
      | false => exact answers_ok false
      | true =>
        have yes := (clones_of_copyWith tells first).1 rfl
        exact (ih hts).2 fun id hid => h id (.later yes hid)

include tells in
/-- A type has an answer exactly if the structures have one that it comes to ask. -/
theorem answers_copy_clone (t : Ty) : Answers (s.copyWith ofStruct .clone t) ↔
    ∀ id, s.AsksFor [t] id → Answers (ofStruct .clone id) := by
  induction t using Ty.induction_nested with
  | step t ih =>
    obtain ⟨yes, base, run⟩ | ⟨base, run⟩ | ⟨base, apart, run⟩ := s.copyWith_clone ofStruct t
    · rw [run]
      refine iff_of_true (answers_ok yes) fun id h => ?_
      cases h with
      | struct isStruct =>
        rw [isStruct] at base
        cases base
      | parts h =>
        unfold clonedParts at h
        cases hbase : t.base <;> rw [hbase] at base h
        case tuple | variant | array | table => cases base
        all_goals exact absurd h not_asksFor_nil
      | later _ h => exact absurd h not_asksFor_nil
    · rw [run]
      have asks (id : StructId) : s.AsksFor [t] id ↔ s.liveStruct? t = some id := by
        constructor
        · intro h
          cases h with
          | struct _ live => exact live
          | parts h =>
            unfold clonedParts at h
            rw [base] at h
            exact absurd h not_asksFor_nil
          | later _ h => exact absurd h not_asksFor_nil
        · exact .struct base
      simp only [asks]
      cases s.liveStruct? t with
      | none => exact iff_of_true (answers_ok false) nofun
      | some id => simp
    · rw [run, answers_copyAll_clone tells fun u hu => ih u (nested_of_clonedParts hu)]
      refine forall_congr' fun id => ⟨fun h hid => ?_, fun h hid => h (.parts hid)⟩
      cases hid with
      | struct isStruct => exact absurd isStruct apart
      | parts hid => exact h hid
      | later _ hid => exact absurd hid not_asksFor_nil

end Answering

def AnswersOrEndless {α : Type} (m : Except Fault α) : Prop := Answers m ∨ m = .error .endless

theorem answersOrEndless_copyAll
    (each : ∀ t ∈ ts, AnswersOrEndless (s.copyWith ofStruct .clone t)) :
    AnswersOrEndless (s.copyAllWith ofStruct .clone ts) := by
  induction ts with
  | nil => exact .inl (answers_ok true)
  | cons t ts ih =>
    obtain ⟨ht, hts⟩ := List.forall_mem_cons.1 each
    unfold copyAllWith
    rcases ht with ⟨answer, first⟩ | first
    · rw [first]
      cases answer with
      | false => exact .inl (answers_ok false)
      | true => exact ih hts
    · rw [first]
      exact .inr rfl

theorem answersOrEndless_copy (h : ∀ id, AnswersOrEndless (ofStruct .clone id)) (t : Ty) :
    AnswersOrEndless (s.copyWith ofStruct .clone t) := by
  induction t using Ty.induction_nested with
  | step t ih =>
    obtain ⟨yes, base, run⟩ | ⟨base, run⟩ | ⟨base, apart, run⟩ := s.copyWith_clone ofStruct t
    · rw [run]
      exact .inl (answers_ok yes)
    · rw [run]
      cases s.liveStruct? t with
      | none => exact .inl (answers_ok false)
      | some id => exact h id
    · rw [run]
      exact answersOrEndless_copyAll fun u hu => ih u (nested_of_clonedParts hu)

end Types

section Structures

theorem tellsClones_structCopyIn (s : Store) (steps : Nat) :
    s.TellsClones (s.structCopyIn steps) := by
  induction steps with
  | zero => exact fun id answer h => by cases h
  | succ steps ih =>
    intro id answer h
    unfold structCopyIn at h
    unfold StructClones
    cases hx : s.struct? id with
    | none =>
      rw [hx] at h
      cases h
      simp
    | some x =>
      rw [hx] at h
      rw [clones_of_copyAllWith (fun t _ answer => clones_of_copyWith ih) h]
      simp

theorem answersOrEndless_structCopyIn (s : Store) (steps : Nat) (id : StructId) :
    AnswersOrEndless (s.structCopyIn steps .clone id) := by
  induction steps generalizing id with
  | zero => exact .inr rfl
  | succ steps ih =>
    unfold structCopyIn
    cases s.struct? id with
    | none => exact .inl (answers_ok false)
    | some x => exact answersOrEndless_copyAll fun t _ => answersOrEndless_copy ih t

/-- The steps that are needed are those of the longest walk along what structures ask. -/
theorem answers_structClone_iff :
    Answers (s.structCopyIn steps .clone a) ↔ WalksEnd s.Asks steps a := by
  induction steps generalizing a with
  | zero => exact iff_of_false (fun ⟨_, h⟩ => by cases h) id
  | succ steps ih =>
    unfold structCopyIn
    cases hx : s.struct? a with
    | none =>
      refine iff_of_true (answers_ok false) ?_
      rintro b ⟨x, hx', -⟩
      rw [hx] at hx'
      cases hx'
    | some x =>
      have tells := s.tellsClones_structCopyIn steps
      dsimp only
      rw [answers_copyAll_clone tells fun t _ => answers_copy_clone tells t]
      simp only [ih]
      constructor
      · rintro h b ⟨y, hy, hb⟩
        rw [hx] at hy
        cases hy
        exact h b hb
      · exact fun h b hb => h b ⟨x, hx, hb⟩

theorem not_loops_asks_iff : ¬ Loops s.Asks a ↔ Answers (s.structCopy .clone a) := by
  have starts (a b : StructId) (h : s.Asks a b) : a ∈ s.structs.ids := by
    obtain ⟨x, hx, -⟩ := h
    exact Table.mem_ids_of_get? hx
  rw [structCopy, answers_structClone_iff, structSteps, ← Table.length_ids]
  exact ⟨walksEnd_of_not_loops starts, fun h loops => loops.not_walksEnd _ h⟩

theorem answers_typeClone :
    Answers (s.typeCopy .clone t) ↔ ∀ id, s.AsksFor [t] id → ¬ Loops s.Asks id := by
  have tells : s.TellsClones s.structCopy := s.tellsClones_structCopyIn s.structSteps
  rw [typeCopy, answers_copy_clone tells]
  exact forall₂_congr fun id _ => not_loops_asks_iff.symm

/-- Whether values of a type can be cloned is answered, and rightly, exactly if no structure that is
asked on the way comes to one that asks itself, and else no number of steps is enough. So all types
and structures have answers exactly if no structure comes to ask itself. -/
theorem clone_answers_iff (s : Store) :
    (∀ t, (Answers (s.typeCopy .clone t) ↔ ∀ id, s.AsksFor [t] id → ¬ Loops s.Asks id) ∧
      (∀ id, s.AsksFor [t] id → Loops s.Asks id → ∀ steps,
        s.copyWith (s.structCopyIn steps) .clone t = .error .endless) ∧
      ∀ answer, s.typeCopy .clone t = .ok answer → (answer = true ↔ s.Clones t)) ∧
    (∀ a, (Answers (s.structCopy .clone a) ↔ ¬ Loops s.Asks a) ∧
      (Loops s.Asks a → ∀ steps, s.structCopyIn steps .clone a = .error .endless) ∧
      ∀ answer, s.structCopy .clone a = .ok answer → (answer = true ↔ s.StructClones a)) ∧
    ((∀ t, Answers (s.typeCopy .clone t)) ∧ (∀ a, Answers (s.structCopy .clone a)) ↔
      ∀ a, ¬ TransGen s.Asks a a) := by
  have tells (steps : Nat) : s.TellsClones (s.structCopyIn steps) :=
    s.tellsClones_structCopyIn steps
  refine ⟨fun t => ⟨answers_typeClone, fun id asked loops steps => ?_, fun answer h => ?_⟩,
    fun a => ⟨not_loops_asks_iff.symm, fun loops steps => ?_, fun answer h => ?_⟩, ?_⟩
  · rcases answersOrEndless_copy (s.answersOrEndless_structCopyIn steps) t with answers | endless
    · have := (answers_copy_clone (tells steps) t).1 answers id asked
      exact absurd (answers_structClone_iff.1 this) (loops.not_walksEnd steps)
    · exact endless
  · exact clones_of_copyWith (tells s.structSteps) h
  · rcases s.answersOrEndless_structCopyIn steps a with answers | endless
    · exact absurd (answers_structClone_iff.1 answers) (loops.not_walksEnd steps)
    · exact endless
  · exact tells s.structSteps a answer h
  · constructor
    · intro ⟨_, structs⟩ a cycle
      exact not_loops_asks_iff.2 (structs a) ⟨a, .refl, cycle⟩
    · intro acyclic
      exact ⟨fun t => answers_typeClone.2 fun id _ => not_loops acyclic,
        fun a => not_loops_asks_iff.1 (not_loops acyclic)⟩

/-- A structure with an array of its own kind. -/
def node : Struct where
  name := "Node"
  fields := [{ name := "children", type := .array (.struct ⟨0⟩) }]

def treeNode : Store where
  structs := ⟨#[some node]⟩

/-- A tree node does not contain itself by value and has a size, and whether it can be copied or
moved is answered. Whether it can be cloned is not, in any number of steps. -/
theorem clone_endless_treeNode : (∀ a, ¬ TransGen treeNode.Holds a a) ∧
    treeNode.structSize ⟨0⟩ = .ok 24 ∧ treeNode.structCopy .copy ⟨0⟩ = .ok false ∧
    treeNode.structCopy .move ⟨0⟩ = .ok true ∧
    ∀ steps, treeNode.structCopyIn steps .clone ⟨0⟩ = .error .endless ∧
      treeNode.copyWith (treeNode.structCopyIn steps) .clone (.struct ⟨0⟩) = .error .endless := by
  have endless (steps : Nat) : treeNode.structCopyIn steps .clone ⟨0⟩ = .error .endless := by
    induction steps with
    | zero => rfl
    | succ steps ih =>
      change (do
        if ← treeNode.copyWith (treeNode.structCopyIn steps) .clone (.array (.struct ⟨0⟩)) then
          pure true
        else return false) = (.error .endless : Except Fault Bool)
      have field : treeNode.copyWith (treeNode.structCopyIn steps) .clone (.array (.struct ⟨0⟩)) =
          (do
            if ← treeNode.structCopyIn steps .clone ⟨0⟩ then return true else return false) := by
        generalize treeNode.structCopyIn steps = ofStruct
        rw [copyWith_eq]
        rfl
      rw [field, ih]
      rfl
  refine ⟨fun a cycle => ?_, by rfl, by rfl, by rfl, fun steps => ⟨endless steps, endless steps⟩⟩
  obtain ⟨b, ⟨x, hx, f, hf, hb⟩, -⟩ := TransGen.head'_iff.1 cycle
  -- An array holds no structure by value, whatever its elements are.
  have only : x = node := by
    obtain ⟨_ | i⟩ := a
    · exact (Option.some.inj hx).symm
    · cases hx
  subst only
  obtain rfl := List.mem_singleton.1 hf
  rw [valueStructs_eq] at hb
  cases hb

end Structures

end Frontend.Store
