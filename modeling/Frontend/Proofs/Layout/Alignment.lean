import Frontend.Proofs.Layout.Containment
import Frontend.Proofs.Traversal.Ends

/-!
# Alignments

The alignment of a structure is the greatest of those of its fields, and at least one. More steps
from structure to structure do not change an alignment that has a result.
-/

namespace Frontend

section Greatest

variable {a b : Nat} {aligns more : List Nat}

theorem isPowerOfTwo_max (ha : a.isPowerOfTwo) (hb : b.isPowerOfTwo) :
    (max a b).isPowerOfTwo := by
  rcases Nat.le_total a b with h | h
  · rwa [Nat.max_eq_right h]
  · rwa [Nat.max_eq_left h]

theorem maxAlign_cases (aligns : List Nat) :
    aligns = [] ∧ maxAlign aligns = 1 ∨ maxAlign aligns ∈ aligns := by
  unfold maxAlign
  cases hmax : aligns.max? with
  | none => exact .inl ⟨List.max?_eq_none_iff.1 hmax, rfl⟩
  | some align => exact .inr (List.max?_mem hmax)

theorem le_maxAlign (h : a ∈ aligns) : a ≤ maxAlign aligns := List.le_max?_getD_of_mem h

theorem isPowerOfTwo_maxAlign (h : ∀ a ∈ aligns, a.isPowerOfTwo) :
    (maxAlign aligns).isPowerOfTwo := by
  rcases maxAlign_cases aligns with ⟨-, hone⟩ | hmem
  · rw [hone]
    exact Nat.isPowerOfTwo_one
  · exact h _ hmem

theorem max_maxAlign_mono (h : aligns ⊆ more) :
    max (maxAlign aligns) 1 ≤ max (maxAlign more) 1 := by
  rcases maxAlign_cases aligns with ⟨-, hone⟩ | hmem
  · omega
  · have := le_maxAlign (h hmem)
    omega

end Greatest

namespace Store

variable {s : Store} {t : Ty} {ts : List Ty} {id : StructId} {x : Struct} {n steps more : Nat}
  {aligns : List Nat} {f g : StructId → Except Fault Nat}

def alignOf (s : Store) (t : Ty) : Nat := (s.typeAlign t).toOption.getD 1

def structAlignOf (s : Store) (id : StructId) : Nat := (s.structAlign id).toOption.getD 1

def ownMeasure {α : Type} (s : Store) (t : Ty) (native : Nat → Nat → Bool → α) (unbound : α) : α :=
  match (t.annot?.bind s.annot?).map Annot.kind with
  | some (.handled size align pod _) => native size align pod
  | _ => unbound

theorem annotMeasure_eq {α : Type} (s : Store) (t : Ty) (native : Nat → Nat → Bool → α)
    (ofStruct : StructId → Except Fault α) (unbound : α) :
    s.annotMeasure t native ofStruct unbound =
      match s.boundStruct? t with
      | some id => ofStruct id
      | none => .ok (s.ownMeasure t native unbound) := by
  unfold annotMeasure boundStruct? ownMeasure
  cases t.annot?.bind s.annot? with
  | none => rfl
  | some annot =>
    obtain ⟨name, kind, module?⟩ := annot
    cases kind with
    | structType requiresPod bound => cases bound <;> rfl
    | _ => rfl

theorem alignOf_of_ok (ht : s.typeAlign t = .ok n) : s.alignOf t = n := by
  rw [alignOf, ht]
  rfl

theorem structAlignOf_of_ok (hid : s.structAlign id = .ok n) : s.structAlignOf id = n := by
  rw [structAlignOf, hid]
  rfl

theorem eq_of_alignsWith (h : s.alignsWith s.structAlign ts = .ok aligns) :
    aligns = ts.map s.alignOf := by
  induction ts generalizing aligns with
  | nil =>
    cases h
    rfl
  | cons t ts ih =>
    obtain ⟨align, halign, h⟩ := ok_of_bind h
    obtain ⟨rest, hrest, h⟩ := ok_of_bind h
    cases h
    rw [ih hrest, List.map_cons, alignOf_of_ok halign]

section Steps

/-- The second answers as the first wherever that has a result. -/
def Refines (f g : StructId → Except Fault Nat) : Prop := ∀ id n, f id = .ok n → g id = .ok n

theorem Refines.annotMeasure {native : Nat → Nat → Bool → Nat} {unbound : Nat}
    (refines : Refines f g) (h : s.annotMeasure t native f unbound = .ok n) :
    s.annotMeasure t native g unbound = .ok n := by
  rw [annotMeasure_eq] at h ⊢
  cases bound : s.boundStruct? t with
  | none =>
    rw [bound] at h
    exact h
  | some id =>
    rw [bound] at h
    exact refines id n h

theorem alignsWith_refines
    (each : ∀ t ∈ ts, ∀ n, s.alignWith f t = .ok n → s.alignWith g t = .ok n)
    (h : s.alignsWith f ts = .ok aligns) : s.alignsWith g ts = .ok aligns := by
  induction ts generalizing aligns with
  | nil => exact h
  | cons t ts ih =>
    obtain ⟨ht, hts⟩ := List.forall_mem_cons.1 each
    obtain ⟨align, halign, h⟩ := ok_of_bind h
    obtain ⟨rest, hrest, h⟩ := ok_of_bind h
    rw [alignsWith, ht align halign, ih hts hrest]
    exact h

theorem Refines.alignWith (refines : Refines f g) (h : s.alignWith f t = .ok n) :
    s.alignWith g t = .ok n := by
  induction t using Ty.induction_args generalizing n with
  | step t ih =>
    have args (aligns : List Nat) (h : s.alignsWith f t.args = .ok aligns) :
        s.alignsWith g t.args = .ok aligns := alignsWith_refines (fun u hu n hn => ih u hu hn) h
    rw [alignWith_eq] at h ⊢
    cases base : t.base <;> rw [base] at h
    case struct =>
      cases live : s.liveStruct? t with
      | none =>
        rw [live] at h
        exact h
      | some id =>
        rw [live] at h
        exact refines id n h
    case handle => exact refines.annotMeasure h
    case tuple =>
      obtain ⟨aligns, haligns, h⟩ := ok_of_bind h
      dsimp only [BaseType.align?]
      rw [args aligns haligns]
      exact h
    case variant =>
      obtain ⟨aligns, haligns, h⟩ := ok_of_bind h
      dsimp only [BaseType.align?]
      rw [args aligns haligns]
      exact h
    all_goals exact h

theorem structAlignIn_refines (h : steps ≤ more) :
    Refines (s.structAlignIn steps) (s.structAlignIn more) := by
  induction steps generalizing more with
  | zero => nofun
  | succ steps ih =>
    obtain ⟨more, rfl⟩ : ∃ k, more = k + 1 := ⟨more - 1, by omega⟩
    have refines : Refines (s.structAlignIn steps) (s.structAlignIn more) := ih (by omega)
    intro id n hn
    unfold structAlignIn at hn ⊢
    cases hx : s.struct? id with
    | none =>
      rw [hx] at hn
      exact hn
    | some x =>
      rw [hx] at hn
      obtain ⟨aligns, haligns, hn⟩ := ok_of_bind hn
      dsimp only
      rw [alignsWith_refines (fun _ _ _ => refines.alignWith) haligns]
      exact hn

end Steps

theorem answers_structAlign_iff (hx : s.struct? id = some x) : Answers (s.structAlign id) ↔
    ∀ f ∈ x.fields, Answers (s.alignWith (s.structAlignIn s.structs.slots.size) f.type) := by
  unfold structAlign structSteps structAlignIn
  rw [hx]
  refine (answers_bind_of fun _ => answers_ok _).trans ?_
  rw [answers_alignsWith, List.forall_mem_map]

theorem eq_of_structAlign (hx : s.struct? id = some x) (hn : s.structAlign id = .ok n) :
    n = max (maxAlign (x.fields.map fun f => s.alignOf f.type)) 1 := by
  unfold structAlign structSteps structAlignIn at hn
  rw [hx] at hn
  obtain ⟨aligns, haligns, hn⟩ := ok_of_bind hn
  cases hn
  have refines : Refines (s.structAlignIn s.structs.slots.size) s.structAlign :=
    structAlignIn_refines (Nat.le_succ _)
  rw [eq_of_alignsWith (alignsWith_refines (fun _ _ _ => refines.alignWith) haligns),
    List.map_map]
  rfl

theorem isPowerOfTwo_structAlign (hx : s.struct? id = some x) (hn : s.structAlign id = .ok n)
    (powers : ∀ f ∈ x.fields, (s.alignOf f.type).isPowerOfTwo) : n.isPowerOfTwo := by
  rw [eq_of_structAlign hx hn]
  exact isPowerOfTwo_max (isPowerOfTwo_maxAlign (List.forall_mem_map.2 powers))
    Nat.isPowerOfTwo_one

end Store

end Frontend
