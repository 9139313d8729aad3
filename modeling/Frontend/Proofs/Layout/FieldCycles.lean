import Frontend.Declare.FieldCycle
import Frontend.Proofs.Cycle.Events
import Frontend.Proofs.Layout.Containment
import Frontend.Proofs.Traversal.Ends

/-!
# Which cycles of structures are reported

The check follows the fields that are structures themselves. It numbers the structures that such
fields lead to, collects all edges between them, and looks for a cycle through the first, so it
reports exactly the structures that contain themselves through such fields. Other fields hold
structures too: arrays with fixed dimensions, tuples, variants and annotations that are bound.
-/

namespace Frontend

open Relation

namespace Store

variable {s : Store} {a b : StructId}

/-- A structure has a field that is another structure. -/
def HoldsPlainly (s : Store) (a b : StructId) : Prop :=
  ∃ x, s.struct? a = some x ∧ ∃ f ∈ x.fields, f.type.isStruct = true ∧ b ∈ s.valueStructs f.type

theorem HoldsPlainly.holds (h : s.HoldsPlainly a b) : s.Holds a b := by
  obtain ⟨x, hx, f, hf, -, hb⟩ := h
  exact ⟨x, hx, f, hf, hb⟩

def fieldsOf (s : Store) (a : StructId) : List Field := ((s.struct? a).map (·.fields)).getD []

def fieldStruct? (s : Store) (f : Field) : Option StructId :=
  if f.type.isStruct then s.liveStruct? f.type else none

theorem fieldStruct?_eq_some_iff {f : Field} :
    s.fieldStruct? f = some b ↔ f.type.isStruct = true ∧ b ∈ s.valueStructs f.type := by
  unfold fieldStruct?
  split
  · rename_i plain
    have base : f.type.base = .struct := by
      simp only [Ty.isStruct, Ty.isSimple, Bool.and_eq_true, beq_iff_eq] at plain
      exact plain.1
    simp [plain, valueStructs_of_struct base]
  · rename_i plain
    simp [plain]

theorem holdsPlainly_iff :
    s.HoldsPlainly a b ↔ ∃ f ∈ s.fieldsOf a, s.fieldStruct? f = some b := by
  unfold HoldsPlainly fieldsOf
  simp only [fieldStruct?_eq_some_iff]
  cases s.struct? a <;> simp

theorem mem_ids_of_fieldStruct? {f : Field} (h : s.fieldStruct? f = some b) :
    b ∈ s.structs.ids := by
  unfold fieldStruct? liveStruct? at h
  split at h
  · obtain ⟨x, hx⟩ := Option.isSome_iff_exists.1 (Option.filter_eq_some_iff.1 h).2
    exact Table.mem_ids_of_get? hx
  · cases h

end Store

namespace FieldGraph

variable {s : Store} {id a b : StructId} {g : FieldGraph} {pending : List Nat}
  {source steps i : Nat} {f : Field}

def Links (g : FieldGraph) (i : Nat) (b : StructId) : Prop :=
  ∃ e ∈ g.edges, e.source = i ∧ g.structs[e.target]? = some b

def IsField (s : Store) (g : FieldGraph) (e : FieldEdge) : Prop :=
  ∃ a, g.structs[e.source]? = some a ∧ ∃ b, g.structs[e.target]? = some b ∧ s.HoldsPlainly a b

/-- A graph that fields of the structure `id` lead to: each structure has one number, all edges are
fields, and the fields of structures that are not pending are all there. -/
structure Spans (s : Store) (id : StructId) (pending : List Nat) (g : FieldGraph) : Prop where
  head : g.structs.head? = some id
  nodup : g.structs.Nodup
  known : g.structs.tail ⊆ s.structs.ids
  bounded : ∀ i ∈ pending, i < g.structs.length
  sound : ∀ e ∈ g.edges, IsField s g e
  settled : ∀ i a, g.structs[i]? = some a → i ∉ pending → ∀ b, s.HoldsPlainly a b → g.Links i b

structure Grows (pending pending' : List Nat) (g g' : FieldGraph) : Prop where
  structs : g.structs <+: g'.structs
  edges : g.edges ⊆ g'.edges
  length : pending'.length + g.structs.length = pending.length + g'.structs.length

theorem Grows.refl (pending : List Nat) (g : FieldGraph) : Grows pending pending g g :=
  ⟨List.prefix_refl _, List.Subset.refl _, rfl⟩

theorem Grows.trans {pending₁ pending₂ : List Nat} {g₁ g₂ : FieldGraph}
    (h : Grows pending pending₁ g g₁) (h' : Grows pending₁ pending₂ g₁ g₂) :
    Grows pending pending₂ g g₂ where
  structs := h.structs.trans h'.structs
  edges := List.Subset.trans h.edges h'.edges
  length := by
    have := h.length
    have := h'.length
    omega

theorem getElem?_of_grown {l l' : List StructId} (h : l <+: l') (ha : l[i]? = some a) :
    l'[i]? = some a := by
  obtain ⟨rest, rfl⟩ := h
  rw [List.getElem?_append_left (List.getElem?_eq_some_iff.1 ha).1, ha]

theorem Links.mono {pending' : List Nat} {g' : FieldGraph} (h : g.Links i b)
    (grows : Grows pending pending' g g') : g'.Links i b := by
  obtain ⟨e, he, source, target⟩ := h
  exact ⟨e, grows.edges he, source, getElem?_of_grown grows.structs target⟩

theorem IsField.mono {e : FieldEdge} {pending' : List Nat} {g' : FieldGraph} (h : IsField s g e)
    (grows : Grows pending pending' g g') : IsField s g' e := by
  obtain ⟨a, ha, b, hb, plain⟩ := h
  exact ⟨a, getElem?_of_grown grows.structs ha, b, getElem?_of_grown grows.structs hb, plain⟩

section AddFields

def addField (source : Nat) (f : Field) (b : StructId) (pending : List Nat) (g : FieldGraph) :
    List Nat × FieldGraph :=
  match g.structs.findIdx? (· == b) with
  | some target => (pending, { g with edges := g.edges ++ [⟨source, target, f.name, f.span⟩] })
  | none => (g.structs.length :: pending,
      ⟨g.structs ++ [b], g.edges ++ [⟨source, g.structs.length, f.name, f.span⟩]⟩)

theorem addFields_cons (s : Store) (source : Nat) (f : Field) (fs : List Field)
    (pending : List Nat) (g : FieldGraph) :
    addFields s source (f :: fs) pending g =
      match s.fieldStruct? f with
      | none => addFields s source fs pending g
      | some b =>
        let (pending, g) := addField source f b pending g
        addFields s source fs pending g := by
  rw [addFields, Store.fieldStruct?, Store.liveStruct?]
  split
  · rename_i h
    rw [h]
  · rename_i b h
    rw [h]
    unfold addField
    dsimp only
    cases g.structs.findIdx? (· == b) <;> rfl

theorem grows_addField (source : Nat) (f : Field) (b : StructId) (pending : List Nat)
    (g : FieldGraph) :
    Grows pending (addField source f b pending g).1 g (addField source f b pending g).2 := by
  unfold addField
  split
  · exact ⟨List.prefix_refl _, List.subset_append_left _ _, rfl⟩
  · refine ⟨List.prefix_append _ _, List.subset_append_left _ _, ?_⟩
    rw [List.length_append, List.length_singleton, List.length_cons, Nat.add_right_comm,
      Nat.add_assoc]

theorem links_addField (source : Nat) (f : Field) (b : StructId) (pending : List Nat)
    (g : FieldGraph) : (addField source f b pending g).2.Links source b := by
  unfold addField
  split
  · rename_i target found
    refine ⟨_, List.mem_append_right _ (List.mem_singleton_self _), rfl, ?_⟩
    obtain ⟨h, found, -⟩ := List.findIdx?_eq_some_iff_getElem.1 found
    exact List.getElem?_eq_some_iff.2 ⟨h, beq_iff_eq.1 found⟩
  · exact ⟨_, List.mem_append_right _ (List.mem_singleton_self _), rfl, by simp⟩

theorem Spans.addField (h : Spans s id (source :: pending) g) (ha : g.structs[source]? = some a)
    (hf : f ∈ s.fieldsOf a) (hb : s.fieldStruct? f = some b) :
    Spans s id (source :: (addField source f b pending g).1) (addField source f b pending g).2 := by
  have grows := grows_addField source f b pending g
  have plain : s.HoldsPlainly a b := Store.holdsPlainly_iff.2 ⟨f, hf, hb⟩
  unfold FieldGraph.addField at grows ⊢
  cases found : g.structs.findIdx? (· == b) with
  | some target =>
    rw [found] at grows
    dsimp only at grows ⊢
    refine { h with
      sound := fun e he => ?_
      settled := fun i c hc hi b' hb' => (h.settled i c hc hi b' hb').mono grows }
    rcases List.mem_append.1 he with he | he
    · exact (h.sound e he).mono grows
    · obtain rfl := List.mem_singleton.1 he
      obtain ⟨inside, same, -⟩ := List.findIdx?_eq_some_iff_getElem.1 found
      exact ⟨a, ha, b, List.getElem?_eq_some_iff.2 ⟨inside, beq_iff_eq.1 same⟩, plain⟩
  | none =>
    rw [found] at grows
    dsimp only at grows ⊢
    have fresh : b ∉ g.structs := fun hb => by simpa using List.findIdx?_eq_none_iff.1 found b hb
    obtain ⟨rest, hrest⟩ := List.head?_eq_some_iff.1 h.head
    refine ⟨?_, ?_, ?_, ?_, fun e he => ?_, fun i c hc hi b' hb' => ?_⟩
    · simp [hrest]
    · exact h.nodup.append (List.nodup_singleton b) (List.disjoint_singleton.2 fresh)
    · have known := h.known
      rw [hrest] at known ⊢
      exact List.append_subset.2 ⟨known, by simpa using Store.mem_ids_of_fieldStruct? hb⟩
    · rw [List.length_append, List.length_singleton]
      obtain ⟨hsource, bounded⟩ := List.forall_mem_cons.1 h.bounded
      refine List.forall_mem_cons.2 ⟨Nat.lt_succ_of_lt hsource, List.forall_mem_cons.2 ⟨?_, ?_⟩⟩
      · exact Nat.lt_succ_self _
      · exact fun i hi => Nat.lt_succ_of_lt (bounded i hi)
    · rcases List.mem_append.1 he with he | he
      · exact (h.sound e he).mono grows
      · obtain rfl := List.mem_singleton.1 he
        exact ⟨a, getElem?_of_grown grows.structs ha, b, by simp, plain⟩
    · -- the new structure is pending, so only those that were there have to be settled
      simp only [List.mem_cons, not_or] at hi
      obtain ⟨hsource, hnew, hi⟩ := hi
      have old : i < g.structs.length := by
        have := (List.getElem?_eq_some_iff.1 hc).1
        simp at this
        omega
      rw [List.getElem?_append_left old] at hc
      exact (h.settled i c hc (by simp [hsource, hi]) b' hb').mono grows

/-- All fields of one structure are added. -/
theorem addFields_spec {fs : List Field} (h : Spans s id (source :: pending) g)
    (ha : g.structs[source]? = some a) (hfs : fs ⊆ s.fieldsOf a) :
    let r := addFields s source fs pending g
    Spans s id (source :: r.1) r.2 ∧ Grows pending r.1 g r.2 ∧
      ∀ f ∈ fs, ∀ b, s.fieldStruct? f = some b → r.2.Links source b := by
  induction fs generalizing pending g with
  | nil => exact ⟨h, .refl _ _, fun _ hf => absurd hf List.not_mem_nil⟩
  | cons f fs ih =>
    obtain ⟨hf, hfs⟩ := List.cons_subset.1 hfs
    rw [addFields_cons]
    cases hb : s.fieldStruct? f with
    | none =>
      obtain ⟨spans, grows, links⟩ := ih h ha hfs
      refine ⟨spans, grows, List.forall_mem_cons.2 ⟨fun b hb' => ?_, links⟩⟩
      rw [hb] at hb'
      cases hb'
    | some b =>
      have first := grows_addField source f b pending g
      obtain ⟨spans, grows, links⟩ :=
        ih (h.addField ha hf hb) (getElem?_of_grown first.structs ha) hfs
      refine ⟨spans, first.trans grows, List.forall_mem_cons.2 ⟨fun b' hb' => ?_, links⟩⟩
      rw [hb, Option.some.injEq] at hb'
      exact hb' ▸ (links_addField source f b pending g).mono grows

end AddFields

section Close

theorem Spans.length_le (h : Spans s id pending g) :
    g.structs.length ≤ s.structs.slots.size + 1 := by
  obtain ⟨rest, hrest⟩ := List.head?_eq_some_iff.1 h.head
  have nodup := h.nodup
  have known := h.known
  rw [hrest] at nodup known ⊢
  have := (List.subperm_of_subset (List.nodup_cons.1 nodup).2 known).length_le
  rw [Table.length_ids] at this
  simpa using this

/-- A step settles one structure. -/
theorem Spans.settle (h : Spans s id (source :: pending) g) (ha : g.structs[source]? = some a) :
    let r := addFields s source (s.fieldsOf a) pending g
    Spans s id r.1 r.2 ∧ Grows pending r.1 g r.2 := by
  obtain ⟨spans, grows, links⟩ := addFields_spec h ha (List.Subset.refl _)
  refine ⟨{ spans with
    bounded := (List.forall_mem_cons.1 spans.bounded).2
    settled := fun i c hc hi b hb => ?_ }, grows⟩
  by_cases same : i = source
  · subst same
    rw [getElem?_of_grown grows.structs ha, Option.some.injEq] at hc
    subst hc
    obtain ⟨f, hf, hb⟩ := Store.holdsPlainly_iff.1 hb
    exact links f hf b hb
  · exact spans.settled i c hc (by simp [same, hi]) b hb

/-- There are steps enough for all structures: one for each that is pending and one for each that is
not in the graph yet. -/
theorem Spans.close (h : Spans s id pending g)
    (enough : g.structs.length + steps = s.structs.slots.size + 1 + pending.length) :
    Spans s id [] (close s steps pending g) := by
  induction steps generalizing pending g with
  | zero =>
    have := h.length_le
    obtain rfl : pending = [] := List.eq_nil_of_length_eq_zero (by omega)
    exact h
  | succ steps ih =>
    cases pending with
    | nil => exact h
    | cons source pending =>
      obtain ⟨inside, -⟩ := List.forall_mem_cons.1 h.bounded
      have ha := List.getElem?_eq_getElem inside
      obtain ⟨spans, grows⟩ := h.settle ha
      have fields : ((g.structs[source]?.bind s.struct?).map (·.fields)).getD [] =
          s.fieldsOf g.structs[source] := by
        rw [ha]
        rfl
      rw [FieldGraph.close, fields]
      refine ih spans ?_
      have := grows.length
      rw [List.length_cons] at enough
      omega

theorem spans_ofStruct (s : Store) (id : StructId) : Spans s id [] (ofStruct s id) := by
  have start : Spans s id [0] ⟨[id], []⟩ := by
    refine ⟨rfl, List.nodup_singleton id, List.nil_subset _, by simp,
      fun _ he => absurd he List.not_mem_nil, fun i a ha hi => ?_⟩
    have := (List.getElem?_eq_some_iff.1 ha).1
    simp at hi this
    omega
  exact start.close (Nat.add_comm _ _)

end Close

section Digraph

theorem edge_digraph {i j : Nat} :
    g.digraph.Edge i j ↔ ∃ e ∈ g.edges, e.source = i ∧ e.target = j := by
  simp [digraph, Digraph.Edge]

theorem Spans.closed (h : Spans s id pending g) : g.digraph.Closed := by
  intro i j edge
  obtain ⟨e, he, -, rfl⟩ := edge_digraph.1 edge
  obtain ⟨-, -, b, hb, -⟩ := h.sound e he
  exact (List.getElem?_eq_some_iff.1 hb).1

theorem Spans.transGen_of_digraph (h : Spans s id pending g) {j : Nat}
    (walk : TransGen g.digraph.Edge i j) (ha : g.structs[i]? = some a) :
    ∃ b, g.structs[j]? = some b ∧ TransGen s.HoldsPlainly a b := by
  have step {i j : Nat} {a : StructId} (edge : g.digraph.Edge i j) (ha : g.structs[i]? = some a) :
      ∃ b, g.structs[j]? = some b ∧ s.HoldsPlainly a b := by
    obtain ⟨e, he, rfl, rfl⟩ := edge_digraph.1 edge
    obtain ⟨a', ha', b, hb, plain⟩ := h.sound e he
    rw [ha, Option.some.injEq] at ha'
    exact ⟨b, hb, ha' ▸ plain⟩
  induction walk with
  | single edge =>
    obtain ⟨b, hb, plain⟩ := step edge ha
    exact ⟨b, hb, .single plain⟩
  | tail _ edge ih =>
    obtain ⟨c, hc, walk⟩ := ih
    obtain ⟨b, hb, plain⟩ := step edge hc
    exact ⟨b, hb, walk.tail plain⟩

theorem Spans.digraph_of_transGen (h : Spans s id [] g) (walk : TransGen s.HoldsPlainly a b)
    (ha : g.structs[i]? = some a) :
    ∃ j, g.structs[j]? = some b ∧ TransGen g.digraph.Edge i j := by
  have step {i : Nat} {a b : StructId} (plain : s.HoldsPlainly a b) (ha : g.structs[i]? = some a) :
      ∃ j, g.structs[j]? = some b ∧ g.digraph.Edge i j := by
    obtain ⟨e, he, source, target⟩ := h.settled i a ha List.not_mem_nil b plain
    exact ⟨e.target, target, edge_digraph.2 ⟨e, he, source, rfl⟩⟩
  induction walk with
  | single plain =>
    obtain ⟨j, hj, edge⟩ := step plain ha
    exact ⟨j, hj, .single edge⟩
  | tail _ plain ih =>
    obtain ⟨k, hk, walk⟩ := ih
    obtain ⟨j, hj, edge⟩ := step plain hk
    exact ⟨j, hj, walk.tail edge⟩

/-- The graph has a cycle through the first structure exactly if that contains itself through fields
that are structures. -/
theorem Spans.transGen_iff (h : Spans s id [] g) :
    TransGen g.digraph.Edge 0 0 ↔ TransGen s.HoldsPlainly id id := by
  have first : g.structs[0]? = some id := by rw [← List.head?_eq_getElem?, h.head]
  constructor
  · intro walk
    obtain ⟨b, hb, walk⟩ := h.transGen_of_digraph walk first
    rw [first, Option.some.injEq] at hb
    rwa [← hb] at walk
  · intro walk
    obtain ⟨j, hj, walk⟩ := h.digraph_of_transGen walk first
    have same : g.structs[j]? = g.structs[0]? := by rw [hj, first]
    obtain rfl : j = 0 :=
      (List.getElem?_inj (List.getElem?_eq_some_iff.1 hj).1 h.nodup).1 same
    exact walk

theorem Spans.size_pos (h : Spans s id pending g) : 0 < g.digraph.size := by
  obtain ⟨rest, hrest⟩ := List.head?_eq_some_iff.1 h.head
  rw [digraph, hrest]
  exact Nat.succ_pos _

theorem cycleFrom_ofStruct (s : Store) (id : StructId) :
    (ofStruct s id).digraph.cycleFrom 0 = none ↔ ¬ TransGen s.HoldsPlainly id id := by
  have spans := spans_ofStruct s id
  rw [Digraph.cycleFrom_eq_none_iff spans.closed spans.size_pos, spans.transGen_iff]

end Digraph

section Events

variable {order : Nat → List Nat} {events : List Digraph.Event}

theorem exists_reports_ofStruct (s : Store) (id : StructId)
    (orders : ∀ n, (order n).Perm ((ofStruct s id).digraph.successors n)) :
    ∃ events, Digraph.Reports order 0 events := by
  have spans := spans_ofStruct s id
  exact Digraph.exists_reports (Digraph.lists_of_perm orders) spans.closed spans.size_pos

/-- Whatever order the edges are followed in, a cycle is found if there is one. -/
theorem cycleAlong_ofStruct (orders : ∀ n, (order n).Perm ((ofStruct s id).digraph.successors n))
    (reports : Digraph.Reports order 0 events) :
    ∃ found, (ofStruct s id).digraph.cycleAlong 0 events = .ok found ∧
      (found = none ↔ ¬ TransGen s.HoldsPlainly id id) ∧
      (order = (ofStruct s id).digraph.successors →
        found = (ofStruct s id).digraph.cycleFrom 0) := by
  have spans := spans_ofStruct s id
  obtain ⟨found, run, spec, -⟩ := Digraph.cycleAlong_ends (Digraph.lists_of_perm orders)
    spans.closed spans.size_pos reports
  refine ⟨found, run, by rw [spec, spans.transGen_iff], ?_⟩
  rintro rfl
  rw [Digraph.cycleAlong_eq_cycleFrom spans.closed spans.size_pos reports] at run
  exact (Except.ok.inj run).symm

end Events

end FieldGraph

namespace Program

variable {p : Program} {id : StructId}

/-- Given a cycle exactly if the structure contains itself through fields that are structures, the
check says so. It changes nothing if there is none, and otherwise reports one error. -/
theorem answerCycle_ends {g : FieldGraph} {found : Option (List Nat)}
    (spec : found = none ↔ ¬ TransGen p.store.HoldsPlainly id id) :
    Ends (answerCycle id g found) p fun ok p' =>
      (ok = true ↔ ¬ TransGen p.store.HoldsPlainly id id) ∧ (ok = true → p' = p) ∧
        (ok = false → ∃ steps span, p' = p.reportAt (.structureFieldCycle steps) span) := by
  cases found with
  | none => exact .pure ⟨iff_of_true rfl (spec.1 rfl), fun _ => rfl, nofun⟩
  | some cycle =>
    have cyclic : ¬ ¬ TransGen p.store.HoldsPlainly id id := fun hno => by cases spec.2 hno
    refine Ends.bind_run (a := p) rfl (Ends.bind_run (a := ()) rfl ?_)
    exact .pure ⟨iff_of_false Bool.false_ne_true cyclic, nofun, fun _ => ⟨_, _, rfl⟩⟩

theorem checkFieldCycles_spec (p : Program) (id : StructId) :
    Ends (checkFieldCycles id) p fun ok p' =>
      (ok = true ↔ ¬ TransGen p.store.HoldsPlainly id id) ∧ (ok = true → p' = p) ∧
        (ok = false → ∃ steps span, p' = p.reportAt (.structureFieldCycle steps) span) :=
  .bind_run (a := p) rfl (answerCycle_ends (FieldGraph.cycleFrom_ofStruct p.store id))

/-- The check does the same with every depth-first search, and with the one that follows the most
recent edges first it finds the same cycle. -/
theorem checkFieldCyclesAlong_spec {order : Nat → List Nat} {events : List Digraph.Event}
    (orders : ∀ n, (order n).Perm ((FieldGraph.ofStruct p.store id).digraph.successors n))
    (reports : Digraph.Reports order 0 events) :
    Ends (checkFieldCyclesAlong events id) p fun ok p' =>
      (ok = true ↔ ¬ TransGen p.store.HoldsPlainly id id) ∧ (ok = true → p' = p) ∧
        (ok = false → ∃ steps span, p' = p.reportAt (.structureFieldCycle steps) span) ∧
        (order = (FieldGraph.ofStruct p.store id).digraph.successors →
          (checkFieldCycles id).run p = .ok (ok, p')) := by
  obtain ⟨found, run, spec, same⟩ := FieldGraph.cycleAlong_ofStruct orders reports
  obtain ⟨ok, p', answer, said, kept, reported⟩ :=
    answerCycle_ends (g := FieldGraph.ofStruct p.store id) spec
  refine ⟨ok, p', ?_, said, kept, reported, fun recent => ?_⟩
  · rw [checkFieldCyclesAlong, StateT.run_bind, StateT.run_get, pure_bind]
    dsimp only
    rw [run]
    exact answer
  · rw [checkFieldCycles, StateT.run_bind, StateT.run_get, pure_bind]
    dsimp only
    rw [← same recent]
    exact answer

def Accepts (p : Program) (id : StructId) : Prop :=
  Ends (checkFieldCycles id) p fun ok _ => ok = true

theorem accepts_iff : p.Accepts id ↔ ¬ TransGen p.store.HoldsPlainly id id := by
  obtain ⟨ok, p', run, spec, -⟩ := checkFieldCycles_spec p id
  rw [← spec]
  exact ⟨fun h => h.of_run run, fun h => ⟨ok, p', run, h⟩⟩

/-- The check of a structure says whether it contains itself through fields that are structures, so
its answer is that for all fields exactly if such a cycle is one of the first kind. The order in
which the search follows the edges makes no difference to what it says. If every cycle is of that
kind and the check says yes for every structure, then alignments and what may be copied or moved are
known of all types, and sizes too unless a native layout leads back to a structure. Alignments alone
are known of all types exactly if no structure contains itself; otherwise no number of steps is
enough for those of a type that holds such a structure. -/
theorem fieldCycles_seen_iff_plain (p : Program) :
    let s := p.store
    (∀ id, Ends (checkFieldCycles id) p fun ok p' =>
      (ok = true ↔ ¬ TransGen s.HoldsPlainly id id) ∧
      ((ok = true ↔ ¬ TransGen s.Holds id id) ↔
        (TransGen s.Holds id id → TransGen s.HoldsPlainly id id)) ∧
      (ok = true → p' = p) ∧
      (ok = false → ∃ steps span, p' = p.reportAt (.structureFieldCycle steps) span)) ∧
    (∀ id order,
      (∀ n, (order n).Perm ((FieldGraph.ofStruct s id).digraph.successors n)) →
        (∃ events, Digraph.Reports order 0 events) ∧
        ∀ events, Digraph.Reports order 0 events →
          Ends (checkFieldCyclesAlong events id) p fun ok p' =>
            (ok = true ↔ ¬ TransGen s.HoldsPlainly id id) ∧ (ok = true → p' = p) ∧
            (ok = false → ∃ steps span, p' = p.reportAt (.structureFieldCycle steps) span) ∧
            (order = (FieldGraph.ofStruct s id).digraph.successors →
              (checkFieldCycles id).run p = .ok (ok, p'))) ∧
    ((∀ id, TransGen s.Holds id id → TransGen s.HoldsPlainly id id) → (∀ id, p.Accepts id) →
      ∀ t, Answers (s.typeAlign t) ∧ (∀ q, q ≠ .clone → Answers (s.typeCopy q t)) ∧
        ((∀ id, TransGen s.Measures id id → TransGen s.Holds id id) → Halts (s.typeSize t))) ∧
    ((∀ t, Answers (s.typeAlign t)) ↔ ∀ id, ¬ TransGen s.Holds id id) ∧
    ∀ t, ∀ id ∈ s.valueStructs t, TransGen s.Holds id id →
      ∀ steps, ¬ Answers (s.alignWith (s.structAlignIn steps) t) := by
  intro s
  have sound (id : StructId) : TransGen s.HoldsPlainly id id → TransGen s.Holds id id :=
    TransGen.mono (fun _ _ => Store.HoldsPlainly.holds) _ _
  refine ⟨fun id => ?_, fun id order orders => ?_, fun plain accepted t => ?_,
    Store.forall_answers_typeAlign, fun _ _ hid cycle => Store.not_answers_alignWith hid cycle⟩
  · refine (checkFieldCycles_spec p id).mono fun ok p' ⟨spec, same, reported⟩ =>
      ⟨spec, ?_, same, reported⟩
    rw [spec, not_iff_not]
    exact ⟨Iff.mpr, fun complete => ⟨sound id, complete⟩⟩
  · refine ⟨FieldGraph.exists_reports_ofStruct s id orders, fun events reports => ?_⟩
    exact checkFieldCyclesAlong_spec orders reports
  · have acyclic (id : StructId) : ¬ TransGen s.Holds id id := fun cycle =>
      accepts_iff.1 (accepted id) (plain id cycle)
    refine ⟨Store.forall_answers_typeAlign.2 acyclic t, fun q hq =>
      Store.answers_typeCopy hq fun _ _ => not_loops acyclic, fun native => ?_⟩
    exact Store.halts_typeSize fun _ _ => not_loops fun id cycle => acyclic id (native id cycle)

/-- A structure `S` with a field `s : S[2]`. -/
def arrayOfItself : Program where
  store := { structs := ⟨#[some { name := "S", fields := [
    { name := "s", type := { base := .struct, struct? := some ⟨0⟩, dims := [2] } }] }]⟩ }
  library := []
  this := ⟨0⟩

/-- The check says yes for a structure that contains itself through an array, although neither its
alignment nor its size is ever known. -/
theorem accepts_arrayOfItself :
    let s := arrayOfItself.store
    arrayOfItself.Accepts ⟨0⟩ ∧ TransGen s.Holds ⟨0⟩ ⟨0⟩ ∧
      s.structAlign ⟨0⟩ = .error .endless ∧ s.structSize ⟨0⟩ = .error .endless ∧
      (∀ q, s.structCopy q ⟨0⟩ = .error .endless) ∧
      ∀ steps, ¬ Answers (s.structAlignIn steps ⟨0⟩) := by
  have holds : arrayOfItself.store.Holds ⟨0⟩ ⟨0⟩ :=
    ⟨_, rfl, _, List.mem_singleton_self _, List.mem_singleton_self _⟩
  refine ⟨?_, .single holds, by decide +kernel, by decide +kernel, ?_, fun steps answers => ?_⟩
  · unfold Accepts
    decide +kernel
  · intro q
    cases q <;> decide +kernel
  · exact Loops.not_walksEnd ⟨_, .refl, .single holds⟩ steps (Store.answers_structAlignIn.1 answers)

end Program

end Frontend
