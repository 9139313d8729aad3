import Frontend.Expr.Parts
import Frontend.Proofs.Traversal.Initializers

/-!
# How a tree mentions variables

`Store.Mentions` lists the declarations and the names of variables in a tree in a fixed order: part
by part, with the initializer of a variable before the variable itself. A tree has at most one such
list, and it has none if a variable is declared in its own initializer.
-/

namespace Frontend

/-- What a node has that bears on variables: the variables it declares, its children, and the
variable that it names. -/
inductive Item where
  | declared (id : VarId)
  | child (e : Expr)
  | name (id : VarId)

def Part.items : Part → List Item
  | tree e => [.child e]
  | optionTree e => e.toList.map .child
  | trees es => es.map .child
  | fields fs => fs.map fun f => .child f.value
  | rows values => values.flatMap fun fs => fs.map fun f => .child f.value
  | vars ids => ids.map .declared
  | varLink id => id.toList.map .name
  | _ => []

def Node.items (n : Node) : List Item := n.parts.flatMap Part.items

def Function.items (f : Function) : List Item :=
  f.args.map .declared ++ f.body.toList.map .child

theorem Node.mem_of_child {n : Node} {c : Expr} (h : .child c ∈ n.items) :
    c ∈ n.visited ∨ c ∈ n.skipped := by
  cases n with
  | block info list finalList =>
    have h : c ∈ list ∨ c ∈ finalList := by simpa [items, parts, Part.items] using h
    by_cases hf : info.finallyDisabled = true <;> by_cases hb : info.finallyBeforeBody = true <;>
      simpa [visited, skipped, visitedFinally, hf, hb, or_comm] using h
  | literal value => cases value <;> simp [items, parts, Part.items] at h
  | _ => simp_all [items, parts, Part.items, visited, skipped]

theorem Expr.weight_lt_of_item {e c : Expr} (h : .child c ∈ e.node.items) :
    c.weight < e.weight :=
  weight_lt_of_child (Node.mem_of_child h)

inductive Mention where
  | declares (id : VarId)
  | names (id : VarId)
  deriving DecidableEq

/-- The items say this about variables, in this order. -/
inductive Store.Mentions (s : Store) : List Item → List Mention → Prop
  | nil : s.Mentions [] []
  | name {id items ms} (h : s.Mentions items ms) : s.Mentions (.name id :: items) (.names id :: ms)
  | child {e items ms ms'} (he : s.Mentions e.node.items ms) (h : s.Mentions items ms') :
    s.Mentions (.child e :: items) (ms ++ ms')
  | plain {id items ms} (hi : (s.var id).init = none) (h : s.Mentions items ms) :
    s.Mentions (.declared id :: items) (.declares id :: ms)
  | init {id i items ms ms'} (hi : (s.var id).init = some i) (he : s.Mentions i.node.items ms)
    (h : s.Mentions items ms') : s.Mentions (.declared id :: items) (ms ++ .declares id :: ms')

/-- The items declare the variable, at any depth and in initializers too. -/
inductive Store.DeclaresIn (s : Store) : List Item → VarId → Prop
  | here {items id} (h : .declared id ∈ items) : s.DeclaresIn items id
  | child {items e id} (h : .child e ∈ items) (hd : s.DeclaresIn e.node.items id) :
    s.DeclaresIn items id
  | init {items v i id} (h : .declared v ∈ items) (hi : (s.var v).init = some i)
    (hd : s.DeclaresIn i.node.items id) : s.DeclaresIn items id

theorem Store.DeclaresIn.mono {s : Store} {items items' : List Item} {id : VarId}
    (h : s.DeclaresIn items id) (hsub : items ⊆ items') : s.DeclaresIn items' id := by
  cases h with
  | here h => exact .here (hsub h)
  | child h hd => exact .child (hsub h) hd
  | init h hi hd => exact .init (hsub h) hi hd

namespace Store.Mentions

variable {s t : Store} {items items' : List Item} {ms ms' : List Mention} {id : VarId} {i : Expr}

theorem unique (h : s.Mentions items ms) (h' : s.Mentions items ms') : ms = ms' := by
  induction h generalizing ms' with
  | nil =>
    cases h'
    rfl
  | name _ ih =>
    cases h' with
    | name h' => rw [ih h']
  | child _ _ ihe ih =>
    cases h' with
    | child he' h' => rw [ihe he', ih h']
  | plain hi _ ih =>
    cases h' with
    | plain _ h' => rw [ih h']
    | init hi' => rw [hi] at hi'; cases hi'
  | init hi _ _ ihe ih =>
    cases h' with
    | plain hi' => rw [hi] at hi'; cases hi'
    | init hi' he' h' =>
      rw [hi] at hi'
      cases hi'
      rw [ihe he', ih h']

theorem append (h : s.Mentions items ms) (h' : s.Mentions items' ms') :
    s.Mentions (items ++ items') (ms ++ ms') := by
  induction h with
  | nil => exact h'
  | name _ ih => exact .name ih
  | child he _ _ ih =>
    rw [List.append_assoc]
    exact .child he ih
  | plain hi _ ih => exact .plain hi ih
  | init hi he _ _ ih =>
    rw [List.append_assoc]
    exact .init hi he ih

/-- The first item comes first. -/
theorem of_cons {item : Item} (h : s.Mentions (item :: items) ms) :
    ∃ ms₁ ms₂, s.Mentions [item] ms₁ ∧ s.Mentions items ms₂ ∧ ms = ms₁ ++ ms₂ := by
  cases h with
  | @name id _ ms h => exact ⟨[.names id], ms, .name .nil, h, rfl⟩
  | @child e _ ms ms' he h =>
    refine ⟨ms, ms', ?_, h, rfl⟩
    have := Mentions.child he .nil
    rwa [List.append_nil] at this
  | @plain id _ ms hi h => exact ⟨[.declares id], ms, .plain hi .nil, h, rfl⟩
  | @init id i _ ms ms' hi he h =>
    exact ⟨ms ++ [.declares id], ms', .init hi he .nil, h, by rw [List.append_assoc]; rfl⟩

/-- What the initializer of a variable mentions is part of what a tree mentions that declares it. -/
theorem init_of_declares (h : s.Mentions items ms) (hd : .declares id ∈ ms)
    (hi : (s.var id).init = some i) :
    ∃ ms₁, s.Mentions i.node.items ms₁ ∧ ms₁.length < ms.length := by
  induction h with
  | nil => cases hd
  | name _ ih =>
    obtain ⟨ms₁, h₁, hlt⟩ := ih (by simpa using hd)
    exact ⟨ms₁, h₁, Nat.lt_succ_of_lt hlt⟩
  | child _ _ ihe ih =>
    rw [List.length_append]
    rcases List.mem_append.1 hd with hd | hd
    · obtain ⟨ms₁, h₁, hlt⟩ := ihe hd
      exact ⟨ms₁, h₁, by omega⟩
    · obtain ⟨ms₁, h₁, hlt⟩ := ih hd
      exact ⟨ms₁, h₁, by omega⟩
  | plain hnone _ ih =>
    rcases List.mem_cons.1 hd with hd | hd
    · cases hd
      rw [hnone] at hi
      cases hi
    · obtain ⟨ms₁, h₁, hlt⟩ := ih hd
      exact ⟨ms₁, h₁, Nat.lt_succ_of_lt hlt⟩
  | @init v j _ ms ms' hj he _ ihe ih =>
    rw [List.length_append, List.length_cons]
    rcases List.mem_append.1 hd with hd | hd
    · obtain ⟨ms₁, h₁, hlt⟩ := ihe hd
      exact ⟨ms₁, h₁, by omega⟩
    rcases List.mem_cons.1 hd with hd | hd
    · cases hd
      rw [hj] at hi
      cases hi
      exact ⟨ms, he, by omega⟩
    · obtain ⟨ms₁, h₁, hlt⟩ := ih hd
      exact ⟨ms₁, h₁, by omega⟩

/-- No variable is declared in its own initializer. -/
theorem not_declares_of_init (hi : (s.var id).init = some i) (h : s.Mentions i.node.items ms) :
    .declares id ∉ ms := by
  intro hd
  obtain ⟨ms₁, h₁, hlt⟩ := h.init_of_declares hd hi
  rw [h.unique h₁] at hlt
  exact Nat.lt_irrefl _ hlt

/-- Where the same variables are declared with the same initializers, the same is mentioned. -/
theorem of_inits (h : s.Mentions items ms)
    (ht : ∀ id, .declares id ∈ ms → (t.var id).init = (s.var id).init) : t.Mentions items ms := by
  induction h with
  | nil => exact .nil
  | name _ ih => exact .name (ih fun id hd => ht id (.tail _ hd))
  | child _ _ ihe ih =>
    exact .child (ihe fun id hd => ht id (List.mem_append_left _ hd))
      (ih fun id hd => ht id (List.mem_append_right _ hd))
  | plain hi _ ih =>
    exact .plain ((ht _ (.head _)).trans hi) (ih fun id hd => ht id (.tail _ hd))
  | init hi _ _ ihe ih =>
    refine .init ((ht _ (List.mem_append_right _ (.head _))).trans hi)
      (ihe fun id hd => ht id (List.mem_append_left _ hd))
      (ih fun id hd => ht id (List.mem_append_right _ (.tail _ hd)))

theorem detach (h : s.Mentions items ms) (hd : .declares id ∉ ms) :
    (s.detach id).Mentions items ms := by
  refine h.of_inits fun other hother => ?_
  rw [init_detach, if_neg]
  intro same
  rw [same] at hother
  exact hd hother

/-- What one of the items mentions, all of them do. -/
theorem of_mem {item : Item} (h : s.Mentions items ms) (hitem : item ∈ items) :
    ∃ ms₁, s.Mentions [item] ms₁ ∧ ms₁ ⊆ ms := by
  induction items generalizing ms with
  | nil => cases hitem
  | cons first items ih =>
    obtain ⟨ms₁, ms₂, h₁, h₂, rfl⟩ := h.of_cons
    rcases List.mem_cons.1 hitem with rfl | hitem
    · exact ⟨ms₁, h₁, List.subset_append_left _ _⟩
    · obtain ⟨ms', h', hsub⟩ := ih h₂ hitem
      exact ⟨ms', h', List.Subset.trans hsub (List.subset_append_right _ _)⟩

theorem declares_of_mem (h : s.Mentions items ms) (hd : .declares id ∈ ms) :
    s.DeclaresIn items id := by
  have later {item : Item} {items : List Item} (h : s.DeclaresIn items id) :
      s.DeclaresIn (item :: items) id := h.mono (List.subset_cons_self _ _)
  induction h with
  | nil => cases hd
  | name _ ih => exact later (ih (by simpa using hd))
  | child _ _ ihe ih =>
    rcases List.mem_append.1 hd with hd | hd
    · exact .child (.head _) (ihe hd)
    · exact later (ih hd)
  | plain hi _ ih =>
    rcases List.mem_cons.1 hd with hd | hd
    · cases hd
      exact .here (.head _)
    · exact later (ih hd)
  | init hi _ _ ihe ih =>
    rcases List.mem_append.1 hd with hd | hd
    · exact .init (.head _) hi (ihe hd)
    rcases List.mem_cons.1 hd with hd | hd
    · cases hd
      exact .here (.head _)
    · exact later (ih hd)

theorem mem_of_declares (h : s.Mentions items ms) (hd : s.DeclaresIn items id) :
    .declares id ∈ ms := by
  induction hd generalizing ms with
  | here hmem =>
    obtain ⟨ms₁, h₁, hsub⟩ := h.of_mem hmem
    cases h₁ with
    | plain => exact hsub (.head _)
    | init => exact hsub (List.mem_append_right _ (.head _))
  | child hmem _ ih =>
    obtain ⟨ms₁, h₁, hsub⟩ := h.of_mem hmem
    cases h₁ with
    | child he => exact hsub (List.mem_append_left _ (ih he))
  | init hmem hi _ ih =>
    obtain ⟨ms₁, h₁, hsub⟩ := h.of_mem hmem
    cases h₁ with
    | plain hnone => rw [hnone] at hi; cases hi
    | init hi' he =>
      rw [hi'] at hi
      cases hi
      exact hsub (List.mem_append_left _ (ih he))

end Store.Mentions

end Frontend
