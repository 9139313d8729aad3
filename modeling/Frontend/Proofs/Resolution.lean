import Frontend.Proofs.Validity

/-!
# Links and field positions of a valid program

The check of a program guards the function links and the field positions of the nodes that it comes
by: those of calls, addresses and operators, and of fields that are accessed without a test for null.
It passes over nodes that move, clone or copy by a function, and over safe accesses. So what these are
resolved to may be gone in a program that it finds nothing in.
-/

namespace Frontend

def Node.function? : Node → Option FunctionId
  | .assign _ _ _ function => function
  | node => node.link?.map (·.2)

/-- The value whose field is accessed, and the position that the field is resolved to. -/
def Node.position? : Node → Option (Expr × Nat)
  | .field .field _ value field? _ _ | .field .safeField _ value field? _ _ => field?.map (value, ·)
  | _ => none

def Node.isPassedOver : Node → Bool
  | .assign .. | .field .safeField .. => true
  | _ => false

namespace Store

variable {s : Store} {e : Expr}

/-- What a node is resolved to is there: its function, and its field unless the structure is not
known. -/
structure Resolves (s : Store) (e : Expr) : Prop where
  function : ∀ id, e.node.function? = some id → s.functions.isAlive id = true
  field : ∀ value index x, e.node.position? = some (value, index) →
    value.type.bind s.accessedStruct? = some x → index < x.fields.length

theorem linkAlive_of_passedOver (h : e.node.isPassedOver = true) : s.LinkAlive e := by
  intro name id hl
  unfold Node.isPassedOver at h
  split at h
  · rename_i heq
    rw [heq] at hl
    cases hl
  · rename_i heq
    rw [heq] at hl
    cases hl
  · cases h

theorem fieldInRange_of_passedOver (h : e.node.isPassedOver = true) : s.FieldInRange e := by
  intro name value index element? free x hn
  rw [hn] at h
  cases h

theorem linkAlive_iff (h : e.node.isPassedOver = false) :
    s.LinkAlive e ↔ ∀ id, e.node.function? = some id → s.functions.isAlive id = true := by
  have link : e.node.function? = e.node.link?.map (·.2) := by
    unfold Node.function?
    split
    · rename_i heq
      rw [heq] at h
      cases h
    · rfl
  rw [link, LinkAlive]
  constructor
  · intro alive id hid
    obtain ⟨⟨name, id'⟩, hl, rfl⟩ := Option.map_eq_some_iff.1 hid
    exact alive name id' hl
  · intro alive name id hl
    exact alive id (by rw [hl]; rfl)

theorem fieldInRange_iff (h : e.node.isPassedOver = false) :
    s.FieldInRange e ↔ ∀ value index x, e.node.position? = some (value, index) →
      value.type.bind s.accessedStruct? = some x → index < x.fields.length := by
  constructor
  · intro range value index x hposition hx
    unfold Node.position? at hposition
    split at hposition
    · rename_i name value' field? element? free heq
      obtain ⟨i, rfl, hi⟩ := Option.map_eq_some_iff.1 hposition
      cases hi
      exact range name value index element? free x heq hx
    · rename_i heq
      rw [heq] at h
      cases h
    · cases hposition
  · intro range name value index element? free x hn hx
    exact range value index x (by rw [hn, Node.position?, Option.map_some]) hx

/-- What the check asks of a node: that it resolves, unless it is passed over. -/
theorem checked_iff :
    s.LinkAlive e ∧ s.FieldInRange e ↔ (e.node.isPassedOver = false → s.Resolves e) := by
  cases h : e.node.isPassedOver with
  | true =>
    exact iff_of_true ⟨linkAlive_of_passedOver h, fieldInRange_of_passedOver h⟩ nofun
  | false =>
    rw [linkAlive_iff h, fieldInRange_iff h]
    exact ⟨fun ⟨function, field⟩ _ => ⟨function, field⟩, fun resolves => ⟨(resolves rfl).1, (resolves rfl).2⟩⟩

/-- While it is visited, a structure shows no fields; the others show theirs. -/
theorem struct_detached {id other : StructId} {x : Struct} (hx : s.struct? other = some x) :
    ∃ x', (s.modifyStruct id fun x => { x with fields := [] }).struct? other = some x' ∧
      (x' = x ∨ x'.fields = []) := by
  rw [struct?] at hx ⊢
  rw [modifyStruct, Table.get?_modify, hx]
  split
  · exact ⟨_, rfl, .inr rfl⟩
  · exact ⟨x, rfl, .inl rfl⟩

theorem accessedStruct_detached (id : StructId) {t : Ty} {x : Struct}
    (hx : s.accessedStruct? t = some x) :
    ∃ x', (s.modifyStruct id fun x => { x with fields := [] }).accessedStruct? t = some x' ∧
      (x' = x ∨ x'.fields = []) := by
  unfold accessedStruct? at hx ⊢
  split at hx <;> obtain ⟨other, hother, hx⟩ := Option.bind_eq_some_iff.1 hx <;>
    rw [hother, Option.bind_some] <;> exact struct_detached hx

/-- Where fields are not shown the check is the stricter. -/
theorem Resolves.of_detached {id : StructId}
    (h : (s.modifyStruct id fun x => { x with fields := [] }).Resolves e) : s.Resolves e where
  function := h.function
  field value index x hposition hx := by
    obtain ⟨t, ht, hx⟩ := Option.bind_eq_some_iff.1 hx
    obtain ⟨x', hx', shown⟩ := accessedStruct_detached id hx
    have range := h.field value index x' hposition (by rw [ht, Option.bind_some, hx'])
    rcases shown with rfl | empty
    · exact range
    · rw [empty] at range
      cases range

end Store

namespace Program

variable {p : Program} {s : Store} {e x : Expr}

/-- The check comes by the node, in one of the trees that it visits. -/
def Reaches (p : Program) (x : Expr) : Prop := ∃ s e, p.Checks s e ∧ p.store.Meets e x

theorem meets_of_checks (h : p.Checks s e) : s.Meets e x ↔ p.store.Meets e x := by
  have vars : s.vars = p.store.vars := by
    rcases h with ⟨rfl, -⟩ | h
    · rfl
    · exact h.functions.2
  exact ⟨.of_vars_eq vars, .of_vars_eq vars.symm⟩

theorem resolves_of_checks (h : p.Checks s e) (hx : s.Resolves x) : p.store.Resolves x := by
  rcases h with ⟨rfl, -⟩ | h
  · exact hx
  · cases h with
    | value => exact ⟨hx.function, hx.field⟩
    | field => exact hx.of_detached
    | generic => exact hx

/-- The check finds nothing exactly if all nodes that it comes by resolve, in the store as it shows
then, except for those that it passes over. They resolve in the whole program as well; so all nodes
do as soon as the ones passed over do, but not before. -/
theorem valid_iff_resolves :
    (p.Valid ↔ ∀ s e, p.Checks s e → ∀ x, s.Meets e x → x.node.isPassedOver = false →
      s.Resolves x) ∧
    (p.Valid → ∀ x, p.Reaches x → x.node.isPassedOver = false → p.store.Resolves x) ∧
    (p.Valid → ((∀ x, p.Reaches x → p.store.Resolves x) ↔
      ∀ x, p.Reaches x → x.node.isPassedOver = true → p.store.Resolves x)) := by
  have exact : p.Valid ↔ ∀ s e, p.Checks s e → ∀ x, s.Meets e x → x.node.isPassedOver = false →
      s.Resolves x := by
    simp only [valid_iff, Store.checked_iff]
  have whole (h : p.Valid) (x : Expr) (hx : p.Reaches x) (seen : x.node.isPassedOver = false) :
      p.store.Resolves x := by
    obtain ⟨s, e, he, hx⟩ := hx
    exact resolves_of_checks he (exact.1 h s e he x ((meets_of_checks he).2 hx) seen)
  refine ⟨exact, whole, fun h => ⟨fun all x hx _ => all x hx, fun rest x hx => ?_⟩⟩
  cases seen : x.node.isPassedOver with
  | true => exact rest x hx seen
  | false => exact whole h x hx seen

section Unseen

def pointValue : Expr :=
  (Expr.ofNode .builtin (.var { name := "p" })).withType { base := .struct, struct? := some ⟨0⟩ }

def callOfSelf : Expr := .ofNode .builtin (.call "f" [] (some ⟨0⟩))

def moveByGone : Expr :=
  .ofNode .builtin (.assign .move (.const .builtin (.int 0)) (.const .builtin (.int 1)) (some ⟨1⟩))

def safeAccess : Expr := .ofNode .builtin (.field .safeField "y" pointValue (some 1) none false)

/-- A function that calls itself and accesses the one field of a structure, but also moves by a
function that is gone and accesses a field that is not there. -/
def unresolved : Program where
  store :=
    { functions := { slots := #[some
        { name := "f"
          body := some (.ofNode .builtin (.block {}
            [callOfSelf, .ofNode .builtin (.field .field "x" pointValue (some 0) none false),
              moveByGone, safeAccess] [])) }] }
      structs := { slots := #[some
        { name := "Point", fields := [{ name := "x", type := .ofBase .float }] }] }
      modules := { slots := #[some
        { name := ""
          functions := .ofList [("f", ⟨0⟩)]
          structs := .ofList [("Point", ⟨0⟩)]
          structOrder := [⟨0⟩] }] } }
  library := [⟨0⟩]
  this := ⟨0⟩

theorem unresolved_reaches {x : Expr} (hx : x ∈ [callOfSelf, moveByGone, safeAccess]) :
    unresolved.Reaches x := by
  have registered : (⟨0⟩ : FunctionId) ∈ unresolved.thisModule.functions.values := by decide
  refine ⟨_, _, .inl ⟨rfl, .function registered (by decide) (.body rfl rfl)⟩, .child ?_ (.here x)⟩
  change x ∈ [callOfSelf, _, moveByGone, safeAccess]
  simp only [List.mem_cons, List.not_mem_nil, or_false] at hx ⊢
  rcases hx with h | h | h <;> simp [h]

theorem valid_iff_resolves_unresolved :
    unresolved.Valid ∧ unresolved.store.Resolves callOfSelf ∧
      ¬ ∀ x, unresolved.Reaches x → x.node.isPassedOver = true → unresolved.store.Resolves x := by
  have valid : unresolved.Valid := by decide +kernel
  have h := @valid_iff_resolves unresolved
  refine ⟨valid, h.2.1 valid _ (unresolved_reaches (.head _)) rfl, fun rest => ?_⟩
  have gone := (((h.2.2 valid).2 rest) moveByGone (unresolved_reaches (.tail _ (.head _)))).function
  exact absurd (gone ⟨1⟩ rfl) (by decide)

/-- The check finds nothing, though a move is linked to a function that is gone and a safe access asks
for the second field of a structure that has one. -/
theorem unresolved_is_valid :
    unresolved.Valid ∧
      (unresolved.Reaches moveByGone ∧ moveByGone.node.function? = some ⟨1⟩ ∧
        unresolved.store.functions.isAlive ⟨1⟩ = false) ∧
      unresolved.Reaches safeAccess ∧ safeAccess.node.position? = some (pointValue, 1) ∧
        (pointValue.type.bind unresolved.store.accessedStruct?).map (·.fields.length) = some 1 := by
  exact ⟨by decide +kernel, ⟨unresolved_reaches (.tail _ (.head _)), rfl, rfl⟩,
    unresolved_reaches (.tail _ (.tail _ (.head _))), rfl, rfl⟩

end Unseen

end Program

end Frontend
