import Frontend.Proofs.Optimizer.Links
import Frontend.Proofs.Optimizer.Retaining

/-!
# Constant statements use nothing

Literals neither use nor declare anything. A block without some of its constant statements uses and
declares what it did before, and so does a program whose blocks are cleaned.
-/

namespace Frontend

theorem Node.Rewritten.uses_eq {R : Expr → Expr → Prop} {n n' : Node} (h : n.Rewritten R n') :
    n'.uses = n.uses := by
  cases h <;> rfl

namespace Expr

variable {e e' c : Expr} {α : Type} {f : Node → List α} {a : α}

def Gathers (f : Node → List α) (e : Expr) (a : α) : Prop := ∃ x, e.Below x ∧ a ∈ f x.node

theorem gathers_iff : e.Gathers f a ↔ a ∈ f e.node ∨ ∃ c ∈ e.node.visited, c.Gathers f a := by
  constructor
  · rintro ⟨x, hx, ha⟩
    cases hx with
    | here => exact .inl ha
    | child hc hx => exact .inr ⟨_, hc, x, hx, ha⟩
  · rintro (ha | ⟨c, hc, x, hx, ha⟩)
    · exact ⟨e, .here e, ha⟩
    · exact ⟨x, .child hc hx, ha⟩

theorem Gathers.visited (hc : c ∈ e.node.visited) (h : c.Gathers f a) : e.Gathers f a :=
  gathers_iff.2 (.inr ⟨c, hc, h⟩)

theorem not_gathers_literal (hf : ∀ value, f (.literal value) = []) (h : e.isLiteral = true) :
    ¬e.Gathers f a := by
  obtain ⟨span, type, flags, node⟩ := e
  cases node with
  | literal value =>
    rw [gathers_iff]
    rintro (ha | ⟨c, hc, _⟩)
    · rw [hf] at ha
      cases ha
    · cases hc
  | _ => cases h

theorem mem_dropConstants (keepLast : Bool) {es : List Expr} (hc : c ∈ es)
    (hliteral : c.isLiteral = false) : c ∈ dropConstants keepLast es := by
  fun_induction dropConstants keepLast es with
  | case1 => cases hc
  | case2 e h => exact hc
  | case3 e h =>
    rw [List.mem_singleton.1 hc] at hliteral
    simp [hliteral] at h
  | case4 e es _ h ih =>
    rcases List.mem_cons.1 hc with rfl | hc
    · exact .head _
    · exact .tail _ (ih hc)
  | case5 e es _ h ih =>
    rcases List.mem_cons.1 hc with rfl | hc
    · rw [hliteral] at h
      exact absurd rfl h
    · exact ih hc

/-- The trees use and declare the same, and none or both of them are literals. -/
structure SameNames (e e' : Expr) : Prop where
  literal : e'.isLiteral = e.isLiteral
  uses : ∀ d, e'.Gathers Node.uses d ↔ e.Gathers Node.uses d
  declared : ∀ v, e'.Gathers Node.declared v ↔ e.Gathers Node.declared v

namespace SameNames

theorem refl (e : Expr) : e.SameNames e := ⟨rfl, fun _ => Iff.rfl, fun _ => Iff.rfl⟩

theorem symm (h : e.SameNames e') : e'.SameNames e :=
  ⟨h.literal.symm, fun d => (h.uses d).symm, fun v => (h.declared v).symm⟩

theorem trans (h : e.SameNames e') (h' : e'.SameNames c) : e.SameNames c :=
  ⟨h'.literal.trans h.literal, fun d => (h'.uses d).trans (h.uses d),
    fun v => (h'.declared v).trans (h.declared v)⟩

theorem gathers_congr {n : Node} (hf : f n = f e.node)
    (hc : List.Forall₂ (fun c c' => c'.Gathers f a ↔ c.Gathers f a) e.node.visited n.visited) :
    Gathers f { e with node := n } a ↔ e.Gathers f a := by
  have children : (∃ c' ∈ n.visited, c'.Gathers f a) ↔ ∃ c ∈ e.node.visited, c.Gathers f a := by
    generalize e.node.visited = cs, n.visited = cs' at hc
    induction hc with
    | nil => exact Iff.rfl
    | cons h _ ih => rw [List.exists_mem_cons_iff, List.exists_mem_cons_iff, h, ih]
  rw [gathers_iff, gathers_iff, children]
  change a ∈ f n ∨ _ ↔ _
  rw [hf]

theorem congr {n : Node} (h : e.node.Rewritten SameNames n) : e.SameNames { e with node := n } where
  literal := by
    obtain ⟨span, type, flags, node⟩ := e
    cases h <;> rfl
  uses d := gathers_congr h.uses_eq (h.visited.imp fun _ _ hc => hc.uses d)
  declared v := gathers_congr h.declared_eq (h.visited.imp fun _ _ hc => hc.declared v)

theorem cleanBlock (h : e.cleanBlock? = some e') : e.SameNames e' := by
  obtain ⟨info, list, finalList, hn, rfl, -⟩ := cleanBlock_cases h
  have same {α : Type} {f : Node → List α} (a : α) (hliteral : ∀ value, f (.literal value) = [])
      (hblock : ∀ l l', f (.block info l l') = f (.block info list finalList)) :
      Gathers f { e with
        node := .block info (dropConstants info.yieldsValue list)
          (dropConstants false finalList) } a ↔ e.Gathers f a := by
    rw [gathers_iff, gathers_iff]
    simp only [hn, hblock, mem_visited_block, mem_visitedFinally]
    refine or_congr_right (exists_congr fun c => and_congr_left fun hc => ?_)
    have hno : c.isLiteral = false := by
      by_contra hyes
      exact not_gathers_literal hliteral (eq_true_of_ne_false hyes) hc
    have kept (keepLast : Bool) (l : List Expr) : c ∈ dropConstants keepLast l ↔ c ∈ l :=
      ⟨fun hmem => (dropConstants_sublist _ _).subset hmem,
        fun hmem => mem_dropConstants keepLast hmem hno⟩
    rw [kept, kept]
  refine ⟨?_, fun d => same d (fun _ => rfl) fun _ _ => rfl,
    fun v => same v (fun _ => rfl) fun _ _ => rfl⟩
  rw [isLiteral, isLiteral, hn]

end SameNames

end Expr

theorem SoundRule.sameNames (s₀ : Store) :
    SoundRule (fun _ => Expr.cleanBlock?) s₀ Expr.SameNames where
  refl := .refl
  trans _ _ _ := .trans
  congr := .congr
  weight := Expr.weight_cleanBlock
  sound _ := .cleanBlock

theorem rel_symm {α : Type} {R : α → α → Prop} (hR : ∀ a b, R a b → R b a) {o o' : Option α}
    (h : Option.Rel R o o') : Option.Rel R o' o := by
  cases h with
  | some h => exact .some (hR _ _ h)
  | none => exact .none

namespace Store

variable {s t : Store} {a d : Symbol} {roots : List Symbol} {e e' : Expr}

/-- Declarations are rewritten back. -/
theorem Rewritten.symm {R : Expr → Expr → Prop} (hR : ∀ a b, R a b → R b a)
    (h : s.Rewritten R t) : t.Rewritten R s where
  functions := h.functions.symm <| by
    rintro f _ ⟨b, rfl, hb⟩
    exact ⟨f.body, rfl, rel_symm hR hb⟩
  structs := h.structs.symm <| by
    rintro x _ ⟨fields, rfl, hfields⟩
    refine ⟨x.fields, rfl, hfields.flip.imp ?_⟩
    rintro f _ ⟨i, rfl, hi⟩
    exact ⟨_, rfl, rel_symm hR hi⟩
  enumerations := h.enumerations.symm <| by
    rintro x _ ⟨entries, rfl, hentries⟩
    refine ⟨x.entries, rfl, hentries.flip.imp ?_⟩
    rintro y z ⟨hname, hrel⟩
    exact ⟨hname.symm, rel_symm hR hrel⟩
  vars := h.vars.symm <| by
    rintro x _ ⟨i, rfl, hi⟩
    exact ⟨x.init, rfl, rel_symm hR hi⟩
  annots := h.annots.symm
  modules := h.modules.symm
  rewriters := h.rewriters.symm

theorem Rewritten.init {R : Expr → Expr → Prop} (h : s.Rewritten R t) {v : VarId} {i : Expr}
    (hi : (s.var v).init = some i) : ∃ i', (t.var v).init = some i' ∧ R i i' := by
  obtain ⟨x, hx, hi⟩ := get?_of_init hi
  obtain ⟨_, hx', j, rfl, hrel⟩ := h.vars.get? hx
  rw [hi] at hrel
  cases hrel with
  | @some _ i' hR =>
    refine ⟨i', ?_, hR⟩
    rw [Store.var, hx']
    rfl

theorem Rewritten.bears {R : Expr → Expr → Prop} (h : s.Rewritten R t) (he : s.Bears a e) :
    ∃ e', t.Bears a e' ∧ R e e' := by
  cases he with
  | body hf hb =>
    obtain ⟨_, hf', b, rfl, hrel⟩ := h.functions.get? hf
    rw [hb] at hrel
    cases hrel with
    | some hR => exact ⟨_, .body hf' rfl, hR⟩
  | argument hf ha hi =>
    obtain ⟨_, hf', b, rfl, _⟩ := h.functions.get? hf
    obtain ⟨i', hi', hR⟩ := h.init hi
    exact ⟨i', .argument hf' ha hi', hR⟩
  | initializer hi =>
    obtain ⟨i', hi', hR⟩ := h.init hi
    exact ⟨i', .initializer hi', hR⟩

/-- Where one tree uses and declares at least what the other does, it uses the same through
initializers. -/
theorem UsedIn.of_names (h : s.Rewritten Expr.SameNames t)
    (huses : ∀ d, e.Gathers Node.uses d → e'.Gathers Node.uses d)
    (hdeclared : ∀ v, e.Gathers Node.declared v → e'.Gathers Node.declared v)
    (hd : s.UsedIn e d) : t.UsedIn e' d := by
  obtain ⟨x, hx, hd⟩ := hd
  induction hx generalizing e' with
  | here x =>
    obtain ⟨y, hy, hd⟩ := huses d ⟨x, .here x, hd⟩
    exact ⟨y, .of_below hy, hd⟩
  | child hc _ ih =>
    exact ih (fun d hd => huses d (hd.visited hc)) (fun v hv => hdeclared v (hv.visited hc)) hd
  | @init e v i x hv hi _ ih =>
    obtain ⟨y, hy, hv⟩ := hdeclared v ⟨e, .here e, hv⟩
    obtain ⟨i', hi', hnames⟩ := h.init hi
    obtain ⟨z, hz, hd⟩ := ih (fun d => (hnames.uses d).2) (fun v => (hnames.declared v).2) hd
    exact ⟨z, .under hy (.init hv hi' hz), hd⟩

theorem Uses.of_names (h : s.Rewritten Expr.SameNames t) (hu : s.Uses a d) : t.Uses a d := by
  obtain ⟨e, he, hd, alive⟩ := uses_iff.1 hu
  obtain ⟨e', he', hnames⟩ := h.bears he
  refine uses_iff.2 ⟨e', he', hd.of_names h (fun d => (hnames.uses d).2)
    (fun v => (hnames.declared v).2), ?_⟩
  cases d with
  | var => rfl
  | function id => exact (h.functions.isAlive id).trans alive

theorem used_iff_of_names (h : s.Rewritten Expr.SameNames t) :
    t.Used roots a ↔ s.Used roots a := by
  have forward {s t : Store} (h : s.Rewritten Expr.SameNames t) (hu : s.Used roots a) :
      t.Used roots a := by
    induction hu with
    | root ha => exact .root ha
    | use _ hu ih => exact .use ih (hu.of_names h)
  exact ⟨forward (h.symm fun _ _ => .symm), forward h⟩

end Store

end Frontend
