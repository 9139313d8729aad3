import Frontend.Optimizer.Reachability
import Frontend.Proofs.Traversal.Collecting

/-!
# What a program uses

`Store.Uses` says what a declaration uses by itself, read off the trees that belong to it, and
`Store.Used` closes a list of roots under it. The rounds of `Store.closeUses` stay inside that set,
and what they end with is closed, also where uses go round in circles.
-/

namespace Frontend

namespace Store

variable {s : Store}

def UsedIn (s : Store) (e : Expr) (d : Symbol) : Prop := ∃ x, s.Meets e x ∧ d ∈ x.node.uses

/-- What a symbol uses directly: a function by its body and the initializers of its arguments, a
variable by its initializer. Links to functions that are gone do not count. -/
inductive Uses (s : Store) : Symbol → Symbol → Prop
  | body {id f b d} (hf : s.function? id = some f) (hb : f.body = some b) (hd : s.UsedIn b d)
    (alive : s.hasSymbol d = true) : Uses s (.function id) d
  | argument {id f a i d} (hf : s.function? id = some f) (ha : a ∈ f.args)
    (hi : (s.var a).init = some i) (hd : s.UsedIn i d) (alive : s.hasSymbol d = true) :
    Uses s (.function id) d
  | initializer {id i d} (hi : (s.var id).init = some i) (hd : s.UsedIn i d)
    (alive : s.hasSymbol d = true) : Uses s (.var id) d

/-- The least set of symbols that contains the roots and what its symbols use. -/
inductive Used (s : Store) (roots : List Symbol) : Symbol → Prop
  | root {x} (h : x ∈ roots) : Used s roots x
  | use {x y} (h : Used s roots x) (hu : s.Uses x y) : Used s roots y

end Store

def usesOfNode (_ : Store) (e : Expr) (d : Symbol) : Prop := d ∈ e.node.uses

theorem usageCollector_collects : usageCollector.Collects usesOfNode fun _ _ _ => False where
  calm := Visitor.calm_of_nodes _ _ 0
  enter e st := ⟨e, _, rfl, rfl, rfl, fun d => by simp [usesOfNode, or_comm]⟩
  leave e st := .pure ⟨rfl, rfl, .nothing _⟩
  before_detach _ _ := rfl
  after_detach _ _ := rfl

theorem blind_usesOfNode : Blind usesOfNode := ⟨fun _ _ => rfl, fun _ _ _ => rfl⟩

namespace Store

variable {s : Store}

theorem collected_uses {e : Expr} {d : Symbol} :
    s.Collected usesOfNode (fun _ _ _ => False) e d ↔ s.UsedIn e d := by
  simp [Collected, UsedIn, usesOfNode]

/-- What a visit adds to nothing, as far as it is there. -/
private theorem run_filter {m : VisitM (List Symbol) Unit} {D : Symbol → Prop}
    (h : Ends m ⟨s, []⟩ fun _ st' => Adds D [] st'.user) :
    ∃ l, (m.run ⟨s, []⟩ >>= fun r => pure (r.2.user.filter s.hasSymbol)) =
      (.ok l : Except Fault _) ∧ ∀ d, d ∈ l ↔ D d ∧ s.hasSymbol d = true := by
  obtain ⟨_, st', hm, ha⟩ := h
  refine ⟨st'.user.filter s.hasSymbol, by rw [hm]; rfl, fun d => ?_⟩
  rw [List.mem_filter, ha d]
  simp

theorem usesOf_function (s : Store) (id : FunctionId) :
    ∃ l, s.usesOf (.function id) = .ok l ∧ ∀ d, d ∈ l ↔
      s.CollectedInFunction usesOfNode (fun _ _ _ => False) id d ∧ s.hasSymbol d = true := by
  have h : Ends (discard (usageCollector.visitFunction id)) ⟨s, []⟩ fun _ st' =>
      Adds (s.CollectedInFunction usesOfNode (fun _ _ _ => False) id) [] st'.user :=
    ((Visitor.visitFunction_ends usageCollector_collects.builds id ⟨s, []⟩).mono
      fun _ _ h => (Collecting.functionVisit blind_usesOfNode blind_nothing h.2).2).map
  exact run_filter h

theorem usesOf_var (s : Store) (id : VarId) :
    ∃ l, s.usesOf (.var id) = .ok l ∧ ∀ d, d ∈ l ↔
      s.CollectedInVar usesOfNode (fun _ _ _ => False) id d ∧ s.hasSymbol d = true := by
  unfold usesOf
  cases hi : (s.var id).init with
  | none =>
    have h : Ends (pure () : VisitM (List Symbol) Unit) ⟨s, []⟩ fun _ st' =>
        Adds (s.CollectedInVar usesOfNode (fun _ _ _ => False) id) [] st'.user :=
      .pure ((Adds.nothing _).congr fun d => by simp [CollectedInVar, hi])
    simp only [hi]
    exact run_filter h
  | some i =>
    have h : Ends (VisitM.modifyStore (·.detach id) >>= fun _ =>
        discard (usageCollector.visit i)) ⟨s, []⟩ fun _ st' =>
          Adds (s.CollectedInVar usesOfNode (fun _ _ _ => False) id) [] st'.user := by
      refine .bind_run (Visitor.modifyStore_run _ _) (Ends.map ?_)
      refine (usageCollector_collects.builds.visit_ends _ i).mono ?_
      rintro _ st' ⟨_, _, _, _, ha⟩
      refine ha.congr fun d => ?_
      rw [CollectedInVar, hi]
      have := collected_detach blind_usesOfNode blind_nothing hi d
      simpa [detach] using this
    simp only [hi]
    exact run_filter h

theorem usesOf_eq_ok (s : Store) (symbol : Symbol) :
    ∃ l, s.usesOf symbol = .ok l ∧ ∀ d, d ∈ l ↔ s.Uses symbol d := by
  cases symbol with
  | function id =>
    obtain ⟨l, hl, hd⟩ := s.usesOf_function id
    refine ⟨l, hl, fun d => ?_⟩
    rw [hd d]
    simp only [CollectedInFunction, CollectedInVar, collected_uses]
    constructor
    · rintro ⟨⟨f, hf, (⟨a, ha, i, hi, hu⟩ | ⟨b, hb, hu⟩)⟩, alive⟩
      · exact .argument hf ha hi hu alive
      · exact .body hf hb hu alive
    · intro h
      cases h with
      | body hf hb hu alive => exact ⟨⟨_, hf, .inr ⟨_, hb, hu⟩⟩, alive⟩
      | argument hf ha hi hu alive => exact ⟨⟨_, hf, .inl ⟨_, ha, _, hi, hu⟩⟩, alive⟩
  | var id =>
    obtain ⟨l, hl, hd⟩ := s.usesOf_var id
    refine ⟨l, hl, fun d => ?_⟩
    rw [hd d]
    simp only [CollectedInVar, collected_uses]
    constructor
    · rintro ⟨⟨i, hi, hu⟩, alive⟩
      exact .initializer hi hu alive
    · intro h
      cases h with
      | initializer hi hu alive => exact ⟨⟨_, hi, hu⟩, alive⟩

def symbols (s : Store) : List Symbol :=
  (List.range s.functions.slots.size).map (fun i => .function ⟨i⟩) ++
    (List.range s.vars.slots.size).map fun i => .var ⟨i⟩

theorem length_symbols (s : Store) :
    s.symbols.length = s.functions.slots.size + s.vars.slots.size := by
  simp [symbols]

/-- Only what the tables hold uses anything. -/
theorem Uses.mem_symbols {x y : Symbol} (h : s.Uses x y) : x ∈ s.symbols := by
  have function {id : FunctionId} {f : Function} (hf : s.function? id = some f) :
      Symbol.function id ∈ s.symbols :=
    List.mem_append_left _ (List.mem_map.2 ⟨id.index, List.mem_range.2 (Table.lt_size_of_get? hf),
      rfl⟩)
  cases h with
  | body hf => exact function hf
  | argument hf => exact function hf
  | @initializer id i d hi =>
    obtain ⟨x, hx, _⟩ := get?_of_init hi
    exact List.mem_append_right _ (List.mem_map.2 ⟨id.index,
      List.mem_range.2 (Table.lt_size_of_get? hx), rfl⟩)

def unseen (s : Store) (seen : List Symbol) : Nat := (s.symbols.filter (!seen.contains ·)).length

/-- A symbol that is found is one less to find. -/
theorem unseen_append_lt {seen fresh : List Symbol} {x : Symbol} (hx : x ∈ s.symbols)
    (hs : x ∉ seen) (hf : x ∈ fresh) : s.unseen (seen ++ fresh) < s.unseen seen := by
  have split : s.symbols.filter (fun y => !(seen ++ fresh).contains y) =
      (s.symbols.filter (!seen.contains ·)).filter (!fresh.contains ·) := by
    rw [List.filter_filter]
    congr 1
    funext y
    rw [List.contains_append, Bool.not_or, Bool.and_comm]
  unfold unseen
  rw [split, List.length_filter_lt_length_iff_exists]
  exact ⟨x, List.mem_filter.2 ⟨hx, by simpa using hs⟩, by simpa using hf⟩

/-- What holds so far: everything seen is used, and everything that is not to be looked at in the
next round has all it uses seen. -/
structure Closing (s : Store) (roots seen frontier : List Symbol) : Prop where
  noted : ∀ x ∈ frontier, x ∈ seen
  used : ∀ x ∈ seen, s.Used roots x
  started : ∀ x ∈ roots, x ∈ seen
  closed : ∀ x ∈ seen, x ∉ frontier → ∀ y, s.Uses x y → y ∈ seen

theorem mapM_ok {α β : Type} {f : α → Except Fault β} {Q : α → β → Prop}
    (hf : ∀ a, ∃ b, f a = .ok b ∧ Q a b) (as : List α) :
    ∃ bs, as.mapM f = .ok bs ∧ List.Forall₂ Q as bs := by
  induction as with
  | nil => exact ⟨[], rfl, .nil⟩
  | cons a as ih =>
    obtain ⟨b, hb, hQ⟩ := hf a
    obtain ⟨bs, hbs, hQs⟩ := ih
    exact ⟨b :: bs, by rw [List.mapM_cons, hb, hbs]; rfl, .cons hQ hQs⟩

theorem mem_flatten_of_forall₂ {as : List Symbol} {bs : List (List Symbol)}
    (h : List.Forall₂ (fun a b => ∀ d, d ∈ b ↔ s.Uses a d) as bs) (d : Symbol) :
    d ∈ bs.flatten ↔ ∃ a ∈ as, s.Uses a d := by
  induction h with
  | nil => simp
  | cons h _ ih => simp [h, ih]

/-- One round: what the frontier uses is found, and what is new of it is the next frontier. -/
theorem Closing.round {roots seen frontier uses : List Symbol} (h : s.Closing roots seen frontier)
    (hu : ∀ d, d ∈ uses ↔ ∃ a ∈ frontier, s.Uses a d) :
    s.Closing roots (seen ++ uses.eraseDups.filter (!seen.contains ·))
      (uses.eraseDups.filter (!seen.contains ·)) := by
  have fresh (d : Symbol) : d ∈ uses.eraseDups.filter (!seen.contains ·) ↔
      (∃ a ∈ frontier, s.Uses a d) ∧ d ∉ seen := by
    rw [List.mem_filter, List.mem_eraseDups, hu d]
    simp
  refine ⟨fun x hx => List.mem_append_right _ hx, fun x hx => ?_,
    fun x hx => List.mem_append_left _ (h.started x hx), fun x hx hxf y hy => ?_⟩
  · rcases List.mem_append.1 hx with hx | hx
    · exact h.used x hx
    · obtain ⟨⟨a, ha, hu⟩, _⟩ := (fresh x).1 hx
      exact .use (h.used a (h.noted a ha)) hu
  · have hx : x ∈ seen := (List.mem_append.1 hx).resolve_right hxf
    by_cases hy' : y ∈ seen
    · exact List.mem_append_left _ hy'
    · refine List.mem_append_right _ ((fresh y).2 ⟨?_, hy'⟩)
      by_cases hxf : x ∈ frontier
      · exact ⟨x, hxf, hy⟩
      · exact absurd (h.closed x hx hxf y hy) hy'

/-- What is closed is all that is used. -/
theorem Closing.mem_iff {roots seen : List Symbol} (h : s.Closing roots seen []) (x : Symbol) :
    x ∈ seen ↔ s.Used roots x := by
  refine ⟨h.used x, fun hx => ?_⟩
  induction hx with
  | root hx => exact h.started _ hx
  | use _ hu ih => exact h.closed _ ih List.not_mem_nil _ hu

/-- The rounds end with all that is used. A round without a new symbol of the tables is the last but
one, as nothing else uses anything. -/
theorem closeUses_eq_ok {roots : List Symbol} (rounds : Nat) {seen frontier : List Symbol}
    (h : s.Closing roots seen frontier) (hr : 1 ≤ rounds)
    (hfuel : (∃ x ∈ frontier, x ∈ s.symbols) → s.unseen seen + 2 ≤ rounds) :
    ∃ used, s.closeUses rounds seen frontier = .ok used ∧ ∀ x, x ∈ used ↔ s.Used roots x := by
  induction rounds generalizing seen frontier with
  | zero => omega
  | succ rounds ih =>
    obtain ⟨uses, hmap, huses⟩ := mapM_ok s.usesOf_eq_ok frontier
    have hu := mem_flatten_of_forall₂ huses
    have next := h.round hu
    rw [closeUses, hmap]
    simp only [bind, Except.bind]
    cases hfresh : uses.flatten.eraseDups.filter (!seen.contains ·) with
    | nil =>
      rw [hfresh, List.append_nil] at next
      exact ⟨seen, rfl, next.mem_iff⟩
    | cons y fresh =>
      rw [hfresh] at next
      have hmem : ∀ z ∈ y :: fresh, (∃ a ∈ frontier, s.Uses a z) ∧ z ∉ seen := by
        intro z hz
        rw [← hfresh, List.mem_filter, List.mem_eraseDups, hu] at hz
        simpa using hz
      obtain ⟨⟨a, ha, hay⟩, _⟩ := hmem y (.head _)
      have hbound := hfuel ⟨a, ha, hay.mem_symbols⟩
      refine ih next (by omega) ?_
      rintro ⟨z, hz, hzs⟩
      have := unseen_append_lt hzs (hmem z hz).2 hz
      omega

/-- The symbols used are found, whatever uses what. -/
theorem reachableFrom_eq_ok (s : Store) (roots : List Symbol) :
    ∃ used, s.reachableFrom roots = .ok used ∧ ∀ x, x ∈ used ↔ s.Used roots x := by
  have start : s.Closing roots roots.eraseDups roots.eraseDups :=
    ⟨fun _ hx => hx, fun _ hx => .root (List.mem_eraseDups.1 hx),
      fun _ hx => List.mem_eraseDups.2 hx, fun _ hx hn => absurd hx hn⟩
  refine closeUses_eq_ok _ start (by omega) ?_
  rintro ⟨x, hx, hxs⟩
  have : s.unseen roots.eraseDups < s.symbols.length := by
    unfold unseen
    rw [List.length_filter_lt_length_iff_exists]
    exact ⟨x, hxs, by simpa using hx⟩
  rw [length_symbols] at this
  omega

end Store

end Frontend
