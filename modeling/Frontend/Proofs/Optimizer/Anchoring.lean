import Frontend.Proofs.Optimizer.Anchors

/-!
# The rules keep anchors

Constants and branches are only chosen where all held children are literals, and literals hold no
anchor. In a list of statements an anchored one stays in place while others around it are inlined or
dropped. Each rule keeps the anchors that are safe from its own cuts.
-/

namespace Frontend

variable {cuts : Cuts} {s s₀ : Store} {k : Int32} {e e' c : Expr}

section Constants

theorem Expr.isLiteral_of_const? {c : Constant} (h : e.const? = some c) : e.isLiteral = true := by
  unfold const? at h
  unfold isLiteral
  split at h
  · rename_i hn
    rw [hn]
  · cases h

theorem isLiteral_of_condition? {b : Bool} (h : condition? e = some b) : e.isLiteral = true := by
  obtain ⟨c, hc, _⟩ := Option.bind_eq_some_iff.1 h
  exact Expr.isLiteral_of_const? hc

theorem Expr.isLiteral_of_literalText? {es : List Expr} {text : String}
    (h : literalText? es = some text) : ∀ e ∈ es, e.isLiteral = true := by
  induction es generalizing text with
  | nil => exact fun e he => by cases he
  | cons e es ih =>
    have hrest {front : String} (h : (do return front ++ (← literalText? es)) = some text) :
        ∀ e ∈ es, e.isLiteral = true := by
      simp only [Option.bind_eq_bind, Option.bind_eq_some_iff] at h
      obtain ⟨rest, hrest, _⟩ := h
      exact ih hrest
    unfold literalText? at h
    split at h
    · rename_i hn
      exact List.forall_mem_cons.2 ⟨by rw [isLiteral, hn], hrest h⟩
    · rename_i hn
      obtain ⟨front, _, h⟩ := Option.bind_eq_some_iff.1 h
      exact List.forall_mem_cons.2 ⟨by rw [isLiteral, hn], hrest h⟩
    · cases h

end Constants

namespace Store

/-- What is folded to a constant only holds literals. -/
theorem foldConstant_held (h : s.foldConstant? e = some e') :
    (∀ c ∈ e.node.held, c.isLiteral = true) ∧ e.node.foldable = true ∧
      e.node.branches = [] ∧ e.node.sections = [] := by
  unfold foldConstant? at h
  split at h
  · rename_i hn
    split at h
    · simp only [Option.bind_eq_bind, Option.bind_eq_some_iff] at h
      obtain ⟨a, ha, _⟩ := h
      rw [hn]
      exact ⟨List.forall_mem_singleton.2 (Expr.isLiteral_of_const? ha), rfl, rfl, rfl⟩
    · cases h
  · rename_i hn
    split at h
    · simp only [Option.bind_eq_bind, Option.bind_eq_some_iff] at h
      obtain ⟨a, ha, b, hb, _⟩ := h
      rw [hn]
      exact ⟨List.forall_mem_cons.2 ⟨Expr.isLiteral_of_const? ha,
        List.forall_mem_singleton.2 (Expr.isLiteral_of_const? hb)⟩, rfl, rfl, rfl⟩
    · cases h
  · rename_i hn
    obtain ⟨text, htext, _⟩ := Option.map_eq_some_iff.1 h
    rw [hn]
    exact ⟨Expr.isLiteral_of_literalText? htext, rfl, rfl, rfl⟩
  · cases h

/-- Where a branch is chosen the only held child is a literal. What is chosen was exposed, or it is
the empty block. -/
theorem chooseBranch_held (h : s.chooseBranch? e = some e') :
    (∃ cond, e.node.held = [cond] ∧ cond.isLiteral = true) ∧ e.isLabel = false ∧
      e.node.sections = [] ∧ (e.node.foldable = true ∨ e'.node.foldable = false) ∧
      (e' ∈ e.node.exposed ∨ e' = .emptyBlock e.span) := by
  unfold chooseBranch? at h
  split at h
  · rename_i cond ifTrue ifFalse isStatic hn
    obtain ⟨b, hb, rfl⟩ := Option.map_eq_some_iff.1 h
    rw [Expr.isLabel, hn]
    refine ⟨⟨cond, rfl, isLiteral_of_condition? hb⟩, rfl, rfl, .inl rfl, ?_⟩
    cases b with
    | true => exact .inl (.head _)
    | false =>
      cases ifFalse with
      | none => exact .inr rfl
      | some ifFalse => exact .inl (.tail _ (.head _))
  · rename_i cond body hn
    split at h
    · rename_i hb
      cases h
      rw [Expr.isLabel, hn]
      exact ⟨⟨cond, rfl, isLiteral_of_condition? hb⟩, rfl, rfl, .inr rfl, .inr rfl⟩
    · cases h
  · rename_i op cond left right function hn
    split at h
    · obtain ⟨b, hb, rfl⟩ := Option.map_eq_some_iff.1 h
      rw [Expr.isLabel, hn]
      refine ⟨⟨cond, rfl, isLiteral_of_condition? hb⟩, rfl, rfl, .inl rfl, .inl ?_⟩
      cases b with
      | true => exact .head _
      | false => exact .tail _ (.head _)
    · cases h
  · cases h

/-- A statement that neither leaves nor exposes anything. -/
theorem Passable.of_bare (hn : s.leavesBy e.node = false) (h : e.node.exposed = []) :
    s.Passable e :=
  .exposed hn fun c hc => by
    rw [h] at hc
    cases hc

theorem Passable.of_exposed (h : s.Passable e)
    (hif : ∀ cond ifTrue ifFalse isStatic, e.node ≠ .ifThenElse cond ifTrue ifFalse isStatic) :
    ∀ c ∈ e.node.exposed, s.Passable c := by
  cases h with
  | exposed _ h => exact h
  | noElse hn => exact absurd hn (hif _ _ _ _)
  | oneBranch hn => exact absurd hn (hif _ _ _ _)

theorem passable_of_isLabel (s : Store) (h : e.isLabel = true) : s.Passable e := by
  obtain ⟨span, type, flags, node⟩ := e
  cases node with
  | label => exact .of_bare rfl rfl
  | _ => cases h

theorem passable_of_isLiteral (s : Store) (h : e.isLiteral = true) : s.Passable e := by
  obtain ⟨span, type, flags, node⟩ := e
  cases node with
  | literal => exact .of_bare rfl rfl
  | _ => cases h

/-- Whichever branch is chosen, a statement that could be passed still can. -/
theorem passable_chooseBranch (h : s.chooseBranch? e = some e') (he : s₀.Passable e) :
    s₀.Passable e' := by
  obtain ⟨⟨cond, hheld, hliteral⟩, -, -, -, hchosen⟩ := chooseBranch_held h
  have unknown {ifTrue : Expr} {ifFalse : Option Expr} {isStatic : Bool} {x : Expr}
      (hn : e.node = .ifThenElse x ifTrue ifFalse isStatic) (hx : x.Lasting) : False := by
    rw [hn, Node.held, List.cons.injEq] at hheld
    rw [← hheld.1, hx.not_literal] at hliteral
    cases hliteral
  cases he with
  | exposed _ he =>
    rcases hchosen with hmem | rfl
    · exact he e' hmem
    · exact .of_bare rfl rfl
  | noElse hn hcond => exact (unknown hn hcond).elim
  | oneBranch hn hcond => exact (unknown hn hcond).elim

end Store

namespace Expr

theorem isLabel_of_labels (h : e.node.labels k = true) : e.isLabel = true := by
  obtain ⟨span, type, flags, node⟩ := e
  cases node with
  | label => rfl
  | _ => cases h

theorem isLabel_of_foldable (h : e.node.foldable = true) : e.isLabel = false := by
  obtain ⟨span, type, flags, node⟩ := e
  cases node with
  | label => cases h
  | _ => rfl

namespace KeepsAnchors

/-- Where all held children are literals there is no anchor, but in branches that are safe only from
other cuts. -/
theorem of_literals (hcount : ∀ {p}, Node.IsKind p → e'.count p ≤ e.count p)
    (hlabel : e.isLabel = false) (hheld : ∀ c ∈ e.node.held, c.isLiteral = true)
    (hkind : e.node.foldable = true ∨ e'.node.foldable = false)
    (hpassable : s.Passable e → s.Passable e')
    (hbranches : e.node.branches = [] ∨ cuts.branches = true ∧ e.node.held ≠ [])
    (hsections : e.node.sections = []) : KeepsAnchors cuts s e e' where
  count := hcount
  label he := by
    rw [hlabel] at he
    cases he
  lasting he := by
    rcases hkind with hkind | hkind
    · cases he with
      | kind he =>
        rw [hkind] at he
        cases he
      | held hc he => exact absurd (hheld _ hc) (by simp [he.not_literal])
    · exact .kind hkind
  passable := hpassable
  anchored he := by
    cases he with
    | label he =>
      rw [isLabel_of_labels he] at hlabel
      cases hlabel
    | held hc he => exact absurd (hheld _ hc) (by simp [he.not_literal])
    | branch hc hcond =>
      rcases hbranches with hnone | ⟨hcut, hsome⟩
      · rw [hnone] at hc
        cases hc
      · obtain ⟨cond, hmem⟩ := List.exists_mem_of_ne_nil _ hsome
        exact absurd (hheld cond hmem) (by simp [(hcond hcut cond hmem).not_literal])
    | statement hl =>
      rw [hsections] at hl
      cases hl

theorem foldConstant (h : s.foldConstant? e = some e') : KeepsAnchors cuts s₀ e e' := by
  obtain ⟨hheld, hfoldable, hbranches, hsections⟩ := Store.foldConstant_held h
  exact of_literals (fun hp => Store.count_foldConstant hp h) (isLabel_of_foldable hfoldable) hheld
    (.inl hfoldable) (fun _ => s₀.passable_of_isLiteral (Store.foldConstant_cases h).2)
    (.inl hbranches) hsections

theorem chooseBranch (hcut : cuts.branches = true) (h : s.chooseBranch? e = some e') :
    KeepsAnchors cuts s₀ e e' := by
  obtain ⟨⟨cond, hheld, hliteral⟩, hlabel, hsections, hkind, -⟩ := Store.chooseBranch_held h
  refine of_literals (fun hp => Store.count_chooseBranch hp h) hlabel (fun c hc => ?_) hkind
    (Store.passable_chooseBranch h) (.inr ⟨hcut, by simp [hheld]⟩) hsections
  rw [hheld, List.mem_singleton] at hc
  exact hc ▸ hliteral

end KeepsAnchors

section References

variable {mode : Conversion} {value : Expr}

theorem Lasting.of_convert (hn : e.node = .convert mode value) (h : e.Lasting) :
    value.Lasting := by
  cases h with
  | kind h =>
    rw [hn] at h
    cases h
  | held hc h =>
    rw [hn] at hc
    obtain rfl := List.mem_singleton.1 hc
    exact h

theorem Anchored.of_convert (hn : e.node = .convert mode value) (h : e.Anchored cuts s k) :
    value.Anchored cuts s k := by
  cases h with
  | label h =>
    rw [hn] at h
    cases h
  | held hc h =>
    rw [hn] at hc
    obtain rfl := List.mem_singleton.1 hc
    exact h
  | branch hc =>
    rw [hn] at hc
    cases hc
  | statement hl =>
    rw [hn] at hl
    cases hl

/-- A conversion holds what its value holds. -/
theorem KeepsAnchors.of_convert (hn : e.node = .convert mode value) :
    KeepsAnchors cuts s e value where
  count _ := count_le_of_visited _ (by rw [hn]; exact .head _)
  label he := by
    rw [Expr.isLabel, hn] at he
    cases he
  lasting := Lasting.of_convert hn
  passable he := he.of_exposed (by simp [hn]) value (by rw [hn]; exact .head _)
  anchored := Anchored.of_convert hn

theorem KeepsAnchors.cancelReference (h : e.cancelReference? = some e') :
    KeepsAnchors cuts s e e' := by
  unfold cancelReference? at h
  split at h
  · rename_i hn
    split at h
    · cases h
      exact of_convert hn
    · cases h
  · rename_i hn
    cases h
    exact (of_convert hn).trans (of_convert rfl)
  · rename_i hn
    cases h
    exact (of_convert hn).trans (of_convert rfl)
  · cases h

end References

end Expr

/-- One of the statements is anchored, with those before it. -/
def Store.Lays (s : Store) (cuts : Cuts) (k : Int32) (stmts : List Expr) : Prop :=
  ∃ front c back, stmts = front ++ c :: back ∧
    (cuts.statements = true → c.isLabel = true ∨ s.Reaches True front) ∧
    c.Anchored cuts s k

namespace Expr

section Blocks

variable {info : BlockInfo} {list finalList list' finalList' : List Expr}

theorem anchored_block (hn : e.node = .block info list finalList) :
    e.Anchored cuts s k ↔ s.Lays cuts k list ∨ s.Lays cuts k finalList := by
  constructor
  · intro h
    cases h with
    | label h =>
      rw [hn] at h
      cases h
    | held hc =>
      rw [hn] at hc
      cases hc
    | branch hc =>
      rw [hn] at hc
      cases hc
    | statement hl hreach h =>
      simp only [hn, Node.sections, List.mem_cons, List.not_mem_nil, or_false] at hl
      exact hl.imp (fun hl => ⟨_, _, _, hl.symm, hreach, h⟩) fun hl => ⟨_, _, _, hl.symm, hreach, h⟩
  · rintro (⟨front, c, back, rfl, hreach, h⟩ | ⟨front, c, back, rfl, hreach, h⟩)
    · exact .statement (by rw [hn]; exact .head _) hreach h
    · exact .statement (by rw [hn]; exact .tail _ (.head _)) hreach h

/-- A block keeps its anchors if each of its two lists does. -/
theorem KeepsAnchors.block (hn : e.node = .block info list finalList)
    (hcount : ∀ {p}, Node.IsKind p →
      Expr.count p { e with node := .block info list' finalList' } ≤ e.count p)
    (hpassable : (∀ c ∈ list, s.Passable c) → ∀ c ∈ list', s.Passable c)
    (hlist : ∀ {k}, s.Lays cuts k list → s.Lays cuts k list')
    (hfinal : ∀ {k}, s.Lays cuts k finalList → s.Lays cuts k finalList') :
    KeepsAnchors cuts s e { e with node := .block info list' finalList' } where
  count := hcount
  label he := by
    rw [Expr.isLabel, hn] at he
    cases he
  lasting _ := .kind rfl
  passable he := .exposed rfl <| hpassable <| by
    have := he.of_exposed (by simp [hn])
    rwa [hn] at this
  anchored he := (anchored_block rfl).2 (((anchored_block hn).1 he).imp hlist hfinal)

theorem dropConstants_split (s : Store) (keepLast : Bool) (hc : c.isLiteral = false)
    (front back : List Expr) : ∃ front' back',
      dropConstants keepLast (front ++ c :: back) = front' ++ c :: back' ∧
        ∀ start, s.Reaches start front → s.Reaches start front' := by
  induction front with
  | nil =>
    refine ⟨[], ?_⟩
    cases back with
    | nil => exact ⟨[], by simp [dropConstants, hc], fun _ h => h⟩
    | cons => exact ⟨_, by simp [dropConstants, hc]; rfl, fun _ h => h⟩
  | cons e front ih =>
    obtain ⟨front', back', heq, hreach⟩ := ih
    -- The statement is not the last one, whatever is before the anchored one.
    have step : dropConstants keepLast (e :: (front ++ c :: back)) =
        if !e.isLiteral then e :: dropConstants keepLast (front ++ c :: back)
        else dropConstants keepLast (front ++ c :: back) := by
      cases front <;> rfl
    rw [List.cons_append, step, heq]
    cases hliteral : e.isLiteral with
    | false => exact ⟨e :: front', back', rfl, fun start h => hreach _ h⟩
    | true =>
      refine ⟨front', back', rfl, fun start h => hreach start ?_⟩
      rw [Store.reaches_cons] at h
      refine h.mono fun hstep => ?_
      rcases hstep with hstep | hlabel
      · exact hstep.1
      · obtain ⟨span, type, flags, node⟩ := e
        cases node with
        | literal => cases hlabel
        | _ => cases hliteral

theorem KeepsAnchors.cleanBlock (h : e.cleanBlock? = some e') : KeepsAnchors cuts s e e' := by
  have lays (keepLast : Bool) {k : Int32} {l : List Expr} (h : s.Lays cuts k l) :
      s.Lays cuts k (dropConstants keepLast l) := by
    obtain ⟨front, c, back, rfl, hreach, hc⟩ := h
    obtain ⟨front', back', heq, hkeep⟩ := dropConstants_split s keepLast hc.not_literal front back
    exact ⟨front', c, back', heq, fun hcut => (hreach hcut).imp_right (hkeep True), hc⟩
  have hcount {p : Node → Bool} (hp : Node.IsKind p) := count_cleanBlock hp h
  obtain ⟨info, list, finalList, hn, rfl, -⟩ := cleanBlock_cases h
  have hpassable (h : ∀ c ∈ list, s.Passable c) :
      ∀ c ∈ dropConstants info.yieldsValue list, s.Passable c :=
    fun c hc => h c ((dropConstants_sublist _ _).subset hc)
  exact .block hn hcount hpassable (lays _) (lays _)

/-- A statement in reach is not dropped. -/
theorem reachable_split {leaves : Expr → Bool} (hleaves : ∀ e, s.Passable e → leaves e = false)
    {start : Prop} (skipping : Bool) (hstart : start → skipping = false) {front : List Expr}
    (back : List Expr) (h : c.isLabel = true ∨ s.Reaches start front) : ∃ front' back',
      reachable leaves skipping (front ++ c :: back) = front' ++ c :: back' ∧
        (c.isLabel = true ∨ s.Reaches start front') := by
  -- Along the list nothing is skipped as long as the next statement is in reach.
  induction front generalizing start skipping with
  | nil =>
    have stays : (skipping && !c.isLabel) = false := by
      rcases h with h | h
      · rw [h, Bool.not_true, Bool.and_false]
      · rw [hstart h, Bool.false_and]
    exact ⟨[], _, by simp [reachable, stays]; rfl, h⟩
  | cons e front ih =>
    rw [List.cons_append, reachable]
    rw [Store.reaches_cons] at h
    cases hskip : skipping && !e.isLabel with
    | true =>
      obtain ⟨hskipping, hlabel⟩ := (Bool.and_eq_true _ _).mp hskip
      have unreached : ¬ start := fun h => by
        rw [hstart h] at hskipping
        cases hskipping
      have hlabel : ¬ e.isLabel = true := by simpa using hlabel
      refine ih true (fun h => absurd h unreached) (h.imp_right fun h => h.mono ?_)
      exact Or.rec And.left fun h => absurd h hlabel
    | false =>
      have next : start ∧ s.Passable e ∨ e.isLabel = true → leaves e = false := fun hstep =>
        hleaves e (hstep.elim And.right s.passable_of_isLabel)
      obtain ⟨front', back', heq, hreach⟩ := ih (leaves e) next h
      exact ⟨e :: front', back', by rw [heq]; rfl, hreach⟩

end Blocks

section Inlining

theorem inlined_cases (e : Expr) : inlined e = [e] ∨
    ∃ info list, e.node = .block info list [] ∧ inlined e = inlineAll list := by
  rcases e.stays_or_dissolves with h | ⟨list, h⟩
  · exact .inl h.inlined
  · have hlist := h.inlined
    obtain ⟨info, hn, -⟩ := h
    exact .inr ⟨info, list, hn, hlist⟩

theorem inlined_of_isLabel (h : e.isLabel = true) : inlined e = [e] := by
  rcases inlined_cases e with heq | ⟨info, list, hn, -⟩
  · exact heq
  · rw [isLabel, hn] at h
    cases h

theorem passable_inlineAll {es : List Expr} (h : ∀ e ∈ es, ∀ x ∈ inlined e, s.Passable x) :
    ∀ x ∈ inlineAll es, s.Passable x := by
  induction es with
  | nil => exact fun x hx => by cases hx
  | cons e es ih =>
    obtain ⟨he, hes⟩ := List.forall_mem_cons.1 h
    exact List.forall_mem_append.2 ⟨he, ih hes⟩

/-- What a statement that can be passed is inlined to can be passed. -/
theorem passable_inlined (h : s.Passable e) : ∀ x ∈ inlined e, s.Passable x := by
  have single {e : Expr} (h : s.Passable e) (heq : inlined e = [e]) :
      ∀ x ∈ inlined e, s.Passable x := by
    rw [heq]
    exact List.forall_mem_singleton.2 h
  induction h with
  | @exposed e hn h ih =>
    rcases inlined_cases e with heq | ⟨info, list, hblock, heq⟩
    · exact single (.exposed hn h) heq
    · rw [heq]
      rw [hblock] at ih
      exact passable_inlineAll ih
  | @noElse e _ _ _ hn hcond =>
    rcases inlined_cases e with heq | ⟨info, list, hblock, heq⟩
    · exact single (.noElse hn hcond) heq
    · rw [hn] at hblock
      cases hblock
  | @oneBranch e _ _ _ _ _ hn hcond hc h _ =>
    rcases inlined_cases e with heq | ⟨info, list, hblock, heq⟩
    · exact single (.oneBranch hn hcond hc h) heq
    · rw [hn] at hblock
      cases hblock

/-- What is in reach stays so when the statements before it are inlined. -/
theorem reaches_inlineAll {start : Prop} {front : List Expr} (h : s.Reaches start front) :
    s.Reaches start (inlineAll front) := by
  induction front generalizing start with
  | nil => exact h
  | cons e front ih =>
    rw [inlineAll, Store.reaches_append]
    refine (ih h).mono fun hstep => ?_
    rcases hstep with ⟨hstart, hpassable⟩ | hlabel
    · exact Store.reaches_of_passable hstart (passable_inlined hpassable)
    · rw [inlined_of_isLabel hlabel]
      exact .inr hlabel

/-- An anchored statement that is inlined lays an anchored one in its place. -/
theorem lays_inlineAll {front : List Expr} (back : List Expr)
    (hreach : cuts.statements = true → c.isLabel = true ∨ s.Reaches True front)
    (h : s.Lays cuts k (inlined c)) : s.Lays cuts k (inlineAll (front ++ c :: back)) := by
  obtain ⟨inner, x, rest, heq, hinner, hx⟩ := h
  refine ⟨inlineAll front ++ inner, x, rest ++ inlineAll back, ?_, fun hcut => ?_, hx⟩
  · rw [inlineAll_append, inlineAll, heq]
    simp only [List.append_assoc, List.cons_append]
  · rcases hreach hcut with hlabel | hfront
    · rw [inlined_of_isLabel hlabel] at heq
      obtain ⟨rfl, rfl⟩ : inner = [] ∧ x = c := by
        cases inner with
        | nil => exact ⟨rfl, (List.cons.inj heq).1.symm⟩
        | cons y inner =>
          have := (List.cons.inj heq).2
          simp at this
      exact .inl hlabel
    · refine (hinner hcut).imp_right fun h => Store.reaches_append.2 (h.mono fun _ => ?_)
      exact reaches_inlineAll hfront

theorem Anchored.lays_inlined (h : c.Anchored cuts s k) : s.Lays cuts k (inlined c) := by
  have single {e : Expr} (h : e.Anchored cuts s k) (heq : inlined e = [e]) :
      s.Lays cuts k (inlined e) := ⟨[], e, [], heq, fun _ => .inr True.intro, h⟩
  induction h with
  | label h => exact single (.label h) (inlined_of_isLabel (isLabel_of_labels h))
  | @held e c hc h _ =>
    rcases inlined_cases e with heq | ⟨info, list, hn, -⟩
    · exact single (.held hc h) heq
    · rw [hn] at hc
      cases hc
  | @branch e c hc hcond h _ =>
    rcases inlined_cases e with heq | ⟨info, list, hn, -⟩
    · exact single (.branch hc hcond h) heq
    · rw [hn] at hc
      cases hc
  | @statement e c front back hl hreach h ih =>
    rcases inlined_cases e with heq | ⟨info, list, hn, heq⟩
    · exact single (.statement hl hreach h) heq
    · simp only [hn, Node.sections, List.mem_cons, List.not_mem_nil, or_false,
        List.append_eq_nil_iff, reduceCtorEq, and_false] at hl
      rw [heq, ← hl]
      exact lays_inlineAll back hreach ih

end Inlining

theorem KeepsAnchors.tidyBlock (hcut : cuts.statements = true) (hpanic : s.PanicsIn s₀)
    (h : s.tidyBlock? e = some e') : KeepsAnchors cuts s₀ e e' := by
  have hleaves (x : Expr) (hx : s₀.Passable x) : s.alwaysLeaves x = false :=
    hx.not_alwaysLeaves hpanic
  -- First the blocks are inlined, then the flat list is cut.
  have lays {k : Int32} {l : List Expr} (h : s₀.Lays cuts k l) :
      s₀.Lays cuts k (tidied s.alwaysLeaves l) := by
    obtain ⟨front, c, back, rfl, hreach, hc⟩ := h
    obtain ⟨front, c, back, heq, hreach, hc⟩ := lays_inlineAll back hreach hc.lays_inlined
    obtain ⟨front', back', hsplit, hreach'⟩ :=
      reachable_split hleaves false (fun _ => rfl) back (hreach hcut)
    rw [tidied, heq]
    exact ⟨front', c, back', hsplit, fun _ => hreach', hc⟩
  have hcount {p : Node → Bool} (hp : Node.IsKind p) := Store.count_tidyBlock hp h
  obtain ⟨info, list, finalList, hn, rfl, -⟩ := Store.tidyBlock_cases h
  have hpassable (h : ∀ c ∈ list, s₀.Passable c) :
      ∀ c ∈ tidied s.alwaysLeaves list, s₀.Passable c := fun c hc =>
    passable_inlineAll (fun e he => passable_inlined (h e he)) c
      ((reachable_sublist _ _ _).subset hc)
  exact .block hn hcount hpassable lays lays

end Expr

end Frontend
