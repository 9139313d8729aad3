import Mathlib.Data.Set.Basic
import Frontend.Proofs.Optimizer.Idle

/-!
# What a collection retains

Functions are owned by modules and rewriters only. Where all modules and rewriters that there are
stay, the functions of a set that they own stay as well, and so does all that the trees of these
functions and of the globals own: arguments, variables that are named, and what their initializers
own in turn. What such symbols use before a collection they use after it.
-/

namespace Frontend

namespace Holdings

structure Plain (h : Holdings) : Prop where
  functions : h.functions = []
  modules : h.modules = []
  rewriters : h.rewriters = []

namespace Plain

variable {a b : Holdings} {l : List Holdings}

theorem append (ha : a.Plain) (hb : b.Plain) : (a ++ b).Plain where
  functions := by rw [functions_append, ha.functions, hb.functions, List.append_nil]
  modules := by rw [modules_append, ha.modules, hb.modules, List.append_nil]
  rewriters := by rw [rewriters_append, ha.rewriters, hb.rewriters, List.append_nil]

theorem join (h : ∀ a ∈ l, a.Plain) : (join l).Plain := by
  induction l with
  | nil => exact ⟨rfl, rfl, rfl⟩
  | cons a l ih => exact (h a (.head _)).append (ih fun b hb => h b (.tail _ hb))

theorem join_map {α : Type} {f : α → Holdings} (h : ∀ a, (f a).Plain) (l : List α) :
    (Holdings.join (l.map f)).Plain := by
  refine join fun a ha => ?_
  obtain ⟨b, _, rfl⟩ := List.mem_map.1 ha
  exact h b

theorem ofOption (e : Option Expr) : (ofOption e).Plain := by
  cases e <;> exact ⟨rfl, rfl, rfl⟩

theorem function (f : Function) : f.holdings.Plain :=
  (append (append ⟨rfl, rfl, rfl⟩ (ofOption f.body)) ⟨rfl, rfl, rfl⟩)

theorem struct (x : Struct) : x.holdings.Plain :=
  (join_map (fun _ => ofOption _) _).append ⟨rfl, rfl, rfl⟩

theorem enumeration (e : Enumeration) : e.holdings.Plain := join_map (fun _ => ofOption _) _

end Plain

end Holdings

/-- A rewriter owns neither modules nor rewriters. -/
theorem Rewriter.holdings_code (r : Rewriter) :
    (∀ id, id ∉ r.holdings.modules) ∧ ∀ id, id ∉ r.holdings.rewriters := by
  unfold Rewriter.holdings
  cases r.script? with
  | none => exact ⟨fun _ => List.not_mem_nil, fun _ => List.not_mem_nil⟩
  | some script =>
    refine ⟨fun id hid => ?_, fun id hid => ?_⟩
    · obtain ⟨_, hmem, hid⟩ := Holdings.mem_modules_join.1 hid
      obtain ⟨rule, _, rfl⟩ := List.mem_map.1 hmem
      cases h : rule.action <;> rw [h] at hid <;> cases hid
    · obtain ⟨_, hmem, hid⟩ := Holdings.mem_rewriters_join.1 hid
      obtain ⟨rule, _, rfl⟩ := List.mem_map.1 hmem
      cases h : rule.action <;> rw [h] at hid <;> cases hid

theorem Node.declared_subset_vars (n : Node) : n.declared ⊆ n.vars := by
  cases n with
  | block | declare => exact fun _ h => h
  | _ => exact nofun

theorem Node.var_mem_vars {n : Node} {v : VarId} (h : .var v ∈ n.uses) : v ∈ n.vars := by
  cases n with
  | var ref =>
    simp only [uses] at h
    split at h
    · cases h
    · simpa [vars] using h
  | call | address | op1 | op2 | op3 => simp [uses] at h
  | _ => cases h

namespace Expr

variable {e c : Expr} {v : VarId}

theorem mem_vars_of_node (h : v ∈ e.node.vars) : v ∈ e.vars := by
  cases e
  exact List.mem_flatMap.2 ⟨_, .head _, h⟩

theorem mem_vars_of_visited (hc : c ∈ e.node.visited) (hv : v ∈ c.vars) : v ∈ e.vars := by
  let names (x : Expr) : Nat := if v ∈ x.node.vars then 1 else 0
  obtain ⟨x, hx, hv⟩ := List.mem_flatMap.1 hv
  have hone : names x = 1 := if_pos hv
  have hle : names x ≤ c.size names := le_total_of_mem names hx
  have hle' : c.size names ≤ e.size names := by
    have := le_total_of_mem (size names) hc
    rw [size_eq names e]
    omega
  obtain ⟨y, hy, hpos⟩ := exists_pos_of_total_pos (show 0 < total names e.subtrees by
    change 0 < e.size names
    omega)
  refine List.mem_flatMap.2 ⟨y, hy, ?_⟩
  by_contra hno
  rw [show names y = 0 from if_neg hno] at hpos
  exact absurd hpos (Nat.lt_irrefl 0)

end Expr

/-- A table from which nothing that is there would go has only owned objects. -/
theorem Table.mem_of_count_owned {kind : ObjectKind} {α : Type} {t : Table kind α}
    {ids : List (Id kind)} (h : (t.owned ids).count = t.count) {id : Id kind} {a : α}
    (ha : t.get? id = some a) : id ∈ ids := by
  rw [Table.count_eq_length, Table.count_eq_length, Table.owned, Table.toList_restrict,
    List.length_filter_eq_length_iff] at h
  have := h (id, a) (Table.mem_toList.2 ha)
  rw [Marks.contains_ofList, decide_eq_true_eq] at this
  exact this.2

namespace Store

variable {s t u : Store} {outside : Holdings} {F : Set FunctionId}

/-- What a store holds besides what modules and rewriters hold. -/
theorem holdings_eq (s : Store) : ∃ data : Holdings, data.Plain ∧
    s.holdings = data ++ .join (s.modules.toList.map (·.2.holdings)) ++
      .join (s.rewriters.toList.map (·.2.holdings)) := by
  refine ⟨_, ?_, rfl⟩
  exact .append (.append (.append (.append (.join_map (fun _ => .function _) _)
    (.join_map (fun _ => .struct _) _)) (.join_map (fun _ => .enumeration _) _))
    (.join_map (fun _ => ⟨rfl, rfl, rfl⟩) _)) (.join_map (fun _ => .ofOption _) _)

/-- Functions are owned by modules and rewriters. -/
theorem mem_holdings_functions {id : FunctionId} : id ∈ s.holdings.functions ↔
    (∃ m x, s.modules.get? m = some x ∧ id ∈ x.holdings.functions) ∨
      ∃ r y, s.rewriters.get? r = some y ∧ id ∈ y.holdings.functions := by
  obtain ⟨data, hdata, h⟩ := s.holdings_eq
  rw [h, Holdings.functions_append, Holdings.functions_append, hdata.functions, List.nil_append,
    List.mem_append, Holdings.mem_functions_join, Holdings.mem_functions_join]
  simp [Table.mem_toList]

/-- Modules are owned from outside only. -/
theorem not_mem_holdings_modules (id : ModuleId) : id ∉ s.holdings.modules := by
  obtain ⟨data, hdata, h⟩ := s.holdings_eq
  rw [h, Holdings.modules_append, Holdings.modules_append, hdata.modules, List.nil_append,
    List.mem_append, Holdings.mem_modules_join, Holdings.mem_modules_join]
  rintro (⟨_, hmem, hid⟩ | ⟨_, hmem, hid⟩)
  · obtain ⟨x, _, rfl⟩ := List.mem_map.1 hmem
    cases hid
  · obtain ⟨x, _, rfl⟩ := List.mem_map.1 hmem
    exact (Rewriter.holdings_code x.2).1 id hid

/-- Rewriters are owned by modules. -/
theorem mem_holdings_rewriters {id : RewriterId} : id ∈ s.holdings.rewriters ↔
    ∃ m x, s.modules.get? m = some x ∧ id ∈ x.rewriters := by
  obtain ⟨data, hdata, h⟩ := s.holdings_eq
  rw [h, Holdings.rewriters_append, Holdings.rewriters_append, hdata.rewriters, List.nil_append,
    List.mem_append, Holdings.mem_rewriters_join, Holdings.mem_rewriters_join]
  constructor
  · rintro (⟨_, hmem, hid⟩ | ⟨_, hmem, hid⟩)
    · obtain ⟨⟨m, x⟩, hx, rfl⟩ := List.mem_map.1 hmem
      exact ⟨m, x, Table.mem_toList.1 hx, hid⟩
    · obtain ⟨x, _, rfl⟩ := List.mem_map.1 hmem
      exact absurd hid ((Rewriter.holdings_code x.2).2 id)
  · rintro ⟨m, x, hx, hid⟩
    exact .inl ⟨_, List.mem_map.2 ⟨(m, x), Table.mem_toList.2 hx, rfl⟩, hid⟩

/-- All modules and rewriters that there are stay in collections, and the functions of the set have
an owner among them. -/
structure Secure (s : Store) (outside : Holdings) (F : Set FunctionId) : Prop where
  modules : ∀ m x, s.modules.get? m = some x → m ∈ outside.modules
  rewriters : ∀ r y, s.rewriters.get? r = some y → r ∈ (outside ++ s.holdings).rewriters
  functions : ∀ id ∈ F, ∀ f, s.function? id = some f → id ∈ (outside ++ s.holdings).functions

/-- Where everything is owned, all functions have an owner. -/
theorem Settled.secure (h : s.Settled outside) : s.Secure outside Set.univ := by
  have := Table.count_owned_le s.functions (outside ++ s.holdings).functions
  have := Table.count_owned_le s.structs (outside ++ s.holdings).structs
  have := Table.count_owned_le s.enumerations (outside ++ s.holdings).enumerations
  have := Table.count_owned_le s.annots (outside ++ s.holdings).annots
  have := Table.count_owned_le s.vars (outside ++ s.holdings).vars
  have := Table.count_owned_le s.modules (outside ++ s.holdings).modules
  have := Table.count_owned_le s.rewriters (outside ++ s.holdings).rewriters
  unfold Settled at h
  simp only [count, sweep] at h
  refine ⟨fun m x hx => ?_, fun r y hy => ?_, fun id _ f hf => ?_⟩
  · have hm : m ∈ (outside ++ s.holdings).modules :=
      Table.mem_of_count_owned (t := s.modules) (by omega) hx
    rw [Holdings.modules_append, List.mem_append] at hm
    exact hm.resolve_right (not_mem_holdings_modules m)
  · exact Table.mem_of_count_owned (t := s.rewriters) (by omega) hy
  · exact Table.mem_of_count_owned (t := s.functions) (by omega) hf

/-- The variables that functions of the set and the globals own, directly or through
initializers. -/
inductive Keeps (s : Store) (F : Set FunctionId) : VarId → Prop
  | global {m x v} (hx : s.modules.get? m = some x) (hv : v ∈ x.globalOrder) : Keeps s F v
  | function {id f v} (hid : id ∈ F) (hf : s.function? id = some f) (hv : v ∈ f.holdings.vars) :
    Keeps s F v
  | init {w i v} (h : Keeps s F w) (hi : (s.var w).init = some i) (hv : v ∈ i.vars) : Keeps s F v

theorem keeps_of_mem_globalOrder {m : ModuleId} {v : VarId} (hv : v ∈ (s.module m).globalOrder) :
    s.Keeps F v := by
  cases hm : s.modules.get? m with
  | none =>
    rw [module, module?, hm] at hv
    cases hv
  | some x =>
    rw [module, module?, hm] at hv
    exact .global hm hv

structure Retains (s t : Store) (F : Set FunctionId) : Prop where
  modules : ∀ m, t.modules.get? m = s.modules.get? m
  rewriters : ∀ r, t.rewriters.get? r = s.rewriters.get? r
  functions : ∀ id ∈ F, t.function? id = s.function? id
  vars : ∀ v, s.Keeps F v → t.vars.get? v = s.vars.get? v

namespace Retains

theorem refl (s : Store) (F : Set FunctionId) : s.Retains s F :=
  ⟨fun _ => rfl, fun _ => rfl, fun _ _ => rfl, fun _ _ => rfl⟩

theorem var (h : s.Retains t F) {v : VarId} (hv : s.Keeps F v) : t.var v = s.var v := by
  rw [Store.var, h.vars v hv]
  rfl

theorem module (h : s.Retains t F) (m : ModuleId) : t.module m = s.module m := by
  rw [Store.module, Store.module, module?, module?, h.modules]

theorem keeps (h : s.Retains t F) {v : VarId} (hv : s.Keeps F v) : t.Keeps F v := by
  induction hv with
  | global hx hv => exact .global ((h.modules _).trans hx) hv
  | function hid hf hv => exact .function hid ((h.functions _ hid).trans hf) hv
  | init hw hi hv ih => exact .init ih ((h.var hw).symm ▸ hi) hv

theorem trans (h : s.Retains t F) (h' : t.Retains u F) : s.Retains u F where
  modules m := (h'.modules m).trans (h.modules m)
  rewriters r := (h'.rewriters r).trans (h.rewriters r)
  functions id hid := (h'.functions id hid).trans (h.functions id hid)
  vars v hv := (h'.vars v (h.keeps hv)).trans (h.vars v hv)

end Retains

theorem Keeps.mem_holdings {v : VarId} (h : s.Keeps F v) : v ∈ s.holdings.vars := by
  unfold holdings
  simp only [Holdings.vars_append, List.mem_append, Holdings.mem_vars_join, List.mem_map]
  cases h with
  | @global m x v hx hv =>
    exact .inl (.inr ⟨_, ⟨(m, x), Table.mem_toList.2 hx, rfl⟩, List.mem_append_right _ hv⟩)
  | @function id f v hid hf hv =>
    exact .inl (.inl (.inl (.inl (.inl (.inl ⟨_, ⟨(id, f), Table.mem_toList.2 hf, rfl⟩, hv⟩)))))
  | @init w i v hw hi hv =>
    obtain ⟨x, hx, hi⟩ := get?_of_init hi
    refine .inl (.inl (.inr ⟨_, ⟨(w, x), Table.mem_toList.2 hx, rfl⟩, ?_⟩))
    simp only [Variable.holdings, hi]
    exact hv

namespace Secure

theorem retains_sweep (h : s.Secure outside F) : s.Retains (s.sweep outside) F := by
  have keep {kind : ObjectKind} {α : Type} {table : Table kind α} {ids : List (Id kind)}
      {id : Id kind} (hid : ∀ a, table.get? id = some a → id ∈ ids) :
      (table.owned ids).get? id = table.get? id := by
    rw [Table.get?_owned]
    split
    · rfl
    · rename_i hno
      cases ha : table.get? id with
      | none => rfl
      | some a => exact absurd (hid a ha) hno
  refine ⟨fun m => keep fun x hx => ?_, fun r => keep fun y hy => h.rewriters r y hy,
    fun id hid => keep fun f hf => h.functions id hid f hf, fun v hv => keep fun _ _ => ?_⟩
  · rw [Holdings.modules_append]
    exact List.mem_append_left _ (h.modules m x hx)
  · rw [Holdings.vars_append]
    exact List.mem_append_right _ hv.mem_holdings

/-- What owns the functions of the set is retained. -/
theorem of_retains (h : s.Secure outside F) (hr : s.Retains t F) : t.Secure outside F := by
  refine ⟨fun m x hx => h.modules m x ((hr.modules m).symm.trans hx), fun r y hy => ?_,
    fun id hid f hf => ?_⟩
  · have hmem := h.rewriters r y ((hr.rewriters r).symm.trans hy)
    rw [Holdings.rewriters_append, List.mem_append, mem_holdings_rewriters] at hmem ⊢
    simpa only [hr.modules] using hmem
  · have hmem := h.functions id hid f ((hr.functions id hid).symm.trans hf)
    rw [Holdings.functions_append, List.mem_append, mem_holdings_functions] at hmem ⊢
    simpa only [hr.modules, hr.rewriters] using hmem

theorem retains_collect (h : s.Secure outside F) : s.Retains (s.collect outside) F :=
  collect_induction (Q := fun t => s.Retains t F) (.refl s F) fun _ ht =>
    ht.trans (h.of_retains ht).retains_sweep

/-- Rewriting trees changes no owner of a function. -/
theorem of_rewritten {R : Expr → Expr → Prop} (h : s.Secure outside F) (hr : s.Rewritten R t) :
    t.Secure outside F := by
  refine ⟨fun m x hx => h.modules m x (hr.modules ▸ hx), fun r y hy => ?_, fun id hid f hf => ?_⟩
  · have hmem := h.rewriters r y (hr.rewriters ▸ hy)
    rw [Holdings.rewriters_append, List.mem_append, mem_holdings_rewriters] at hmem ⊢
    rwa [hr.modules]
  · obtain ⟨f₀, hf₀, _⟩ := hr.functions.of_get? hf
    have hmem := h.functions id hid f₀ hf₀
    rw [Holdings.functions_append, List.mem_append, mem_holdings_functions] at hmem ⊢
    rwa [hr.modules, hr.rewriters]

end Secure

section Uses

variable {e x : Expr} {a b d : Symbol} {roots : List Symbol}

theorem Keeps.of_meets (he : ∀ v ∈ e.vars, s.Keeps F v) (hx : s.Meets e x) :
    ∀ v ∈ x.vars, s.Keeps F v := by
  induction hx with
  | here => exact he
  | child hc _ ih => exact ih fun v hv => he v (Expr.mem_vars_of_visited hc hv)
  | init hd hi _ ih =>
    have hid := he _ (Expr.mem_vars_of_node (Node.declared_subset_vars _ hd))
    exact ih fun v hv => .init hid hi hv

inductive Bears (s : Store) : Symbol → Expr → Prop
  | body {id f b} (hf : s.function? id = some f) (hb : f.body = some b) : Bears s (.function id) b
  | argument {id f a i} (hf : s.function? id = some f) (ha : a ∈ f.args)
    (hi : (s.var a).init = some i) : Bears s (.function id) i
  | initializer {id i} (hi : (s.var id).init = some i) : Bears s (.var id) i

theorem uses_iff : s.Uses a d ↔ ∃ e, s.Bears a e ∧ s.UsedIn e d ∧ s.hasSymbol d = true := by
  constructor
  · intro h
    cases h with
    | body hf hb hd alive => exact ⟨_, .body hf hb, hd, alive⟩
    | argument hf ha hi hd alive => exact ⟨_, .argument hf ha hi, hd, alive⟩
    | initializer hi hd alive => exact ⟨_, .initializer hi, hd, alive⟩
  · rintro ⟨e, he, hd, alive⟩
    cases he with
    | body hf hb => exact .body hf hb hd alive
    | argument hf ha hi => exact .argument hf ha hi hd alive
    | initializer hi => exact .initializer hi hd alive

def KeepsSymbol (s : Store) (F : Set FunctionId) : Symbol → Prop
  | .function id => id ∈ F
  | .var v => s.Keeps F v

theorem KeepsSymbol.vars (ha : s.KeepsSymbol F a) (he : s.Bears a e) :
    ∀ v ∈ e.vars, s.Keeps F v := by
  cases he with
  | @body id f b hf hb =>
    refine fun v hv => .function ha hf ?_
    simp [Function.holdings, Holdings.vars_append, hb, Holdings.ofOption, Holdings.ofExpr, hv]
  | @argument id f a i hf harg hi =>
    have hkeeps : s.Keeps F a := .function ha hf (by
      simp [Function.holdings, Holdings.vars_append, harg])
    exact fun v hv => .init hkeeps hi hv
  | initializer hi => exact fun v hv => .init ha hi hv

/-- What is used from roots that are kept is kept. -/
theorem keepsSymbol_of_used (hroots : ∀ v, .var v ∈ roots → s.Keeps F v)
    (hF : ∀ id, s.Used roots (.function id) → id ∈ F) (h : s.Used roots a) :
    s.KeepsSymbol F a := by
  induction h with
  | @root a ha =>
    cases a with
    | function id => exact hF id (.root ha)
    | var v => exact hroots v ha
  | @use a b ha hu ih =>
    cases b with
    | function id => exact hF id (.use ha hu)
    | var v =>
      obtain ⟨e, he, ⟨x, hx, hd⟩, -⟩ := uses_iff.1 hu
      exact Keeps.of_meets (ih.vars he) hx v (Expr.mem_vars_of_node (Node.var_mem_vars hd))

namespace Retains

theorem meets (h : s.Retains t F) (he : ∀ v ∈ e.vars, s.Keeps F v) (hx : s.Meets e x) :
    t.Meets e x := by
  induction hx with
  | here => exact .here _
  | child hc _ ih => exact .child hc (ih fun v hv => he v (Expr.mem_vars_of_visited hc hv))
  | init hd hi _ ih =>
    have hid := he _ (Expr.mem_vars_of_node (Node.declared_subset_vars _ hd))
    exact .init hd ((h.var hid).symm ▸ hi) (ih fun v hv => .init hid hi hv)

theorem bears (h : s.Retains t F) (ha : s.KeepsSymbol F a) (he : s.Bears a e) : t.Bears a e := by
  cases he with
  | body hf hb => exact .body ((h.functions _ ha).trans hf) hb
  | @argument id f a i hf harg hi =>
    have hkeeps : s.Keeps F a := .function ha hf (by
      simp [Function.holdings, Holdings.vars_append, harg])
    exact .argument ((h.functions _ ha).trans hf) harg ((h.var hkeeps).symm ▸ hi)
  | initializer hi => exact .initializer ((h.var ha).symm ▸ hi)

theorem uses (h : s.Retains t F) (ha : s.KeepsSymbol F a) (hb : s.KeepsSymbol F b)
    (hu : s.Uses a b) : t.Uses a b := by
  obtain ⟨e, he, ⟨x, hx, hd⟩, alive⟩ := uses_iff.1 hu
  refine uses_iff.2 ⟨e, h.bears ha he, ⟨x, h.meets (ha.vars he) hx, hd⟩, ?_⟩
  cases b with
  | var => rfl
  | function id =>
    have same : t.functions.get? id = s.functions.get? id := h.functions id hb
    rw [← alive, hasSymbol, hasSymbol, Table.isAlive, Table.isAlive, same]

theorem used (h : s.Retains t F) (hroots : ∀ v, .var v ∈ roots → s.Keeps F v)
    (hF : ∀ id, s.Used roots (.function id) → id ∈ F) (hu : s.Used roots a) : t.Used roots a := by
  induction hu with
  | root ha => exact .root ha
  | use ha hu ih =>
    exact .use ih (h.uses (keepsSymbol_of_used hroots hF ha)
      (keepsSymbol_of_used hroots hF (.use ha hu)) hu)

end Retains

/-- What is used does not depend on what is registered. -/
theorem used_modifyModule (m : ModuleId) (f : Module → Module) :
    (s.modifyModule m f).Used roots a ↔ s.Used roots a := by
  have bears (a : Symbol) (e : Expr) : (s.modifyModule m f).Bears a e ↔ s.Bears a e := by
    constructor
    · intro he
      cases he with
      | body hf hb => exact .body hf hb
      | argument hf ha hi => exact .argument hf ha hi
      | initializer hi => exact .initializer hi
    · intro he
      cases he with
      | body hf hb => exact .body hf hb
      | argument hf ha hi => exact .argument hf ha hi
      | initializer hi => exact .initializer hi
  have usedIn (e : Expr) (d : Symbol) : (s.modifyModule m f).UsedIn e d ↔ s.UsedIn e d :=
    exists_congr fun x => and_congr_left fun _ => ⟨.of_vars_eq rfl, .of_vars_eq rfl⟩
  have alive (d : Symbol) : (s.modifyModule m f).hasSymbol d = s.hasSymbol d := by
    cases d <;> rfl
  have uses (a b : Symbol) : (s.modifyModule m f).Uses a b ↔ s.Uses a b := by
    simp only [uses_iff, bears, usedIn, alive]
  constructor
  · intro h
    induction h with
    | root ha => exact .root ha
    | use _ hu ih => exact .use ih ((uses _ _).1 hu)
  · intro h
    induction h with
    | root ha => exact .root ha
    | use _ hu ih => exact .use ih ((uses _ _).2 hu)

end Uses

end Store

end Frontend
