import Mathlib.Data.List.Chain
import Mathlib.Data.List.Nodup
import Mathlib.Data.List.Perm.Subperm
import Mathlib.Data.List.Range
import Mathlib.Logic.Relation
import Frontend.Cycle

/-!
# The search for a cycle finds one exactly if there is one

Walks along a relation are bounded unless they come to a cycle. A cycle that the search closes is
the path that it stands on, and that path is simple. A search that closes none has followed every
edge out of the nodes it has seen, so none of these leads back to the start. The bound on its depth
is never reached: every step down marks a node that is new.
-/

namespace Frontend

/-- Distinct numbers below a bound are no more than the bound. -/
theorem length_le_of_nodup {l : List Nat} {bound : Nat} (nodup : l.Nodup)
    (h : ∀ n ∈ l, n < bound) : l.length ≤ bound := by
  have inside : l ⊆ List.range bound := fun n hn => List.mem_range.2 (h n hn)
  simpa using (List.subperm_of_subset nodup inside).length_le

section Depth

open Relation

variable {α : Type} {R : α → α → Prop} {a : α} {l : List α}

/-- Every walk along `R` from `a` has less than `n` steps. -/
def WalksEnd (R : α → α → Prop) : Nat → α → Prop
  | 0, _ => False
  | n + 1, a => ∀ b, R a b → WalksEnd R n b

theorem WalksEnd.mono {R' : α → α → Prop} {n : Nat} (hR : ∀ a b, R a b → R' a b)
    (h : WalksEnd R' n a) : WalksEnd R n a := by
  induction n generalizing a with
  | zero => exact h
  | succ n ih => exact fun b hab => ih (h b (hR a b hab))

/-- A walk along `R` from `a` comes to a cycle. -/
def Loops (R : α → α → Prop) (a : α) : Prop := ∃ c, ReflTransGen R a c ∧ TransGen R c c

theorem not_loops (acyclic : ∀ c, ¬ TransGen R c c) : ¬ Loops R a := fun ⟨c, _, hc⟩ => acyclic c hc

theorem Loops.head {b : α} (h : Loops R b) (hab : R a b) : Loops R a := by
  obtain ⟨c, hbc, hc⟩ := h
  exact ⟨c, .head hab hbc, hc⟩

theorem Loops.step (h : Loops R a) : ∃ b, R a b ∧ Loops R b := by
  obtain ⟨c, hac, hc⟩ := h
  obtain rfl | ⟨b, hab, hbc⟩ := hac.cases_head
  · obtain ⟨b, hab, hba⟩ := TransGen.head'_iff.1 hc
    exact ⟨b, hab, a, hba, hc⟩
  · exact ⟨b, hab, c, hbc, hc⟩

theorem Loops.not_walksEnd (h : Loops R a) (n : Nat) : ¬ WalksEnd R n a := by
  induction n generalizing a with
  | zero => exact id
  | succ n ih =>
    obtain ⟨b, hab, hb⟩ := h.step
    exact fun hn => ih hb (hn b hab)

/-- Without a cycle no walk passes an element twice, so it has no more steps than there are elements
that steps start at. -/
theorem walksEnd_of_not_loops (starts : ∀ a b, R a b → a ∈ l) (h : ¬ Loops R a) :
    WalksEnd R (l.length + 1) a := by
  -- `path` is the walk up to `a`, and `n` is what is left of the steps
  have walk (n : Nat) : ∀ (path : List α) (a : α), path.Nodup → path ⊆ l →
      (∀ c ∈ path, TransGen R c a) → path.length + n = l.length + 1 → ¬ Loops R a →
      WalksEnd R n a := by
    induction n with
    | zero =>
      intro path a nodup inside _ full _
      have := (List.subperm_of_subset nodup inside).length_le
      omega
    | succ n ih =>
      intro path a nodup inside reaches full hloops b hab
      have fresh : a ∉ path := fun ha => hloops ⟨a, .refl, reaches a ha⟩
      refine ih (a :: path) b (List.nodup_cons.2 ⟨fresh, nodup⟩)
        (List.cons_subset.2 ⟨starts a b hab, inside⟩) ?_ ?_ fun hb => hloops (hb.head hab)
      · exact List.forall_mem_cons.2 ⟨.single hab, fun c hc => (reaches c hc).tail hab⟩
      · rw [List.length_cons]
        omega
  exact walk _ [] a List.nodup_nil (List.nil_subset l) (fun _ hc => absurd hc List.not_mem_nil)
    (by simp) h

end Depth

namespace Digraph

variable {g : Digraph} {start node steps : Nat} {path seen seen' targets c : List Nat}
  {descend : List Nat → List Nat → Search}

def Edge (g : Digraph) (a b : Nat) : Prop := (a, b) ∈ g.edges

def Closed (g : Digraph) : Prop := ∀ a b, g.Edge a b → b < g.size

theorem mem_successors {a b : Nat} : b ∈ g.successors a ↔ g.Edge a b := by
  simp [successors, Edge]

/-- The nodes of a cycle through `start`, without repetition, in the order of its edges. -/
structure IsCycle (g : Digraph) (start : Nat) (c : List Nat) : Prop where
  head : c.head? = some start
  chain : c.IsChain g.Edge
  closes : ∀ last ∈ c.getLast?, g.Edge last start
  nodup : c.Nodup

theorem transGen_of_isChain {a last : Nat} (chain : (a :: path).IsChain g.Edge)
    (hlast : (a :: path).getLast? = some last) : Relation.ReflTransGen g.Edge a last := by
  induction path generalizing a with
  | nil =>
    obtain rfl : a = last := by simpa using hlast
    exact .refl
  | cons b path ih =>
    obtain ⟨edge, chain⟩ := List.isChain_cons_cons.1 chain
    rw [List.getLast?_cons_cons] at hlast
    exact .head edge (ih chain hlast)

theorem IsCycle.transGen (h : g.IsCycle start c) : Relation.TransGen g.Edge start start := by
  obtain ⟨rest, rfl⟩ := List.head?_eq_some_iff.1 h.head
  have hlast := List.getLast?_eq_getLast_of_ne_nil (List.cons_ne_nil start rest)
  exact .tail' (transGen_of_isChain h.chain hlast) (h.closes _ hlast)

section Seen

theorem seen_suffix_followAll
    (hdescend : ∀ path seen, seen <:+ (descend path seen).seen) :
    seen <:+ (followAll descend start path targets seen).seen := by
  induction targets generalizing seen with
  | nil => exact List.suffix_refl _
  | cons t ts ih =>
    unfold followAll
    split
    · split
      · exact List.suffix_refl _
      · exact ih
    · have below := (List.suffix_cons t seen).trans (hdescend (t :: path) (t :: seen))
      dsimp only
      split
      · exact below
      · exact below.trans ih

/-- Nodes that were seen stay at the end of the list of those that are. -/
theorem seen_suffix_searchBelow : seen <:+ (g.searchBelow start steps path seen).seen := by
  induction steps generalizing path seen with
  | zero => exact List.suffix_refl _
  | succ steps ih =>
    unfold searchBelow
    cases path with
    | nil => exact List.suffix_refl _
    | cons node path => exact seen_suffix_followAll fun _ _ => ih

end Seen

section Found

/-- The path from the start to the current node, kept in reverse. -/
structure Trail (g : Digraph) (start : Nat) (path seen : List Nat) : Prop where
  last : path.getLast? = some start
  chain : path.IsChain fun b a => g.Edge a b
  nodup : path.Nodup
  subset : path ⊆ seen

theorem Trail.step {t : Nat} (h : g.Trail start (node :: path) seen) (edge : g.Edge node t)
    (fresh : t ∉ seen) : g.Trail start (t :: node :: path) (t :: seen) where
  last := by
    rw [List.getLast?_cons_cons]
    exact h.last
  chain := List.isChain_cons_cons.2 ⟨edge, h.chain⟩
  nodup := List.nodup_cons.2 ⟨fun ht => fresh (h.subset ht), h.nodup⟩
  subset := List.cons_subset_cons t h.subset

theorem Trail.mono (h : g.Trail start path seen) (hseen : seen ⊆ seen') :
    g.Trail start path seen' := { h with subset := fun _ hn => hseen (h.subset hn) }

/-- An edge back to the start closes a cycle. -/
theorem Trail.isCycle (h : g.Trail start (node :: path) seen) (edge : g.Edge node start) :
    g.IsCycle start (node :: path).reverse where
  head := by rw [List.head?_reverse, h.last]
  chain := List.isChain_reverse.2 h.chain
  closes last hlast := by
    rw [List.getLast?_reverse, List.head?_cons, Option.mem_some_iff] at hlast
    rwa [← hlast]
  nodup := List.nodup_reverse.2 h.nodup

theorem isCycle_followAll (h : g.Trail start (node :: path) seen)
    (hgrows : ∀ path seen, seen <:+ (descend path seen).seen)
    (hdescend : ∀ path seen, g.Trail start path seen →
      ∀ c ∈ (descend path seen).cycle, g.IsCycle start c)
    (htargets : ∀ t ∈ targets, g.Edge node t) :
    ∀ c ∈ (followAll descend start (node :: path) targets seen).cycle, g.IsCycle start c := by
  induction targets generalizing seen with
  | nil => exact fun _ hc => absurd hc (Option.not_mem_none _)
  | cons t ts ih =>
    obtain ⟨edge, htargets⟩ := List.forall_mem_cons.1 htargets
    intro c hc
    unfold followAll at hc
    split at hc
    · split at hc
      · rename_i back
        obtain rfl : t = start := beq_iff_eq.1 back
        rw [← Option.mem_some_iff.1 hc]
        exact h.isCycle edge
      · exact ih h htargets c hc
    · rename_i fresh
      have deeper := h.step edge (by simpa using fresh)
      dsimp only at hc
      split at hc
      · exact hdescend _ _ deeper c hc
      · have grown := (List.suffix_cons t seen).trans (hgrows (t :: node :: path) (t :: seen))
        exact ih (h.mono grown.subset) htargets c hc

theorem isCycle_searchBelow (h : g.Trail start path seen) :
    ∀ c ∈ (g.searchBelow start steps path seen).cycle, g.IsCycle start c := by
  induction steps generalizing path seen with
  | zero => exact fun _ hc => absurd hc (Option.not_mem_none _)
  | succ steps ih =>
    intro c hc
    unfold searchBelow at hc
    cases path with
    | nil => exact absurd hc (Option.not_mem_none _)
    | cons node path =>
      exact isCycle_followAll h (fun _ _ => seen_suffix_searchBelow)
        (fun _ _ h => ih h) (fun _ ht => mem_successors.1 ht) c hc

/-- What is found is a cycle through the start. -/
theorem isCycle_cycleFrom (h : g.cycleFrom start = some c) : g.IsCycle start c :=
  isCycle_searchBelow ⟨rfl, List.isChain_singleton _, List.nodup_singleton _, List.Subset.refl _⟩
    c h

end Found

section NotFound

/-- All edges of a node lead to seen nodes other than the start. -/
def Settled (g : Digraph) (start : Nat) (seen : List Nat) (node : Nat) : Prop :=
  ∀ b, g.Edge node b → b ∈ seen ∧ b ≠ start

theorem Settled.mono (h : g.Settled start seen node) (hseen : seen ⊆ seen') :
    g.Settled start seen' node := fun b edge => ⟨hseen (h b edge).1, (h b edge).2⟩

/-- The seen nodes are distinct nodes of the graph, and the steps left are enough for the others. -/
structure Room (g : Digraph) (steps : Nat) (seen : List Nat) : Prop where
  nodup : seen.Nodup
  bounded : ∀ n ∈ seen, n < g.size
  enough : g.size < steps + seen.length

theorem Room.steps_pos (h : g.Room steps seen) : 0 < steps := by
  have := length_le_of_nodup h.nodup h.bounded
  have := h.enough
  omega

theorem Room.cons {t : Nat} (h : g.Room (steps + 1) seen) (fresh : t ∉ seen) (ht : t < g.size) :
    g.Room steps (t :: seen) where
  nodup := List.nodup_cons.2 ⟨fresh, h.nodup⟩
  bounded := List.forall_mem_cons.2 ⟨ht, h.bounded⟩
  enough := by
    have := h.enough
    rw [List.length_cons]
    omega

theorem Room.succ (h : g.Room steps seen) : g.Room (steps + 1) seen :=
  { h with enough := Nat.lt_of_lt_of_le h.enough (by omega) }

/-- What a search that closes no cycle leaves: the nodes that are new are settled. -/
structure Exhausts (g : Digraph) (start : Nat) (steps : Nat) (seen seen' : List Nat) : Prop where
  grows : seen <:+ seen'
  room : g.Room steps seen'
  settled : ∀ n ∈ seen', n ∉ seen → g.Settled start seen' n

theorem Exhausts.refl (h : g.Room steps seen) : g.Exhausts start steps seen seen :=
  ⟨List.suffix_refl _, h, fun _ hn hnot => absurd hn hnot⟩

/-- A search below a new node and then one from where that ended. -/
theorem Exhausts.trans {t : Nat} {last : List Nat}
    (below : g.Exhausts start steps (t :: seen) seen') (ht : g.Settled start seen' t)
    (next : g.Exhausts start (steps + 1) seen' last) : g.Exhausts start (steps + 1) seen last where
  grows := ((List.suffix_cons t seen).trans below.grows).trans next.grows
  room := next.room
  settled n hn hnot := by
    by_cases before : n ∈ seen'
    · have : g.Settled start seen' n := by
        by_cases same : n = t
        · exact same ▸ ht
        · exact below.settled n before (by simp [same, hnot])
      exact this.mono next.grows.subset
    · exact next.settled n hn before

theorem exhausts_followAll (room : g.Room (steps + 1) seen) (hseen : start ∈ seen)
    (htargets : ∀ t ∈ targets, t < g.size)
    (hdescend : ∀ t seen, t < g.size → g.Room steps (t :: seen) → start ∈ t :: seen →
      (descend (t :: path) (t :: seen)).cycle = none →
      g.Exhausts start steps (t :: seen) (descend (t :: path) (t :: seen)).seen ∧
        g.Settled start (descend (t :: path) (t :: seen)).seen t)
    (hnone : (followAll descend start path targets seen).cycle = none) :
    g.Exhausts start (steps + 1) seen (followAll descend start path targets seen).seen ∧
      ∀ t ∈ targets, t ∈ (followAll descend start path targets seen).seen ∧ t ≠ start := by
  induction targets generalizing seen with
  | nil => exact ⟨.refl room, fun _ ht => absurd ht List.not_mem_nil⟩
  | cons t ts ih =>
    obtain ⟨ht, htargets⟩ := List.forall_mem_cons.1 htargets
    unfold followAll at hnone ⊢
    split at hnone
    · rename_i old
      have old : t ∈ seen := by simpa using old
      rw [if_pos (by simpa using old)]
      split at hnone
      · cases hnone
      · rename_i apart
        rw [if_neg apart]
        obtain ⟨rest, targets⟩ := ih room hseen htargets hnone
        refine ⟨rest, List.forall_mem_cons.2 ⟨⟨rest.grows.subset old, ?_⟩, targets⟩⟩
        simpa using apart
    · rename_i fresh
      have fresh : t ∉ seen := by simpa using fresh
      rw [if_neg (by simpa using fresh)]
      dsimp only at hnone ⊢
      split at hnone
      · rename_i found
        rw [found] at hnone
        cases hnone
      · rename_i notBelow
        obtain ⟨below, settled⟩ := hdescend t seen ht (room.cons fresh ht)
          (List.mem_cons_of_mem _ hseen) notBelow
        have hseen' := below.grows.subset (List.mem_cons_of_mem t hseen)
        -- the search below had one step less, and what it saw makes up for that
        obtain ⟨rest, targets⟩ := ih below.room.succ hseen' htargets hnone
        refine ⟨below.trans settled rest, List.forall_mem_cons.2 ⟨⟨?_, ?_⟩, targets⟩⟩
        · exact rest.grows.subset (below.grows.subset List.mem_cons_self)
        · exact fun same => fresh (same ▸ hseen)

theorem exhausts_searchBelow (closed : g.Closed) (room : g.Room steps seen) (hseen : start ∈ seen)
    (hnode : node < g.size) (hnone : (g.searchBelow start steps (node :: path) seen).cycle = none) :
    g.Exhausts start steps seen (g.searchBelow start steps (node :: path) seen).seen ∧
      g.Settled start (g.searchBelow start steps (node :: path) seen).seen node := by
  induction steps generalizing node path seen with
  | zero => exact absurd room.steps_pos (Nat.lt_irrefl 0)
  | succ steps ih =>
    unfold searchBelow at hnone ⊢
    obtain ⟨exhausts, targets⟩ := exhausts_followAll room hseen
      (fun t ht => closed node t (mem_successors.1 ht))
      (fun t seen ht room hseen hnone => ih room hseen ht hnone) hnone
    exact ⟨exhausts, fun b edge => targets b (mem_successors.2 edge)⟩

theorem not_transGen_of_settled (hseen : start ∈ seen)
    (all : ∀ n ∈ seen, g.Settled start seen n) : ¬ Relation.TransGen g.Edge start start := by
  have reached {n : Nat} (hn : Relation.TransGen g.Edge start n) : n ∈ seen ∧ n ≠ start := by
    induction hn with
    | single edge => exact all _ hseen _ edge
    | tail _ edge ih => exact all _ ih.1 _ edge
  exact fun hcycle => (reached hcycle).2 rfl

/-- If nothing is found then no edges lead from the start back to it. -/
theorem not_transGen_of_cycleFrom (closed : g.Closed) (hstart : start < g.size)
    (h : g.cycleFrom start = none) : ¬ Relation.TransGen g.Edge start start := by
  have room : g.Room (g.size + 1) [start] :=
    ⟨List.nodup_singleton _, by simpa using hstart, Nat.lt_succ_of_lt (Nat.lt_succ_self _)⟩
  obtain ⟨exhausts, settled⟩ :=
    exhausts_searchBelow closed room (List.mem_singleton_self _) hstart h
  generalize (g.searchBelow start (g.size + 1) [start] [start]).seen = seen at exhausts settled
  have all : ∀ n ∈ seen, g.Settled start seen n := fun n hn => by
    by_cases same : n = start
    · exact same ▸ settled
    · exact exhausts.settled n hn (by simpa using same)
  exact not_transGen_of_settled (exhausts.grows.subset (List.mem_singleton_self start)) all

end NotFound

/-- A cycle is found exactly if edges lead from the start back to it. -/
theorem cycleFrom_eq_none_iff (closed : g.Closed) (hstart : start < g.size) :
    g.cycleFrom start = none ↔ ¬ Relation.TransGen g.Edge start start := by
  refine ⟨not_transGen_of_cycleFrom closed hstart, fun hno => ?_⟩
  cases h : g.cycleFrom start with
  | none => rfl
  | some c => exact absurd (isCycle_cycleFrom h).transGen hno

end Digraph

end Frontend
