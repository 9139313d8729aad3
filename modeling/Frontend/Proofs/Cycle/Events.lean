import Mathlib.Data.List.Chain
import Mathlib.Data.List.Nodup
import Mathlib.Logic.Relation
import Frontend.Cycle.Events
import Frontend.Total
import Frontend.Proofs.Cycle

/-!
# The events of every depth-first search close a cycle if there is one

The nodes that are not finished are a simple path from the start, and what is kept of the events
spells that path backwards. So the first edge back to the start closes a cycle, and the way back
along it ends. While no edge leads back to the start, the edges of the finished nodes lead to other
nodes that were seen, so a search that ends without one has seen all that the start reaches.
-/

namespace Frontend.Digraph

open Relation

def Progress.seen (p : Progress) : List Nat := p.path ++ p.finished

def Progress.pending (p : Progress) : Nat := total (fun f => f.left.length + 1) p.frames

variable {g : Digraph} {order : Nat → List Nat} {start node t u steps : Nat}
  {ts path seen seen' finished : List Nat} {p q r : Progress} {f : Frame} {fs : List Frame}
  {events : List Event} {reached : Array (Option Nat)}

@[simp] theorem path_mk : (Progress.mk fs finished).path = fs.map (·.node) := rfl

theorem mem_seen {n : Nat} : n ∈ p.seen ↔ n ∈ p.path ∨ n ∈ p.finished := List.mem_append

theorem mem_seen_mk {n : Nat} :
    n ∈ (Progress.mk fs finished).seen ↔ n ∈ fs.map (·.node) ∨ n ∈ finished := mem_seen

def Lists (g : Digraph) (order : Nat → List Nat) : Prop := ∀ n t, t ∈ order n ↔ g.Edge n t

theorem lists_of_perm (orders : ∀ n, (order n).Perm (g.successors n)) : g.Lists order :=
  fun n _ => (orders n).mem_iff.trans mem_successors

section Sound

/-- The unfinished nodes are a path from the start, no node was discovered twice, and the edges that
are left are edges of the graph. -/
structure Sound (g : Digraph) (start : Nat) (p : Progress) : Prop where
  chain : p.path.IsChain fun b a => g.Edge a b
  last : ∀ n ∈ p.path.getLast?, n = start
  nodup : p.seen.Nodup
  bounded : ∀ n ∈ p.seen, n < g.size
  start_mem : start ∈ p.seen
  edges : ∀ f ∈ p.frames, ∀ t ∈ f.left, g.Edge f.node t

theorem sound_first (orders : g.Lists order) (hstart : start < g.size) :
    g.Sound start (.first order start) where
  chain := List.isChain_singleton _
  last _ hn := (Option.mem_some_iff.1 hn).symm
  nodup := List.nodup_singleton _
  bounded := by simpa [Progress.seen, Progress.first] using hstart
  start_mem := List.mem_singleton_self start
  edges := List.forall_mem_singleton.2 fun t ht => (orders start t).1 ht

theorem Sound.skip (h : g.Sound start ⟨⟨node, t :: ts⟩ :: fs, finished⟩) :
    g.Sound start ⟨⟨node, ts⟩ :: fs, finished⟩ :=
  { h with
    edges := by
      obtain ⟨edges, others⟩ := List.forall_mem_cons.1 h.edges
      exact List.forall_mem_cons.2 ⟨(List.forall_mem_cons.1 edges).2, others⟩ }

theorem Sound.descend (orders : g.Lists order) (closed : g.Closed)
    (h : g.Sound start ⟨⟨node, t :: ts⟩ :: fs, finished⟩) (unopened : t ∉ node :: fs.map (·.node))
    (unfinished : t ∉ finished) :
    g.Sound start ⟨⟨t, order t⟩ :: ⟨node, ts⟩ :: fs, finished⟩ := by
  have edge : g.Edge node t := h.edges _ List.mem_cons_self t List.mem_cons_self
  have new : t ∉ (Progress.mk (⟨node, t :: ts⟩ :: fs) finished).seen := by
    rw [mem_seen_mk]
    exact fun ht => ht.elim unopened unfinished
  exact {
    chain := List.isChain_cons_cons.2 ⟨edge, h.chain⟩
    last := fun n hn => h.last n (by simpa using hn)
    nodup := List.nodup_cons.2 ⟨new, h.nodup⟩
    bounded := List.forall_mem_cons.2 ⟨closed node t edge, h.bounded⟩
    start_mem := List.mem_cons_of_mem t h.start_mem
    edges := List.forall_mem_cons.2 ⟨fun b hb => (orders t b).1 hb, h.skip.edges⟩ }

theorem Sound.finish (h : g.Sound start ⟨⟨node, []⟩ :: fs, finished⟩) :
    g.Sound start ⟨fs, node :: finished⟩ := by
  have perm : (Progress.mk fs (node :: finished)).seen.Perm
      (Progress.mk (⟨node, []⟩ :: fs) finished).seen := List.perm_middle
  exact {
    chain := h.chain.tail
    last := by
      intro n hn
      apply h.last n
      cases fs with
      | nil => cases hn
      | cons f fs => simpa using hn
    nodup := perm.nodup_iff.2 h.nodup
    bounded := fun n hn => h.bounded n (perm.mem_iff.1 hn)
    start_mem := perm.mem_iff.2 h.start_mem
    edges := (List.forall_mem_cons.1 h.edges).2 }

theorem Sound.getLast? (h : g.Sound start ⟨f :: fs, finished⟩) :
    (f.node :: fs.map (·.node)).getLast? = some start := by
  have last := List.getLast?_eq_getLast_of_ne_nil (List.cons_ne_nil f.node (fs.map (·.node)))
  rw [last, h.last _ last]

theorem Sound.start_opened (h : g.Sound start ⟨f :: fs, finished⟩) :
    start ∈ f.node :: fs.map (·.node) := List.mem_of_getLast? h.getLast?

theorem Sound.step (orders : g.Lists order) (closed : g.Closed)
    (h : g.Sound start p) (step : Step order p events q) : g.Sound start q := by
  cases step with
  | descend unopened unfinished => exact h.descend orders closed unopened unfinished
  | back => exact h.skip
  | crossForward => exact h.skip
  | finish => exact h.finish

/-- What is reported is about nodes that were discovered. -/
theorem Step.nodes_seen (step : Step order p events q) :
    ∀ e ∈ events, ∀ n ∈ e.nodes, n ∈ q.seen := by
  cases step with
  | descend => simp [Event.nodes, mem_seen]
  | back opened =>
    refine List.forall_mem_singleton.2 fun n hn => mem_seen_mk.2 (.inl ?_)
    rcases List.mem_pair.1 hn with rfl | rfl
    · exact List.mem_cons_self
    · exact opened
  | crossForward _ done => simp [Event.nodes, mem_seen, done]
  | finish => simp [Event.nodes, mem_seen]

theorem Steps.nodes_lt (orders : g.Lists order) (closed : g.Closed)
    (steps : Steps order p events q) (h : g.Sound start p) :
    ∀ e ∈ events, ∀ n ∈ e.nodes, n < g.size := by
  induction steps with
  | refl => exact fun _ he => absurd he List.not_mem_nil
  | head step _ ih =>
    have hq := h.step orders closed step
    refine List.forall_mem_append.2 ⟨fun e he n hn => ?_, ih hq⟩
    exact hq.bounded n (step.nodes_seen e he n hn)

end Sound

section Ending

/-- Every search ends: each step discovers a node or reports what was left of one. -/
theorem exists_steps (orders : g.Lists order) (closed : g.Closed) (p : Progress)
    (h : g.Sound start p) : ∃ events finished, Steps order p events ⟨[], finished⟩ := by
  match p, h with
  | ⟨[], finished⟩, _ => exact ⟨[], finished, .refl _⟩
  | ⟨⟨node, []⟩ :: fs, finished⟩, h =>
    obtain ⟨events, last, steps⟩ := exists_steps orders closed _ h.finish
    exact ⟨_, last, .head .finish steps⟩
  | ⟨⟨node, t :: ts⟩ :: fs, finished⟩, h =>
    by_cases opened : t ∈ node :: fs.map (·.node)
    · obtain ⟨events, last, steps⟩ := exists_steps orders closed _ h.skip
      exact ⟨_, last, .head (.back opened) steps⟩
    · by_cases done : t ∈ finished
      · obtain ⟨events, last, steps⟩ := exists_steps orders closed _ h.skip
        exact ⟨_, last, .head (.crossForward opened done) steps⟩
      · have next := h.descend orders closed opened done
        have room := length_le_of_nodup next.nodup next.bounded
        obtain ⟨events, last, steps⟩ := exists_steps orders closed _ next
        exact ⟨_, last, .head (.descend opened done) steps⟩
termination_by (g.size - p.seen.length, p.pending)
decreasing_by
  · apply Prod.Lex.right'
    · simp [Progress.seen]
      omega
    · simp [Progress.pending]
  · exact Prod.Lex.right _ (by simp [Progress.pending])
  · exact Prod.Lex.right _ (by simp [Progress.pending])
  · apply Prod.Lex.left
    simp only [Progress.seen, path_mk, List.map_cons, List.length_append,
      List.length_cons] at room ⊢
    omega

end Ending

section Open

def Event.Closes (start : Nat) : Event → Prop
  | backEdge _ target => target = start
  | _ => False

/-- Every edge out of an unfinished node is left or leads to another node that was seen. -/
def Tracked (g : Digraph) (start : Nat) (seen : List Nat) (f : Frame) : Prop :=
  ∀ b, g.Edge f.node b → b ∈ f.left ∨ b ∈ seen ∧ b ≠ start

theorem Tracked.mono (h : g.Tracked start seen f) (hseen : seen ⊆ seen') :
    g.Tracked start seen' f := fun b edge => (h b edge).imp_right fun hb => ⟨hseen hb.1, hb.2⟩

theorem Tracked.skip (h : g.Tracked start seen ⟨node, t :: ts⟩) (old : t ∈ seen)
    (apart : t ≠ start) : g.Tracked start seen ⟨node, ts⟩ := by
  intro b edge
  rcases h b edge with hb | hb
  · rcases List.mem_cons.1 hb with rfl | hb
    · exact .inr ⟨old, apart⟩
    · exact .inl hb
  · exact .inr hb

theorem Tracked.settled (h : g.Tracked start seen ⟨node, []⟩) : g.Settled start seen node :=
  fun b edge => (h b edge).resolve_left List.not_mem_nil

structure Unclosed (g : Digraph) (start : Nat) (p : Progress) : Prop where
  tracked : ∀ f ∈ p.frames, g.Tracked start p.seen f
  settled : ∀ n ∈ p.finished, g.Settled start p.seen n

theorem unclosed_first (orders : g.Lists order) :
    g.Unclosed start (.first order start) where
  tracked := List.forall_mem_singleton.2 fun b edge => .inl ((orders start b).2 edge)
  settled _ hn := absurd hn List.not_mem_nil

theorem Unclosed.skip (h : g.Unclosed start ⟨⟨node, t :: ts⟩ :: fs, finished⟩)
    (old : t ∈ (Progress.mk (⟨node, t :: ts⟩ :: fs) finished).seen) (apart : t ≠ start) :
    g.Unclosed start ⟨⟨node, ts⟩ :: fs, finished⟩ := by
  obtain ⟨top, others⟩ := List.forall_mem_cons.1 h.tracked
  exact ⟨List.forall_mem_cons.2 ⟨top.skip old apart, others⟩, h.settled⟩

theorem Unclosed.descend (orders : g.Lists order)
    (h : g.Unclosed start ⟨⟨node, t :: ts⟩ :: fs, finished⟩) (apart : t ≠ start) :
    g.Unclosed start ⟨⟨t, order t⟩ :: ⟨node, ts⟩ :: fs, finished⟩ := by
  obtain ⟨top, others⟩ := List.forall_mem_cons.1 h.tracked
  have grows : (Progress.mk (⟨node, t :: ts⟩ :: fs) finished).seen ⊆
      (Progress.mk (⟨t, order t⟩ :: ⟨node, ts⟩ :: fs) finished).seen := List.subset_cons_self t _
  refine ⟨List.forall_mem_cons.2 ⟨fun b edge => .inl ((orders t b).2 edge),
    List.forall_mem_cons.2 ⟨(top.mono grows).skip List.mem_cons_self apart, ?_⟩⟩, ?_⟩
  · exact fun f hf => (others f hf).mono grows
  · exact fun n hn => (h.settled n hn).mono grows

theorem Unclosed.finish (h : g.Unclosed start ⟨⟨node, []⟩ :: fs, finished⟩) :
    g.Unclosed start ⟨fs, node :: finished⟩ := by
  obtain ⟨top, others⟩ := List.forall_mem_cons.1 h.tracked
  have same : (Progress.mk (⟨node, []⟩ :: fs) finished).seen ⊆
      (Progress.mk fs (node :: finished)).seen := List.perm_middle.symm.subset
  refine ⟨fun f hf => (others f hf).mono same, List.forall_mem_cons.2 ⟨top.settled.mono same, ?_⟩⟩
  exact fun n hn => (h.settled n hn).mono same

theorem Unclosed.step (orders : g.Lists order) (sound : g.Sound start p)
    (h : g.Unclosed start p) (step : Step order p events q)
    (stays : ∀ e ∈ events, ¬ e.Closes start) : g.Unclosed start q := by
  cases step with
  | descend unopened _ =>
    exact h.descend orders fun same => unopened (same ▸ sound.start_opened)
  | back opened =>
    exact h.skip (mem_seen_mk.2 (.inl opened)) (stays _ (List.mem_singleton_self _))
  | crossForward unopened done =>
    exact h.skip (mem_seen_mk.2 (.inr done)) fun same => unopened (same ▸ sound.start_opened)
  | finish => exact h.finish

/-- A search that ended without an edge back to the start has seen all that the start reaches. -/
theorem Unclosed.not_transGen (h : g.Unclosed start ⟨[], finished⟩)
    (sound : g.Sound start ⟨[], finished⟩) : ¬ TransGen g.Edge start start := by
  apply not_transGen_of_settled sound.start_mem
  exact h.settled

end Open

section Closing

/-- What was kept of the events leads from each node of a path to the next. -/
def Spells (reached : Array (Option Nat)) (path : List Nat) : Prop :=
  path.IsChain fun b a => reached[b]? = some (some a)

/-- From where the last node was reached does not matter. -/
theorem Spells.set {source : Option Nat} (h : Spells reached path) (apart : t ∉ path.dropLast) :
    Spells (reached.setIfInBounds t source) path := by
  induction path with
  | nil => exact List.isChain_nil
  | cons b path ih =>
    cases path with
    | nil => exact List.isChain_singleton b
    | cons a path =>
      obtain ⟨hb, h⟩ := List.isChain_cons_cons.1 h
      rw [List.dropLast_cons_cons, List.mem_cons, not_or] at apart
      refine List.isChain_cons_cons.2 ⟨?_, ih h apart.2⟩
      rw [Array.getElem?_setIfInBounds_ne apart.1]
      exact hb

/-- What is kept of the events spells the path to the current node. -/
theorem closeAt_step (sound : g.Sound start q) (size : reached.size = g.size)
    (spells : Spells reached p.path) (step : Step order p events q)
    (stays : ∀ e ∈ events, ¬ e.Closes start) :
    ∃ reached', reached'.size = g.size ∧ Spells reached' q.path ∧
      ∀ rest, closeAt start (events ++ rest) reached = closeAt start rest reached' := by
  cases step with
  | @descend node t ts fs finished unopened unfinished =>
    have inside : t < reached.size := size ▸ sound.bounded t List.mem_cons_self
    refine ⟨reached.setIfInBounds t (some node), by simpa using size, ?_, fun _ => rfl⟩
    refine List.isChain_cons_cons.2
      ⟨?_, spells.set fun ht => unopened (List.dropLast_subset _ ht)⟩
    exact Array.getElem?_setIfInBounds_self_of_lt inside
  | back opened =>
    refine ⟨reached, size, spells, fun rest => ?_⟩
    exact if_neg (stays _ (List.mem_singleton_self _))
  | crossForward unopened done => exact ⟨reached, size, spells, fun _ => rfl⟩
  | finish => exact ⟨reached, size, spells.tail, fun _ => rfl⟩

/-- Going back along a path that is spelled passes all its nodes up to the start. -/
theorem walkBack_eq (spells : Spells reached (u :: path)) (nodup : (u :: path).Nodup)
    (last : (u :: path).getLast? = some start) (room : (u :: path).length ≤ steps) :
    walkBack reached start steps u = .ok (some (u :: path).dropLast) := by
  induction path generalizing u steps with
  | nil =>
    obtain ⟨steps, rfl⟩ := Nat.exists_eq_add_one.2 room
    obtain rfl : u = start := by simpa using last
    exact if_pos rfl
  | cons v path ih =>
    obtain ⟨steps, rfl⟩ := Nat.exists_eq_add_one.2 (Nat.lt_of_lt_of_le (Nat.succ_pos _) room)
    obtain ⟨hu, spells⟩ := List.isChain_cons_cons.1 spells
    obtain ⟨apart, nodup⟩ := List.nodup_cons.1 nodup
    rw [List.getLast?_cons_cons] at last
    have ne : u ≠ start := fun same => apart (same ▸ List.mem_of_getLast? last)
    have rest := ih spells nodup last (Nat.le_of_succ_le_succ room)
    unfold walkBack
    rw [if_neg ne, hu]
    change (do return (← walkBack reached start steps v).map (u :: ·)) = _
    rw [rest]
    rfl

def Advances (order : Nat → List Nat) (start : Nat) (p q : Progress) : Prop :=
  ∃ events, Step order p events q ∧ ∀ e ∈ events, ¬ e.Closes start

def AtClose (start : Nat) (p : Progress) : Prop :=
  ∃ u ts fs finished, p = ⟨⟨u, start :: ts⟩ :: fs, finished⟩

theorem Sound.advances (orders : g.Lists order) (closed : g.Closed)
    (sound : g.Sound start p) (h : ReflTransGen (Advances order start) p q) : g.Sound start q := by
  induction h with
  | refl => exact sound
  | tail _ step ih =>
    obtain ⟨events, step, -⟩ := step
    exact ih.step orders closed step

theorem Unclosed.advances (orders : g.Lists order) (closed : g.Closed)
    (sound : g.Sound start p) (unclosed : g.Unclosed start p)
    (h : ReflTransGen (Advances order start) p q) : g.Unclosed start q := by
  induction h with
  | refl => exact unclosed
  | tail before step ih =>
    obtain ⟨events, step, stays⟩ := step
    exact ih.step orders (sound.advances orders closed before) step stays

/-- The events of a search that ends are followed to the first edge back to the start, if there is
one, and what is kept spells the path to where it starts. -/
theorem closeAt_steps (orders : g.Lists order) (closed : g.Closed)
    (sound : g.Sound start p) (size : reached.size = g.size) (spells : Spells reached p.path)
    (steps : Steps order p events q) :
    (ReflTransGen (Advances order start) p q ∧ closeAt start events reached = none) ∨
    ∃ u ts fs finished reached',
      ReflTransGen (Advances order start) p ⟨⟨u, start :: ts⟩ :: fs, finished⟩ ∧
      reached'.size = g.size ∧ Spells reached' (u :: fs.map (·.node)) ∧
      closeAt start events reached = some (reached'.setIfInBounds start (some u)) := by
  induction steps generalizing reached with
  | refl => exact .inl ⟨.refl, rfl⟩
  | @head p q r events events' step _ ih =>
    have hq := sound.step orders closed step
    by_cases stays : ∀ e ∈ events, ¬ e.Closes start
    · obtain ⟨reached', size', spells', run⟩ := closeAt_step hq size spells step stays
      rw [run]
      have first : Advances order start _ _ := ⟨events, step, stays⟩
      rcases ih hq size' spells' with ⟨way, none⟩ | ⟨u, ts, fs, finished, last, way, found⟩
      · exact .inl ⟨.head first way, none⟩
      · exact .inr ⟨u, ts, fs, finished, last, .head first way, found⟩
    · cases step with
      | @back node t ts fs finished opened =>
        obtain rfl : t = start := by
          by_contra apart
          exact stays (List.forall_mem_singleton.2 apart)
        exact .inr ⟨node, ts, fs, finished, reached, .refl, size, spells, if_pos rfl⟩
      | descend | crossForward | finish => exact absurd (by simp [Event.Closes]) stays

theorem Sound.isCycle (h : g.Sound start ⟨⟨u, start :: ts⟩ :: fs, finished⟩) :
    g.IsCycle start (u :: fs.map (·.node)).reverse := by
  have trail : g.Trail start (u :: fs.map (·.node)) (u :: fs.map (·.node)) := {
    last := h.getLast?
    chain := h.chain
    nodup := h.nodup.of_append_left
    subset := List.Subset.refl _ }
  exact trail.isCycle (h.edges _ List.mem_cons_self start List.mem_cons_self)

/-- The edge back to the start closes the cycle along the path to where it starts. -/
theorem cycleAlong_of_closeAt (sound : g.Sound start ⟨⟨u, start :: ts⟩ :: fs, finished⟩)
    (size : reached.size = g.size) (spells : Spells reached (u :: fs.map (·.node)))
    (h : closeAt start events (.replicate g.size none) =
      some (reached.setIfInBounds start (some u))) :
    g.cycleAlong start events = .ok (some (u :: fs.map (·.node)).reverse) := by
  have nodup : (u :: fs.map (·.node)).Nodup := sound.nodup.of_append_left
  have bounded : ∀ n ∈ u :: fs.map (·.node), n < g.size :=
    fun n hn => sound.bounded n (mem_seen_mk.2 (.inl hn))
  have split := List.dropLast_append_getLast? start sound.getLast?
  have apart : start ∉ (u :: fs.map (·.node)).dropLast := by
    rw [← split] at nodup
    exact fun hs => (List.disjoint_of_nodup_append nodup) hs (List.mem_singleton_self start)
  have inside : start < reached.size := size ▸ sound.bounded start sound.start_mem
  have spells : Spells (reached.setIfInBounds start (some u)) _ := spells.set apart
  have back := walkBack_eq spells nodup sound.getLast? (length_le_of_nodup nodup bounded)
  unfold cycleAlong
  rw [h]
  dsimp only
  rw [Array.getElem?_setIfInBounds_self_of_lt inside, Option.join_some]
  dsimp only
  rw [back, ← split, List.dropLast_concat, List.reverse_concat]
  rfl

end Closing

section Deterministic

theorem Step.eq_right {events' : List Event} (h : Step order p events q)
    (h' : Step order p events' r) : q = r := by
  cases h <;> cases h'
  all_goals first | rfl | contradiction

theorem AtClose.not_advances (close : AtClose start p) (sound : g.Sound start p) :
    ¬ Advances order start p q := by
  rintro ⟨events, step, stays⟩
  obtain ⟨u, ts, fs, finished, rfl⟩ := close
  have opened := sound.start_opened
  cases step with
  | back => exact stays _ (List.mem_singleton_self _) rfl
  | descend unopened | crossForward unopened => exact unopened opened

/-- A search comes to just one first edge back to the start. -/
theorem AtClose.eq (orders : g.Lists order) (closed : g.Closed)
    (sound : g.Sound start p) (hq : ReflTransGen (Advances order start) p q)
    (hr : ReflTransGen (Advances order start) p r) (close : AtClose start q)
    (close' : AtClose start r) : q = r := by
  have unique : Relator.RightUnique (Advances order start) :=
    fun _ _ _ ⟨_, h, _⟩ ⟨_, h', _⟩ => h.eq_right h'
  rcases ReflTransGen.total_of_right_unique unique hq hr with way | way
  · rcases way.cases_head with same | ⟨_, step, _⟩
    · exact same
    · exact absurd step (close.not_advances (sound.advances orders closed hq))
  · rcases way.cases_head with same | ⟨_, step, _⟩
    · exact same.symm
    · exact absurd step (close'.not_advances (sound.advances orders closed hr))

end Deterministic

section Following

/-- How the search of `cycleFrom` ends: at the first edge back to the start, with the path to where
it starts, or at given frames with what was seen. -/
inductive Follows (g : Digraph) (start : Nat) (p : Progress) (fs : List Frame) : Search → Prop
  | closed {q : Progress} {seen : List Nat}
    (way : ReflTransGen (Advances g.successors start) p q) (close : AtClose start q) :
    Follows g start p fs ⟨seen, some q.path.reverse⟩
  | ended {finished seen : List Nat}
    (way : ReflTransGen (Advances g.successors start) p ⟨fs, finished⟩)
    (same : ∀ n, n ∈ seen ↔ n ∈ (Progress.mk fs finished).seen) : Follows g start p fs ⟨seen, none⟩

theorem Follows.head {result : Search} (step : Advances g.successors start p q)
    (h : g.Follows start q fs result) : g.Follows start p fs result := by
  cases h with
  | closed way close => exact .closed (.head step way) close
  | ended way same => exact .ended (.head step way) same

theorem Follows.after {result : Search} (way : ReflTransGen (Advances g.successors start) p q)
    (h : g.Follows start q fs result) : g.Follows start p fs result := by
  induction way using ReflTransGen.head_induction_on with
  | refl => exact h
  | head step _ ih => exact ih.head step

theorem follows_followAll (closed : g.Closed) (room : g.Room (steps + 1) seen)
    (hseen : start ∈ seen)
    (same : ∀ n, n ∈ seen ↔ n ∈ (Progress.mk (⟨node, ts⟩ :: fs) finished).seen)
    (htargets : ∀ t ∈ ts, t < g.size)
    (below : ∀ {t fs finished seen}, t < g.size → g.Room steps seen → start ∈ seen →
      (∀ n, n ∈ seen ↔ n ∈ (Progress.mk (⟨t, g.successors t⟩ :: fs) finished).seen) →
      g.Follows start ⟨⟨t, g.successors t⟩ :: fs, finished⟩ (⟨t, []⟩ :: fs)
        (g.searchBelow start steps (t :: fs.map (·.node)) seen)) :
    g.Follows start ⟨⟨node, ts⟩ :: fs, finished⟩ (⟨node, []⟩ :: fs)
      (followAll (g.searchBelow start steps) start (node :: fs.map (·.node)) ts seen) := by
  induction ts generalizing seen finished with
  | nil => exact .ended .refl same
  | cons t ts ih =>
    obtain ⟨ht, htargets⟩ := List.forall_mem_cons.1 htargets
    unfold followAll
    by_cases old : t ∈ seen
    · rw [if_pos (by simpa using old)]
      by_cases back : t = start
      · subst back
        rw [if_pos (beq_self_eq_true t)]
        exact .closed .refl ⟨node, ts, fs, finished, rfl⟩
      · rw [if_neg (by simpa using back)]
        have rest := ih room hseen same htargets
        by_cases opened : t ∈ node :: fs.map (·.node)
        · exact rest.head ⟨_, .back opened, List.forall_mem_singleton.2 back⟩
        · have done : t ∈ finished := (mem_seen_mk.1 ((same t).1 old)).resolve_left opened
          exact rest.head ⟨_, .crossForward opened done, List.forall_mem_singleton.2 id⟩
    · rw [if_neg (by simpa using old)]
      have apart : ¬ (t ∈ node :: fs.map (·.node) ∨ t ∈ finished) :=
        fun h => old ((same t).2 (mem_seen_mk.2 h))
      rw [not_or] at apart
      have descend : Advances g.successors start ⟨⟨node, t :: ts⟩ :: fs, finished⟩
          ⟨⟨t, g.successors t⟩ :: ⟨node, ts⟩ :: fs, finished⟩ :=
        ⟨_, .descend apart.1 apart.2, by simp [Event.Closes]⟩
      have grown : ∀ n, n ∈ t :: seen ↔
          n ∈ (Progress.mk (⟨t, g.successors t⟩ :: ⟨node, ts⟩ :: fs) finished).seen := by
        intro n
        rw [List.mem_cons, same]
        exact (List.mem_cons (l := (Progress.mk (⟨node, ts⟩ :: fs) finished).seen)).symm
      have deeper : g.Follows start ⟨⟨t, g.successors t⟩ :: ⟨node, ts⟩ :: fs, finished⟩
          (⟨t, []⟩ :: ⟨node, ts⟩ :: fs)
          (g.searchBelow start steps (t :: node :: fs.map (·.node)) (t :: seen)) :=
        below ht (room.cons old ht) (List.mem_cons_of_mem t hseen) grown
      have leaves (hnone : (g.searchBelow start steps (t :: node :: fs.map (·.node))
          (t :: seen)).cycle = none) :=
        exhausts_searchBelow closed (room.cons old ht) (List.mem_cons_of_mem t hseen) ht hnone
      apply Follows.head descend
      dsimp only
      generalize g.searchBelow start steps (t :: node :: fs.map (·.node)) (t :: seen) = result
        at deeper leaves ⊢
      cases deeper with
      | closed way close => exact .closed way close
      | @ended finished' seen' way same' =>
        obtain ⟨exhausts, -⟩ := leaves rfl
        have finish : Advances g.successors start ⟨⟨t, []⟩ :: ⟨node, ts⟩ :: fs, finished'⟩
            ⟨⟨node, ts⟩ :: fs, t :: finished'⟩ := ⟨_, .finish, by simp [Event.Closes]⟩
        refine .after (.tail way finish) (ih exhausts.room.succ ?_ (fun n => ?_) htargets)
        · exact exhausts.grows.subset (List.mem_cons_of_mem t hseen)
        · rw [same']
          exact List.perm_middle.mem_iff.symm

theorem follows_searchBelow (closed : g.Closed) (room : g.Room steps seen) (hseen : start ∈ seen)
    (hnode : node < g.size)
    (same : ∀ n, n ∈ seen ↔ n ∈ (Progress.mk (⟨node, g.successors node⟩ :: fs) finished).seen) :
    g.Follows start ⟨⟨node, g.successors node⟩ :: fs, finished⟩ (⟨node, []⟩ :: fs)
      (g.searchBelow start steps (node :: fs.map (·.node)) seen) := by
  induction steps generalizing node fs finished seen with
  | zero => exact absurd room.steps_pos (Nat.lt_irrefl 0)
  | succ steps ih =>
    exact follows_followAll closed room hseen same
      (fun t ht => closed node t (mem_successors.1 ht))
      fun ht room hseen same => ih room hseen ht same

end Following

section Reporting

/-- No edges lead back to the start, or the cycle is the path to where the first such edge is. -/
theorem cycleAlong_cases (orders : g.Lists order) (closed : g.Closed)
    (hstart : start < g.size) (h : Reports order start events) :
    (g.cycleAlong start events = .ok none ∧ ¬ TransGen g.Edge start start) ∨
    ∃ q, ReflTransGen (Advances order start) (.first order start) q ∧ AtClose start q ∧
      g.cycleAlong start events = .ok (some q.path.reverse) ∧ g.IsCycle start q.path.reverse := by
  have sound := sound_first orders hstart
  obtain ⟨events, finished, rfl, steps⟩ := h
  rcases closeAt_steps orders closed sound Array.size_replicate (List.isChain_singleton start) steps
    with ⟨way, none⟩ | ⟨u, ts, fs, finished, reached, way, size, spells, found⟩
  · have unclosed := (unclosed_first orders).advances orders closed sound way
    refine .inl ⟨?_, unclosed.not_transGen (sound.advances orders closed way)⟩
    unfold cycleAlong closeAt
    dsimp only
    rw [none]
  · have sound := sound.advances orders closed way
    exact .inr ⟨_, way, ⟨u, ts, fs, finished, rfl⟩, cycleAlong_of_closeAt sound size spells found,
      sound.isCycle⟩

theorem exists_reports (orders : g.Lists order) (closed : g.Closed) (hstart : start < g.size) :
    ∃ events, Reports order start events := by
  obtain ⟨events, finished, steps⟩ := exists_steps orders closed _ (sound_first orders hstart)
  exact ⟨_, events, finished, rfl, steps⟩

theorem cycleAlong_ends (orders : g.Lists order) (closed : g.Closed) (hstart : start < g.size)
    (h : Reports order start events) :
    ∃ found, g.cycleAlong start events = .ok found ∧
      (found = none ↔ ¬ TransGen g.Edge start start) ∧ ∀ c ∈ found, g.IsCycle start c := by
  rcases cycleAlong_cases orders closed hstart h with ⟨run, acyclic⟩ | ⟨q, -, -, run, cycle⟩
  · exact ⟨none, run, iff_of_true rfl acyclic, by simp⟩
  · refine ⟨_, run, by simpa using cycle.transGen, fun c hc => ?_⟩
    rwa [← Option.mem_some_iff.1 hc]

/-- The search of `cycleFrom` is the one that tries the most recent edges first. -/
theorem cycleAlong_eq_cycleFrom (closed : g.Closed) (hstart : start < g.size)
    (h : Reports g.successors start events) :
    g.cycleAlong start events = .ok (g.cycleFrom start) := by
  have orders : g.Lists g.successors := fun _ _ => mem_successors
  have room : g.Room (g.size + 1) [start] :=
    ⟨List.nodup_singleton _, by simpa using hstart, Nat.lt_succ_of_lt (Nat.lt_succ_self _)⟩
  have follows : g.Follows start (.first g.successors start) [⟨start, []⟩]
      (g.searchBelow start (g.size + 1) [start] [start]) :=
    follows_searchBelow closed room (List.mem_singleton_self start) hstart fun _ => Iff.rfl
  have found : g.cycleFrom start = (g.searchBelow start (g.size + 1) [start] [start]).cycle := rfl
  generalize g.searchBelow start (g.size + 1) [start] [start] = result at follows found
  rcases cycleAlong_cases orders closed hstart h with ⟨none, acyclic⟩ | ⟨q, way, close, run, cycle⟩
  · rw [none, (cycleFrom_eq_none_iff closed hstart).2 acyclic]
  · cases follows with
    | closed way' close' =>
      rw [run, found, AtClose.eq orders closed (sound_first orders hstart) way way' close close']
    | ended =>
      exact absurd cycle.transGen ((cycleFrom_eq_none_iff closed hstart).1 found)

/-- Every search that follows all edges of each node that it discovers ends, in whatever order it
follows them, and is about nodes of the graph alone. The way back along what is kept of its events
ends too. It gives a cycle exactly if edges lead from the start back to it, and with the most recent
edges first it gives the one of `cycleFrom`. -/
theorem cycleAlong_correct (closed : g.Closed) (hstart : start < g.size)
    (orders : ∀ n, (order n).Perm (g.successors n)) :
    (∃ events, Reports order start events) ∧
    ∀ events, Reports order start events →
      (∀ e ∈ events, ∀ n ∈ e.nodes, n < g.size) ∧
      ∃ found, g.cycleAlong start events = .ok found ∧
        (found.isSome ↔ TransGen g.Edge start start) ∧ (∀ c ∈ found, g.IsCycle start c) ∧
        (order = g.successors → found = g.cycleFrom start) := by
  have follows := lists_of_perm orders
  refine ⟨exists_reports follows closed hstart, fun events h => ⟨?_, ?_⟩⟩
  · obtain ⟨events, finished, rfl, steps⟩ := h
    refine List.forall_mem_cons.2 ⟨List.forall_mem_singleton.2 hstart, ?_⟩
    exact steps.nodes_lt follows closed (sound_first follows hstart)
  · obtain ⟨found, run, spec, cycle⟩ := cycleAlong_ends follows closed hstart h
    refine ⟨found, run, ?_, cycle, ?_⟩
    · rw [← Option.ne_none_iff_isSome, ne_eq, spec, not_not]
    · rintro rfl
      rw [cycleAlong_eq_cycleFrom closed hstart h] at run
      exact (Except.ok.inj run).symm

def doubled : Digraph := ⟨3, [(0, 1), (1, 1), (1, 0), (0, 1), (1, 2)]⟩

theorem cycleAlong_correct_doubled :
    ∃ events, Reports doubled.successors 0 events ∧
      doubled.cycleAlong 0 events = .ok (some [0, 1]) := by
  have closed : doubled.Closed := by
    intro a b edge
    have bounded : ∀ e ∈ doubled.edges, e.2 < doubled.size := by decide
    exact bounded _ edge
  have hstart : 0 < doubled.size := by decide
  obtain ⟨⟨events, reports⟩, all⟩ := cycleAlong_correct closed hstart fun _ => .refl _
  obtain ⟨-, found, run, -, -, same⟩ := all events reports
  exact ⟨events, reports, by rw [run, same rfl]; rfl⟩

end Reporting

end Frontend.Digraph
