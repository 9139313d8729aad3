import Frontend.Ty.Layout
import Mathlib.Data.List.Forall2

/-!
# Things packed one behind the other

A thing of some size and alignment takes the first place that fits it behind the one before. The
places are apart from each other and in order, and end before the size that they are rounded up to.
-/

namespace Frontend

/-- The least multiple of an alignment from a size on; alignment zero counts as one. -/
def roundUp (size align : Nat) : Nat := (size + max align 1 - 1) / max align 1 * max align 1

section Rounding

variable {size other align more n : Nat}

theorem alignUp_eq (size align : Nat) : alignUp size align =
    if size + max align 1 < sizeLimit then .ok (roundUp size align)
    else .error .sizeSumOverflow := by
  unfold alignUp addSizes roundUp
  dsimp only
  split <;> rfl

theorem eq_of_alignUp (h : alignUp size align = .ok n) : n = roundUp size align := by
  rw [alignUp_eq] at h
  split at h <;> cases h
  rfl

theorem le_roundUp (size align : Nat) : size ≤ roundUp size align := by
  unfold roundUp
  have positive : 0 < max align 1 := by omega
  have := Nat.div_add_mod (size + max align 1 - 1) (max align 1)
  have := Nat.mod_lt (size + max align 1 - 1) positive
  rw [Nat.mul_comm]
  omega

theorem max_dvd_roundUp (size align : Nat) : max align 1 ∣ roundUp size align :=
  Nat.dvd_mul_left _ _

theorem dvd_roundUp (h : 0 < align) (size : Nat) : align ∣ roundUp size align := by
  have := max_dvd_roundUp size align
  rwa [Nat.max_eq_left h] at this

theorem roundUp_le (h : size ≤ other) (divides : max align 1 ∣ other) :
    roundUp size align ≤ other := by
  obtain ⟨k, rfl⟩ := divides
  unfold roundUp
  rw [Nat.mul_comm]
  apply Nat.mul_le_mul_left
  apply Nat.le_of_lt_succ
  apply Nat.div_lt_of_lt_mul
  rw [Nat.mul_succ]
  omega

theorem roundUp_le_roundUp (h : size ≤ other) (divides : max align 1 ∣ max more 1) :
    roundUp size align ≤ roundUp other more :=
  roundUp_le (Nat.le_trans h (le_roundUp other more))
    (Nat.dvd_trans divides (max_dvd_roundUp other more))

/-- Of two powers of two the smaller divides the greater. -/
theorem dvd_of_isPowerOfTwo (hsmall : align.isPowerOfTwo) (hgreat : more.isPowerOfTwo)
    (h : align ≤ more) : align ∣ more := by
  obtain ⟨i, rfl⟩ := hsmall
  obtain ⟨j, rfl⟩ := hgreat
  apply Nat.pow_dvd_pow
  exact (Nat.pow_le_pow_iff_right (by decide)).1 h

theorem max_one_of_isPowerOfTwo (h : align.isPowerOfTwo) : max align 1 = align :=
  Nat.max_eq_left (Nat.pos_of_isPowerOfTwo h)

end Rounding

structure Measure where
  size : Nat
  align : Nat
  deriving DecidableEq, Repr

structure Placement where
  offset : Nat
  size : Nat
  deriving DecidableEq, Repr

def Placement.stop (p : Placement) : Nat := p.offset + p.size

/-- The end of the last of some places, or where they start if there are none. -/
def stopFrom : Nat → List Placement → Nat
  | start, [] => start
  | _, p :: ps => stopFrom p.stop ps

/-- Places from an offset on, each the first that fits behind the one before. -/
def pack : Nat → List Measure → List Placement
  | _, [] => []
  | start, m :: ms =>
    let p : Placement := ⟨roundUp start m.align, m.size⟩
    p :: pack p.stop ms

/-- Each thing has a place of its size at a multiple of its alignment, the places are in order, none
begins before the end of an earlier one, and all end within a size. -/
structure LaidOut (ms : List Measure) (ps : List Placement) (size : Nat) : Prop where
  aligned : ms.Forall₂ (fun m p => p.size = m.size ∧ m.align ∣ p.offset) ps
  apart : ps.Pairwise fun p q => p.stop ≤ q.offset
  inside : ∀ p ∈ ps, p.stop ≤ size

section Packing

variable {start other size : Nat} {m : Measure} {ms ns : List Measure} {ps qs : List Placement}

@[simp] theorem length_pack (start : Nat) (ms : List Measure) :
    (pack start ms).length = ms.length := by
  induction ms generalizing start with
  | nil => rfl
  | cons m ms ih => exact congrArg (· + 1) (ih _)

theorem stopFrom_append (start : Nat) (ps qs : List Placement) :
    stopFrom start (ps ++ qs) = stopFrom (stopFrom start ps) qs := by
  induction ps generalizing start with
  | nil => rfl
  | cons p ps ih => exact ih _

theorem pack_append (start : Nat) (ms ns : List Measure) :
    pack start (ms ++ ns) = pack start ms ++ pack (stopFrom start (pack start ms)) ns := by
  induction ms generalizing start with
  | nil => rfl
  | cons m ms ih => exact congrArg (List.cons _) (ih _)

theorem le_stopFrom_pack (start : Nat) (ms : List Measure) :
    start ≤ stopFrom start (pack start ms) := by
  induction ms generalizing start with
  | nil => exact Nat.le_refl start
  | cons m ms ih =>
    have := le_roundUp start m.align
    have := ih (roundUp start m.align + m.size)
    simp only [pack, stopFrom, Placement.stop]
    omega

theorem stopFrom_pack_append_le (start : Nat) (ms ns : List Measure) :
    stopFrom start (pack start ms) ≤ stopFrom start (pack start (ms ++ ns)) := by
  rw [pack_append, stopFrom_append]
  exact le_stopFrom_pack _ ns

theorem offset_of_mem_pack {p : Placement} (h : p ∈ pack start ms) : start ≤ p.offset := by
  induction ms generalizing start with
  | nil => cases h
  | cons m ms ih =>
    have := le_roundUp start m.align
    rcases List.mem_cons.1 h with rfl | h
    · exact this
    · have := ih h
      simp only [Placement.stop] at this
      omega

theorem stop_of_mem_pack {p : Placement} (h : p ∈ pack start ms) :
    p.stop ≤ stopFrom start (pack start ms) := by
  induction ms generalizing start with
  | nil => cases h
  | cons m ms ih =>
    rcases List.mem_cons.1 h with rfl | h
    · exact le_stopFrom_pack _ ms
    · exact ih h

theorem pairwise_pack (start : Nat) (ms : List Measure) :
    (pack start ms).Pairwise fun p q => p.stop ≤ q.offset := by
  induction ms generalizing start with
  | nil => exact .nil
  | cons m ms ih => exact .cons (fun _ => offset_of_mem_pack) (ih _)

theorem forall₂_pack (h : ∀ m ∈ ms, 0 < m.align) :
    ms.Forall₂ (fun m p => p.size = m.size ∧ m.align ∣ p.offset) (pack start ms) := by
  induction ms generalizing start with
  | nil => exact .nil
  | cons m ms ih =>
    obtain ⟨hm, hms⟩ := List.forall_mem_cons.1 h
    exact .cons ⟨rfl, dvd_roundUp hm start⟩ (ih hms)

/-- Packed things lie as they should within every size that they end before. -/
theorem laidOut_pack (h : ∀ m ∈ ms, 0 < m.align) (inside : stopFrom start (pack start ms) ≤ size) :
    LaidOut ms (pack start ms) size where
  aligned := forall₂_pack h
  apart := pairwise_pack start ms
  inside _ hp := Nat.le_trans (stop_of_mem_pack hp) inside

end Packing

end Frontend
