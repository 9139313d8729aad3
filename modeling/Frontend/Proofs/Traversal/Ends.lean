import Frontend.Fault

/-!
# Work that ends without a fault

`Ends m st Q` says that the work `m`, started in the state `st`, ends, and that `Q` holds of its
result and of the state it leaves. `Yields m st Q` says the same of work that may end in a fault,
and `EndsIf c m st Q` of work that may do so unless `c` holds.
-/

namespace Frontend

variable {ς α β : Type}

/-- The work ends without a fault, and what it gives and leaves satisfies `Q`. -/
def Ends (m : StateT ς (Except Fault) α) (st : ς) (Q : α → ς → Prop) : Prop :=
  ∃ a st', m.run st = .ok (a, st') ∧ Q a st'

namespace Ends

variable {m : StateT ς (Except Fault) α} {f : α → StateT ς (Except Fault) β} {st : ς}
  {P Q : α → ς → Prop} {S : β → ς → Prop}

theorem pure {a : α} (h : Q a st) : Ends (Pure.pure a : StateT ς (Except Fault) α) st Q :=
  ⟨a, st, rfl, h⟩

theorem bind (h : Ends m st P) (hf : ∀ a st', P a st' → Ends (f a) st' S) :
    Ends (m >>= f) st S := by
  obtain ⟨a, st', hm, hP⟩ := h
  obtain ⟨b, st'', hb, hS⟩ := hf a st' hP
  refine ⟨b, st'', ?_, hS⟩
  rw [StateT.run_bind, hm]
  exact hb

theorem bind_run {a : α} {st' : ς} (h : m.run st = .ok (a, st')) (hf : Ends (f a) st' S) :
    Ends (m >>= f) st S := by
  refine bind (P := fun b st'' => b = a ∧ st'' = st') ⟨a, st', h, rfl, rfl⟩ ?_
  rintro _ _ ⟨rfl, rfl⟩
  exact hf

theorem mono (h : Ends m st P) (hPQ : ∀ a st', P a st' → Q a st') : Ends m st Q := by
  obtain ⟨a, st', hm, hP⟩ := h
  exact ⟨a, st', hm, hPQ a st' hP⟩

theorem map {g : α → β} (h : Ends m st fun a st' => S (g a) st') : Ends (g <$> m) st S := by
  obtain ⟨a, st', hm, hS⟩ := h
  refine ⟨g a, st', ?_, hS⟩
  rw [StateT.run_map, hm]
  rfl

theorem and (h : Ends m st P) (h' : Ends m st Q) :
    Ends m st fun a st' => P a st' ∧ Q a st' := by
  obtain ⟨a, st', hm, hP⟩ := h
  obtain ⟨b, st'', hm', hQ⟩ := h'
  rw [hm] at hm'
  cases hm'
  exact ⟨a, st', hm, hP, hQ⟩

theorem of_run {a : α} {st' : ς} (h : Ends m st Q) (hm : m.run st = .ok (a, st')) : Q a st' := by
  obtain ⟨b, st'', hb, hQ⟩ := h
  rw [hm] at hb
  cases hb
  exact hQ

instance [∀ a st', Decidable (Q a st')] : Decidable (Ends m st Q) :=
  match h : m.run st with
  | .ok (a, st') => decidable_of_iff (Q a st')
    ⟨fun hQ => ⟨a, st', h, hQ⟩, fun hends => hends.of_run h⟩
  | .error _ => .isFalse <| by
    rintro ⟨a, st', hok, _⟩
    rw [h] at hok
    cases hok

end Ends

section Inversion

variable {m : StateT ς (Except Fault) α} {f : α → StateT ς (Except Fault) β} {st st' : ς} {b : β}

theorem ok_of_bind {ε : Type} {m : Except ε α} {f : α → Except ε β} (h : m >>= f = .ok b) :
    ∃ a, m = .ok a ∧ f a = .ok b := by
  cases m with
  | error fault => cases h
  | ok a => exact ⟨a, rfl, h⟩

/-- Work that ended has done its first part and then its second. -/
theorem exists_of_bind (h : (m >>= f).run st = .ok (b, st')) :
    ∃ a st₁, m.run st = .ok (a, st₁) ∧ (f a).run st₁ = .ok (b, st') := by
  rw [StateT.run_bind] at h
  cases hm : m.run st with
  | error fault =>
    rw [hm] at h
    cases h
  | ok r =>
    rw [hm] at h
    exact ⟨r.1, r.2, rfl, h⟩

theorem run_bind_eq_ok_iff : (m >>= f).run st = .ok (b, st') ↔
    ∃ a st₁, m.run st = .ok (a, st₁) ∧ (f a).run st₁ = .ok (b, st') := by
  refine ⟨exists_of_bind, ?_⟩
  rintro ⟨a, st₁, hm, hf⟩
  rw [StateT.run_bind, hm]
  exact hf

theorem exists_of_map {g : α → β} (h : (g <$> m).run st = .ok (b, st')) :
    ∃ a, m.run st = .ok (a, st') ∧ g a = b := by
  rw [map_eq_pure_bind] at h
  obtain ⟨a, st₁, hm, hpure⟩ := exists_of_bind h
  cases hpure
  exact ⟨a, hm, rfl⟩

theorem Ends.of_map {g : α → β} {S : β → ς → Prop} (h : Ends (g <$> m) st S) :
    Ends m st fun a st' => S (g a) st' := by
  obtain ⟨b, st', hm, hS⟩ := h
  obtain ⟨a, ha, rfl⟩ := exists_of_map hm
  exact ⟨a, st', ha, hS⟩

end Inversion

def Yields (m : StateT ς (Except Fault) α) (st : ς) (Q : α → ς → Prop) : Prop :=
  ∀ a st', m.run st = .ok (a, st') → Q a st'

namespace Yields

variable {m : StateT ς (Except Fault) α} {f : α → StateT ς (Except Fault) β} {st : ς}
  {P Q : α → ς → Prop} {S : β → ς → Prop}

theorem pure {a : α} (h : Q a st) : Yields (Pure.pure a : StateT ς (Except Fault) α) st Q := by
  intro _ _ hrun
  cases hrun
  exact h

theorem throw {fault : Fault} :
    Yields (MonadExcept.throw fault : StateT ς (Except Fault) α) st Q := nofun

theorem lift {e : Except Fault α} (h : ∀ a, e = .ok a → Q a st) :
    Yields (liftM e : StateT ς (Except Fault) α) st Q := by
  intro a st' hrun
  cases e with
  | error fault => cases hrun
  | ok b =>
    cases hrun
    exact h a rfl

theorem bind (h : Yields m st P) (hf : ∀ a st', P a st' → Yields (f a) st' S) :
    Yields (m >>= f) st S := by
  intro b st'' hrun
  obtain ⟨a, st', hm, hb⟩ := exists_of_bind hrun
  exact hf a st' (h a st' hm) b st'' hb

theorem bind_run {a : α} {st' : ς} (h : m.run st = .ok (a, st')) (hf : Yields (f a) st' S) :
    Yields (m >>= f) st S := by
  intro b st'' hrun
  rw [StateT.run_bind, h] at hrun
  exact hf b st'' hrun

theorem mono (h : Yields m st P) (hPQ : ∀ a st', P a st' → Q a st') : Yields m st Q :=
  fun a st' hrun => hPQ a st' (h a st' hrun)

theorem and (h : Yields m st P) (h' : Yields m st Q) :
    Yields m st fun a st' => P a st' ∧ Q a st' :=
  fun a st' hrun => ⟨h a st' hrun, h' a st' hrun⟩

theorem discard (h : Yields m st Q) : Yields (discard m) st fun _ st' => ∃ a, Q a st' := by
  intro _ st' hrun
  obtain ⟨a, hm, -⟩ := exists_of_map hrun
  exact ⟨a, h a st' hm⟩

theorem of_ends (h : Ends m st Q) : Yields m st Q := fun _ _ hrun => h.of_run hrun

end Yields

/-- The work satisfies `Q` if it ends without a fault, and it does so under the condition. -/
def EndsIf (c : Prop) (m : StateT ς (Except Fault) α) (st : ς) (Q : α → ς → Prop) : Prop :=
  Yields m st Q ∧ (c → Ends m st Q)

namespace EndsIf

variable {c c' : Prop} {m : StateT ς (Except Fault) α}
  {f : α → StateT ς (Except Fault) β} {st : ς} {P Q : α → ς → Prop} {S : β → ς → Prop}

theorem of_ends (h : Ends m st Q) : EndsIf c m st Q := ⟨.of_ends h, fun _ => h⟩

theorem bind (h : EndsIf c m st P) (hf : ∀ a st', P a st' → EndsIf c (f a) st' S) :
    EndsIf c (m >>= f) st S :=
  ⟨h.1.bind fun a st' ha => (hf a st' ha).1,
    fun hc => (h.2 hc).bind fun a st' ha => (hf a st' ha).2 hc⟩

theorem bind_run {a : α} {st' : ς} (h : m.run st = .ok (a, st')) (hf : EndsIf c (f a) st' S) :
    EndsIf c (m >>= f) st S := ⟨.bind_run h hf.1, fun hc => .bind_run h (hf.2 hc)⟩

theorem lift {e : Except Fault α} (h : ∀ a, e = .ok a → Q a st) (he : c → ∃ a, e = .ok a) :
    EndsIf c (liftM e) st Q := by
  refine ⟨.lift h, fun hc => ?_⟩
  obtain ⟨a, rfl⟩ := he hc
  exact ⟨a, st, rfl, h a rfl⟩

/-- Work that does what some computation answers, which may be a fault. -/
theorem of_map {e : Except Fault β} {g : β → α × ς} (hrun : m.run st = e.map g)
    (h : ∀ b, e = .ok b → Q (g b).1 (g b).2) (he : c → ∃ b, e = .ok b) : EndsIf c m st Q := by
  constructor
  · intro a st' hm
    cases e with
    | error fault =>
      rw [hrun] at hm
      cases hm
    | ok b =>
      have same : g b = (a, st') := Except.ok.inj (hrun.symm.trans hm)
      have hQ := h b rfl
      rwa [same] at hQ
  · intro hc
    obtain ⟨b, rfl⟩ := he hc
    exact ⟨_, _, hrun, h b rfl⟩

theorem mono (h : EndsIf c m st P) (hPQ : ∀ a st', P a st' → Q a st') : EndsIf c m st Q :=
  ⟨h.1.mono hPQ, fun hc => (h.2 hc).mono hPQ⟩

theorem under (h : EndsIf c m st Q) (hc : c' → c) : EndsIf c' m st Q :=
  ⟨h.1, fun hc' => h.2 (hc hc')⟩

end EndsIf

end Frontend
