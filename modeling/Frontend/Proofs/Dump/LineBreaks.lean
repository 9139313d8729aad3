import Frontend.Sexp
import Mathlib.Data.List.TakeWhile

/-!
# Line breaks in the pretty text

A tree that is broken puts each element behind the first on a line of its own, so its text differs
from the flat one in white space only: where the flat text has a space, this one may have a newline
and an indent. Joining the lines gives the flat text back, as long as no atom brings a newline of
its own or spaces that would be taken for an indent. A break adds a newline, so the text is the flat
one only where nothing is broken.
-/

namespace Frontend

/-- Each newline, with the run of spaces after it, becomes one space. -/
def joinLines : List Char → List Char
  | [] => []
  | c :: cs =>
    if c = '\n' then ' ' :: joinLines (cs.dropWhile (· == ' ')) else c :: joinLines cs
termination_by cs => cs.length
decreasing_by
  · exact Nat.lt_succ_of_le (List.length_dropWhile_le _ cs)
  · exact Nat.lt_succ_self _

def Unindented (cs : List Char) : Prop := cs.head? ≠ some ' '

instance (cs : List Char) : Decidable (Unindented cs) :=
  inferInstanceAs (Decidable (cs.head? ≠ some ' '))

section JoinLines

variable {a b : List Char}

theorem Unindented.dropWhile (h : Unindented b) : b.dropWhile (· == ' ') = b := by
  cases b with
  | nil => rfl
  | cons c b =>
    have hc : c ≠ ' ' := fun hc => h (by rw [hc]; rfl)
    exact List.dropWhile_cons_of_neg (by simpa using hc)

theorem Unindented.append (ha : Unindented a) (hb : Unindented b) : Unindented (a ++ b) := by
  cases a with
  | nil => exact hb
  | cons c a => exact ha

@[simp] theorem joinLines_nil : joinLines [] = [] := by rw [joinLines]

theorem joinLines_newline (a : List Char) :
    joinLines ('\n' :: a) = ' ' :: joinLines (a.dropWhile (· == ' ')) := by
  rw [joinLines, if_pos rfl]

theorem joinLines_cons {c : Char} (h : c ≠ '\n') (a : List Char) :
    joinLines (c :: a) = c :: joinLines a := by
  rw [joinLines, if_neg h]

/-- A line begins with its indent, which goes. -/
theorem joinLines_indented (h : Unindented b) (n : Nat) :
    joinLines ('\n' :: (List.replicate n ' ' ++ b)) = ' ' :: joinLines b := by
  have spaces : ∀ c ∈ List.replicate n ' ', (c == ' ') = true := fun c hc =>
    beq_iff_eq.2 (List.eq_of_mem_replicate hc)
  rw [joinLines_newline, List.dropWhile_append_of_pos spaces, h.dropWhile]

/-- Lines are joined apart where no run of spaces goes across. -/
theorem joinLines_append (a : List Char) (h : Unindented b) :
    joinLines (a ++ b) = joinLines a ++ joinLines b := by
  fun_induction joinLines a with
  | case1 => rfl
  | case2 a ih =>
    rw [List.cons_append, joinLines_newline, List.cons_append, ← ih, List.dropWhile_append]
    split
    · -- The run takes up the whole rest of the first text, and there it ends.
      rename_i none
      rw [List.isEmpty_iff.1 none, h.dropWhile, List.nil_append]
    · rfl
  | case3 c a hc ih => rw [List.cons_append, joinLines_cons hc, ih, List.cons_append]

theorem joinLines_eq_self (h : '\n' ∉ a) : joinLines a = a := by
  induction a with
  | nil => exact joinLines_nil
  | cons c a ih =>
    obtain ⟨hc, ha⟩ := not_or.1 (mt List.mem_cons.2 h)
    rw [joinLines_cons (Ne.symm hc), ih ha]

end JoinLines

theorem toList_pushn (text : String) (c : Char) (n : Nat) :
    (text.pushn c n).toList = text.toList ++ List.replicate n c := by
  induction n with
  | zero => exact (List.append_nil _).symm
  | succ n ih =>
    change ((text.pushn c n).push c).toList = _
    rw [String.toList_push, ih, List.append_assoc, List.replicate_succ']

namespace Sexp

variable {s : Sexp} {es : List Sexp} {width indent : Nat}

def elements : Sexp → List Sexp
  | .atom _ => []
  | .list es => es

mutual

def atoms : Sexp → List String
  | .atom a => [a]
  | .list es => listAtoms es

def listAtoms : List Sexp → List String
  | [] => []
  | e :: es => e.atoms ++ listAtoms es

end

def Inline (a : String) : Prop := '\n' ∉ a.toList ∧ Unindented a.toList

instance (a : String) : Decidable (Inline a) := inferInstanceAs (Decidable (_ ∧ _))

theorem forall_atoms_cons {e : Sexp} {p : String → Prop} :
    (∀ a ∈ (list (e :: es)).atoms, p a) ↔ (∀ a ∈ e.atoms, p a) ∧ ∀ a ∈ listAtoms es, p a := by
  rw [atoms, listAtoms, List.forall_mem_append]

/-! ### The characters of a list -/

theorem toList_flat_cons (e : Sexp) (es : List Sexp) : (list (e :: es)).flat.toList =
    '(' :: (e.flat.toList ++ ((flatRest es).toList ++ [')'])) := by
  simp [flat]

theorem toList_flatRest_cons (e : Sexp) (es : List Sexp) :
    (flatRest (e :: es)).toList = ' ' :: (e.flat.toList ++ (flatRest es).toList) := by
  simp [flatRest]

theorem toList_prettyAt_of_breaks {e : Sexp}
    (h : (list (e :: es)).breaks indent width = true) :
    ((list (e :: es)).prettyAt width indent).toList = '(' ::
      ((e.prettyAt width (indent + 1)).toList ++
        ((prettyRest width (indent + 1) es).toList ++ [')'])) := by
  simp [prettyAt, h]

theorem toList_prettyRest_cons (width indent : Nat) (e : Sexp) (es : List Sexp) :
    (prettyRest width indent (e :: es)).toList = '\n' :: (List.replicate indent ' ' ++
      ((e.prettyAt width indent).toList ++ (prettyRest width indent es).toList)) := by
  simp [prettyRest, toList_pushn]

theorem breaks_iff : s.breaks indent width = true ↔
    1 < s.elements.length ∧ width < indent + s.flat.utf8ByteSize := by
  match s with
  | .atom a => simp [breaks, elements]
  | .list [] => simp [breaks, elements]
  | .list [e] => simp [breaks, elements]
  | .list (e :: e' :: es) => simp [breaks, elements]

/-- A tree that is not broken has its flat text, whatever is in it. -/
theorem prettyAt_of_not_breaks (h : ¬s.breaks indent width = true) :
    s.prettyAt width indent = s.flat := by
  match s with
  | .atom a => rfl
  | .list [] => rfl
  | .list (e :: es) => rw [prettyAt, if_neg h]

/-! ### Joining the lines of a tree -/

/-- What follows the indent of a line, as a list starts with a parenthesis and an atom with no
space. An empty atom is followed by the next newline or a parenthesis. -/
theorem unindented_prettyAt (width indent : Nat) (h : ∀ a ∈ s.atoms, Inline a) :
    Unindented (s.prettyAt width indent).toList := by
  match s with
  | .atom a => exact (h a (.head _)).2
  | .list [] => simp [prettyAt, Unindented]
  | .list (e :: es) =>
    by_cases hb : (list (e :: es)).breaks indent width = true
    · simp [toList_prettyAt_of_breaks hb, Unindented]
    · simp [prettyAt_of_not_breaks hb, toList_flat_cons, Unindented]

theorem unindented_prettyRest (width indent : Nat) (es : List Sexp) :
    Unindented (prettyRest width indent es).toList := by
  cases es with
  | nil => simp [prettyRest, Unindented]
  | cons e es => simp [toList_prettyRest_cons, Unindented]

mutual

theorem newline_not_mem_flat : (s : Sexp) → (∀ a ∈ s.atoms, Inline a) → '\n' ∉ s.flat.toList
  | .atom a, h => (h a (.head _)).1
  | .list [], _ => by simp [flat]
  | .list (e :: es), h => by
    obtain ⟨he, hes⟩ := forall_atoms_cons.1 h
    simp [toList_flat_cons, newline_not_mem_flat e he, newline_not_mem_flatRest es hes]

theorem newline_not_mem_flatRest :
    (es : List Sexp) → (∀ a ∈ listAtoms es, Inline a) → '\n' ∉ (flatRest es).toList
  | [], _ => by simp [flatRest]
  | e :: es, h => by
    obtain ⟨he, hes⟩ := List.forall_mem_append.1 h
    simp [toList_flatRest_cons, newline_not_mem_flat e he, newline_not_mem_flatRest es hes]

end

-- On a tree and on the elements behind the first at once. The indent varies: it is one more in the
-- elements of a list.
mutual

theorem joinLines_prettyAt (width : Nat) : (s : Sexp) → (indent : Nat) →
    (∀ a ∈ s.atoms, Inline a) → joinLines (s.prettyAt width indent).toList = s.flat.toList
  | .atom a, _, h => joinLines_eq_self (h a (.head _)).1
  | .list [], _, h => joinLines_eq_self (newline_not_mem_flat (.list []) h)
  | .list (e :: es), indent, h => by
    by_cases hb : (list (e :: es)).breaks indent width = true
    · obtain ⟨he, hes⟩ := forall_atoms_cons.1 h
      have closed : Unindented [')'] := by decide
      have rest := (unindented_prettyRest width (indent + 1) es).append closed
      rw [toList_prettyAt_of_breaks hb, toList_flat_cons, joinLines_cons (by decide),
        joinLines_append _ rest, joinLines_append _ closed, joinLines_prettyAt width e _ he,
        joinLines_prettyRest width _ es hes, joinLines_eq_self (by decide)]
    · rw [prettyAt_of_not_breaks hb]
      exact joinLines_eq_self (newline_not_mem_flat _ h)

theorem joinLines_prettyRest (width indent : Nat) : (es : List Sexp) →
    (∀ a ∈ listAtoms es, Inline a) →
    joinLines (prettyRest width indent es).toList = (flatRest es).toList
  | [], _ => joinLines_nil
  | e :: es, h => by
    obtain ⟨he, hes⟩ := List.forall_mem_append.1 h
    have rest := unindented_prettyRest width indent es
    have line := (unindented_prettyAt width indent he).append rest
    rw [toList_prettyRest_cons, toList_flatRest_cons, joinLines_indented line,
      joinLines_append _ rest, joinLines_prettyAt width e _ he, joinLines_prettyRest _ _ es hes]

end

/-! ### Breaking adds newlines -/

mutual

theorem count_newline_prettyAt (width : Nat) : (s : Sexp) → (indent : Nat) →
    s.flat.toList.count '\n' ≤ (s.prettyAt width indent).toList.count '\n'
  | .atom _, _ => Nat.le_refl _
  | .list [], _ => Nat.le_refl _
  | .list (e :: es), indent => by
    by_cases hb : (list (e :: es)).breaks indent width = true
    · have first := count_newline_prettyAt width e (indent + 1)
      have rest := count_newline_prettyRest width (indent + 1) es
      rw [toList_prettyAt_of_breaks hb, toList_flat_cons]
      simp only [List.count_cons, List.count_append]
      omega
    · rw [prettyAt_of_not_breaks hb]

theorem count_newline_prettyRest (width indent : Nat) : (es : List Sexp) →
    (flatRest es).toList.count '\n' + es.length ≤
      (prettyRest width indent es).toList.count '\n'
  | [] => Nat.le_refl _
  | e :: es => by
    have first := count_newline_prettyAt width e indent
    have rest := count_newline_prettyRest width indent es
    have space : (' ' == '\n') = false := rfl
    rw [toList_prettyRest_cons, toList_flatRest_cons, List.length_cons]
    simp only [List.count_cons, List.count_append, List.count_replicate, space, beq_self_eq_true,
      if_true, Bool.false_eq_true, if_false]
    omega

end

theorem count_newline_of_breaks (h : s.breaks indent width = true) :
    s.flat.toList.count '\n' < (s.prettyAt width indent).toList.count '\n' := by
  match s with
  | .list (e :: e' :: es) =>
    have first := count_newline_prettyAt width e (indent + 1)
    have rest := count_newline_prettyRest width (indent + 1) (e' :: es)
    rw [List.length_cons] at rest
    rw [toList_prettyAt_of_breaks h, toList_flat_cons]
    simp only [List.count_cons, List.count_append]
    omega

theorem pretty_eq_flat_iff :
    s.pretty width = s.flat ↔ s.flat.utf8ByteSize ≤ width ∨ s.elements.length ≤ 1 := by
  have broken : s.breaks 0 width = true ↔
      ¬(s.flat.utf8ByteSize ≤ width ∨ s.elements.length ≤ 1) := by
    rw [breaks_iff]
    omega
  constructor
  · intro same
    by_contra hwide
    have more := count_newline_of_breaks (broken.2 hwide)
    rw [← pretty, same] at more
    exact Nat.lt_irrefl _ more
  · intro h
    exact prettyAt_of_not_breaks fun hb => broken.1 hb h

/-- The pretty text differs from the flat one in white space only: joining its lines gives the flat
text back. It is the flat text itself exactly if that fits the width, in bytes, or there is nothing
to break. -/
theorem joinLines_pretty (s : Sexp) (width : Nat) :
    ((∀ a ∈ s.atoms, Inline a) → joinLines (s.pretty width).toList = s.flat.toList) ∧
      (s.pretty width = s.flat ↔ s.flat.utf8ByteSize ≤ width ∨ s.elements.length ≤ 1) :=
  ⟨joinLines_prettyAt width s 0, pretty_eq_flat_iff⟩

/-- The second element has an empty atom, and one that is longer in bytes than in characters. -/
def letOfThree : Sexp :=
  .list [.atom "let", .list [.atom "a", .atom "", .atom "é"], .atom "b"]

/-- At width 7 both lists are broken, and the empty atom leaves a line with nothing but its indent.
At width 15 the text fits. -/
theorem joinLines_pretty_letOfThree :
    (∀ a ∈ letOfThree.atoms, Inline a) ∧
    letOfThree.pretty 7 = "(let\n (a\n  \n  é)\n b)" ∧
    joinLines "(let\n (a\n  \n  é)\n b)".toList = "(let (a  é) b)".toList ∧
    letOfThree.pretty 15 = "(let (a  é) b)" := by
  have inline : ∀ a ∈ letOfThree.atoms, Inline a := by decide
  have broken : letOfThree.pretty 7 = "(let\n (a\n  \n  é)\n b)" := by decide
  have joined := (joinLines_pretty letOfThree 7).1 inline
  have whole := (joinLines_pretty letOfThree 15).2.2 (.inl (by decide))
  rw [broken] at joined
  exact ⟨inline, broken, joined, whole⟩

end Sexp

end Frontend
