import Mathlib.Data.List.Basic
import Frontend.Proofs.Registration.Names

/-!
# Labels and overloads

Two types compare equal whatever labels the elements of a tuple or the arguments of a callable bear,
unless they are variants. Compact names write the labels of every type. So equal types share their
compact name as far as their labels agree, and overloads whose arguments differ in labels only are
told apart.
-/

namespace Frontend

namespace Ty

mutual

/-- Whether two types of one shape bear the same labels, nested types included. -/
def sameLabels : Ty → Ty → Bool
  | { first, second, args, argNames, .. }, u =>
    argNames == u.argNames && sameLabelsOption first u.first && sameLabelsOption second u.second &&
      sameLabelsList args u.args

def sameLabelsOption : Option Ty → Option Ty → Bool
  | none, none => true
  | some t, some u => sameLabels t u
  | _, _ => false

def sameLabelsList : List Ty → List Ty → Bool
  | [], [] => true
  | t :: ts, u :: us => sameLabels t u && sameLabelsList ts us
  | _, _ => false

end

def endsLabel (c : Char) : Bool := c == ';' || c == '>'

def marksLabel (t : Ty) : Bool := t.argNames.any fun name => name.toList.any endsLabel

def hasMarkedLabel (t : Ty) : Bool := t.anyNested marksLabel

end Ty

namespace Store

variable {s : Store} {a b : Ty}

def mangledArgs (s : Store) : List Ty → String
  | [] => ""
  | a :: as => "0<" ++ s.mangledType a ++ s.mangledRest as ++ ">"

def mangledLabels (names : List String) : String :=
  if names.isEmpty then "" else "N<" ++ ";".intercalate names ++ ">"

theorem mangledType_eq (s : Store) (t : Ty) : s.mangledType t =
    mangledQualifiers t ++ s.mangledOption "1" t.first ++ s.mangledOption "2" t.second ++
      s.mangledArgs t.args ++ mangledLabels t.argNames ++ s.mangledBase t := by
  obtain ⟨base, first, second, args⟩ := t
  cases args <;> rfl

theorem mangledQualifiers_of_same (h : a.sameShallow .full b = true) :
    mangledQualifiers a = mangledQualifiers b := by
  simp only [Ty.sameShallow, Ty.Comparison.full, Bool.and_eq_true, Bool.not_true, Bool.false_or,
    beq_iff_eq] at h
  obtain ⟨⟨⟨⟨⟨⟨⟨⟨⟨-, href⟩, hconst⟩, htemporary⟩, himplicit⟩, hdc⟩, hdr⟩, hdd⟩, hdims⟩, -⟩ := h
  unfold mangledQualifiers
  rw [href, hconst, htemporary, himplicit, hdc, hdr, hdd, hdims]

/-- Equal types link to the same declaration as far as compact names follow the link. -/
theorem mangledBase_of_same (h : a.sameShallow .full b = true) :
    s.mangledBase a = s.mangledBase b := by
  simp only [Ty.sameShallow, Bool.and_eq_true, beq_iff_eq] at h
  obtain ⟨⟨⟨⟨⟨⟨⟨⟨⟨hbase, -⟩, -⟩, -⟩, -⟩, -⟩, -⟩, -⟩, -⟩, hlink⟩ := h
  unfold mangledBase
  rw [← hbase]
  revert hlink
  cases a.base <;> simp +contextual

theorem mangledBase_head (s : Store) (t : Ty) :
    ∃ c rest, (s.mangledBase t).toList = c :: rest ∧ c ≠ 'N' := by
  unfold mangledBase
  cases t.base <;> dsimp only <;> try split
  all_goals first
    | exact ⟨_, _, rfl, by decide⟩
    | (rw [String.toList_append, String.toList_append]; exact ⟨_, _, rfl, by decide⟩)

theorem mangledArgs_congr {as bs : List Ty} (h : s.mangledRest as = s.mangledRest bs) :
    s.mangledArgs as = s.mangledArgs bs := by
  have h := congrArg String.toList h
  cases as with
  | nil =>
    cases bs with
    | nil => rfl
    | cons b bs => simp [mangledRest] at h
  | cons a as =>
    cases bs with
    | nil => simp [mangledRest] at h
    | cons b bs =>
      simp only [mangledRest, String.append_assoc, String.toList_append] at h
      have h := List.append_cancel_left h
      simp only [mangledArgs, ← String.toList_inj, String.toList_append]
      rw [List.append_assoc "0<".toList, h, ← List.append_assoc]

mutual

/-- Equal types with equal labels have one compact name. -/
theorem mangledType_of_sameLabels (s : Store) : (a b : Ty) → a.sameType b = true →
    a.sameLabels b = true → s.mangledType a = s.mangledType b
  | { first, second, args, .. }, b, hsame, hlabels => by
    simp only [Ty.sameType, Ty.same, Ty.sameLabels, Bool.and_eq_true, beq_iff_eq] at hsame hlabels
    obtain ⟨⟨⟨hshallow, hfirst⟩, hsecond⟩, hargs⟩ := hsame
    obtain ⟨⟨⟨hnames, hfirst'⟩, hsecond'⟩, hargs'⟩ := hlabels
    rw [mangledType_eq, mangledType_eq s b, mangledQualifiers_of_same hshallow,
      mangledBase_of_same hshallow, hnames,
      mangledOption_of_sameLabels s "1" first b.first hfirst hfirst',
      mangledOption_of_sameLabels s "2" second b.second hsecond hsecond',
      mangledArgs_congr (mangledRest_of_sameLabels s args b.args hargs hargs')]

theorem mangledOption_of_sameLabels (s : Store) (mark : String) : (a b : Option Ty) →
    Ty.sameOption a b = true → Ty.sameLabelsOption a b = true →
      s.mangledOption mark a = s.mangledOption mark b
  | none, none, _, _ => rfl
  | some a, some b, hsame, hlabels => by
    rw [mangledOption, mangledOption, mangledType_of_sameLabels s a b hsame hlabels]
  | none, some _, hsame, _ => nomatch hsame
  | some _, none, hsame, _ => nomatch hsame

theorem mangledRest_of_sameLabels (s : Store) : (as bs : List Ty) →
    Ty.sameList as bs = true → Ty.sameLabelsList as bs = true →
      s.mangledRest as = s.mangledRest bs
  | [], [], _, _ => rfl
  | a :: as, b :: bs, hsame, hlabels => by
    simp only [Ty.sameList, Ty.sameLabelsList, Bool.and_eq_true] at hsame hlabels
    rw [mangledRest, mangledRest, mangledType_of_sameLabels s a b hsame.1 hlabels.1,
      mangledRest_of_sameLabels s as bs hsame.2 hlabels.2]
  | [], _ :: _, hsame, _ => nomatch hsame
  | _ :: _, [], hsame, _ => nomatch hsame

end

/-- No label holds a character that ends labels. -/
def PlainLabels (names : List String) : Prop :=
  ∀ name ∈ names, ∀ c ∈ name.toList, c ≠ ';' ∧ c ≠ '>'

theorem marksLabel_eq_false_iff : a.marksLabel = false ↔ PlainLabels a.argNames := by
  simp [Ty.marksLabel, PlainLabels, Ty.endsLabel]

theorem PlainLabels.joined {names : List String} (h : PlainLabels names) :
    '>' ∉ [';'].intercalate (names.map String.toList) := by
  induction names with
  | nil => simp
  | cons name names ih =>
    have hname : '>' ∉ name.toList := fun hmem => (h name (.head _) _ hmem).2 rfl
    have hrest := ih fun other hother => h other (.tail _ hother)
    cases names with
    | nil => simpa using hname
    | cons second names =>
      rw [List.map_cons, List.map_cons, List.intercalate_cons_cons]
      rw [List.map_cons] at hrest
      simp [hname, hrest]

theorem PlainLabels.split {names : List String} (h : PlainLabels names) (hne : names ≠ []) :
    ([';'].intercalate (names.map String.toList)).splitOn ';' = names.map String.toList := by
  apply List.splitOn_intercalate
  · intro letters hletters hmem
    obtain ⟨name, hname, rfl⟩ := List.mem_map.1 hletters
    exact (h name hname _ hmem).1 rfl
  · rwa [ne_eq, List.map_eq_nil_iff]

/-- Texts up to the first of a character. -/
theorem append_cons_cancel {α : Type} {a : α} {x x' r r' : List α} (h : a ∉ x) (h' : a ∉ x')
    (he : x ++ a :: r = x' ++ a :: r') : x = x' ∧ r = r' := by
  induction x generalizing x' with
  | nil =>
    cases x' with
    | nil => exact ⟨rfl, (List.cons.inj he).2⟩
    | cons b x' => exact absurd ((List.cons.inj he).1 ▸ .head _) h'
  | cons b x ih =>
    cases x' with
    | nil => exact absurd ((List.cons.inj he).1 ▸ .head _) h
    | cons b' x' =>
      obtain ⟨hb, he⟩ := List.cons.inj he
      obtain ⟨hx, hr⟩ := ih (fun hmem => h (.tail _ hmem)) (fun hmem => h' (.tail _ hmem)) he
      exact ⟨by rw [hb, hx], hr⟩

theorem mangledLabels_toList {names : List String} (h : names ≠ []) :
    (mangledLabels names).toList =
      'N' :: '<' :: ([';'].intercalate (names.map String.toList) ++ ['>']) := by
  have hne : names.isEmpty = false := by rwa [List.isEmpty_eq_false_iff]
  rw [mangledLabels, hne, if_neg Bool.false_ne_true, String.toList_append, String.toList_append,
    String.toList_intercalate]
  rfl

/-- Plain labels are told apart from each other and from the text after them. -/
theorem mangledLabels_cancel {names names' : List String} {c c' : Char} {r r' : List Char}
    (h : PlainLabels names) (h' : PlainLabels names') (hc : c ≠ 'N') (hc' : c' ≠ 'N')
    (he : (mangledLabels names).toList ++ c :: r = (mangledLabels names').toList ++ c' :: r') :
    names = names' ∧ c :: r = c' :: r' := by
  by_cases hnil : names = []
  · subst hnil
    by_cases hnil' : names' = []
    · subst hnil'
      exact ⟨rfl, he⟩
    · rw [mangledLabels_toList hnil'] at he
      exact absurd (List.cons.inj he).1 hc
  · rw [mangledLabels_toList hnil] at he
    by_cases hnil' : names' = []
    · subst hnil'
      exact absurd (List.cons.inj he).1.symm hc'
    · rw [mangledLabels_toList hnil'] at he
      simp only [List.cons_append, List.append_assoc, List.nil_append, List.cons.injEq,
        true_and] at he
      obtain ⟨hjoined, hrest⟩ := append_cons_cancel h.joined h'.joined he
      have hletters : names.map String.toList = names'.map String.toList := by
        rw [← h.split hnil, ← h'.split hnil', hjoined]
      exact ⟨(List.map_inj_right fun _ _ => String.toList_inj.1).1 hletters, hrest⟩

theorem isEmpty_of_sameList {as bs : List Ty} (h : Ty.sameList as bs = true) :
    as = [] ↔ bs = [] := by
  cases as <;> cases bs <;> simp_all [Ty.sameList]

/-- What tells the arguments after the first mark apart tells the whole list apart. -/
theorem mangledArgs_cancel {as bs : List Ty} {p : Prop} {r r' : List Char} (hnil : as = [] ↔ bs = [])
    (hrest : ∀ {x x' : List Char},
      (s.mangledRest as).toList ++ x = (s.mangledRest bs).toList ++ x' → p ∧ x = x')
    (he : (s.mangledArgs as).toList ++ r = (s.mangledArgs bs).toList ++ r') : p ∧ r = r' := by
  cases as with
  | nil =>
    obtain rfl := hnil.1 rfl
    exact hrest he
  | cons a as =>
    cases bs with
    | nil => cases hnil.2 rfl
    | cons b bs =>
      simp only [mangledArgs, String.toList_append, List.append_assoc] at he
      have he := congrArg (";".toList ++ ·) (List.append_cancel_left he)
      simp only [mangledRest, String.toList_append, List.append_assoc] at hrest
      obtain ⟨hp, hr⟩ := hrest he
      exact ⟨hp, List.append_cancel_left hr⟩

mutual

/-- Equal types with plain labels have one compact name only if the labels are equal, whatever
follows the names. -/
theorem mangledType_cancel (s : Store) : (a b : Ty) → a.sameType b = true →
    a.hasMarkedLabel = false → b.hasMarkedLabel = false → {r r' : List Char} →
      (s.mangledType a).toList ++ r = (s.mangledType b).toList ++ r' →
        a.sameLabels b = true ∧ r = r'
  | { first, second, args, argNames, .. }, b, hsame, hplain, hplain', r, r', he => by
    obtain ⟨base', first', second', args', argNames'⟩ := b
    simp only [Ty.sameType, Ty.same, Bool.and_eq_true] at hsame
    obtain ⟨⟨⟨hshallow, hfirst⟩, hsecond⟩, hargs⟩ := hsame
    simp only [Ty.hasMarkedLabel, Ty.anyNested, Bool.or_eq_false_iff, marksLabel_eq_false_iff]
      at hplain hplain'
    rw [mangledType_eq, mangledType_eq, mangledQualifiers_of_same hshallow,
      mangledBase_of_same hshallow] at he
    simp only [String.toList_append, List.append_assoc] at he
    have he := List.append_cancel_left he
    obtain ⟨hf, he⟩ := mangledOption_cancel s "1" first first' hfirst hplain.1.1.2 hplain'.1.1.2 he
    obtain ⟨hs, he⟩ := mangledOption_cancel s "2" second second' hsecond hplain.1.2 hplain'.1.2 he
    obtain ⟨ha, he⟩ := mangledArgs_cancel (isEmpty_of_sameList hargs)
      (mangledRest_cancel s args args' hargs hplain.2 hplain'.2) he
    obtain ⟨c, base, hhead, hc⟩ := mangledBase_head s ⟨base', first', second', args', argNames',
      _, _, _, _, _, _, _, _, _, _, _, _, _⟩
    rw [hhead] at he
    obtain ⟨hn, he⟩ := mangledLabels_cancel hplain.1.1.1 hplain'.1.1.1 hc hc he
    have he : (c :: base) ++ r = (c :: base) ++ r' := he
    refine ⟨?_, List.append_cancel_left he⟩
    simp only [Ty.sameLabels, Bool.and_eq_true, beq_iff_eq]
    exact ⟨⟨⟨hn, hf⟩, hs⟩, ha⟩

theorem mangledOption_cancel (s : Store) (mark : String) : (a b : Option Ty) →
    Ty.sameOption a b = true → Ty.anyNestedOption Ty.marksLabel a = false →
      Ty.anyNestedOption Ty.marksLabel b = false → {r r' : List Char} →
        (s.mangledOption mark a).toList ++ r = (s.mangledOption mark b).toList ++ r' →
          Ty.sameLabelsOption a b = true ∧ r = r'
  | none, none, _, _, _, _, _, he => ⟨rfl, he⟩
  | some a, some b, hsame, hplain, hplain', r, r', he => by
    simp only [mangledOption, String.toList_append, List.append_assoc] at he
    obtain ⟨hlabels, he⟩ := mangledType_cancel s a b hsame hplain hplain'
      (List.append_cancel_left (List.append_cancel_left he))
    exact ⟨hlabels, List.append_cancel_left he⟩
  | none, some _, hsame, _, _, _, _, _ => nomatch hsame
  | some _, none, hsame, _, _, _, _, _ => nomatch hsame

theorem mangledRest_cancel (s : Store) : (as bs : List Ty) →
    Ty.sameList as bs = true → Ty.anyNestedList Ty.marksLabel as = false →
      Ty.anyNestedList Ty.marksLabel bs = false → {r r' : List Char} →
        (s.mangledRest as).toList ++ r = (s.mangledRest bs).toList ++ r' →
          Ty.sameLabelsList as bs = true ∧ r = r'
  | [], [], _, _, _, _, _, he => ⟨rfl, he⟩
  | a :: as, b :: bs, hsame, hplain, hplain', r, r', he => by
    simp only [mangledRest, String.toList_append, List.append_assoc] at he
    simp only [Ty.sameList, Ty.anyNestedList, Bool.and_eq_true, Bool.or_eq_false_iff]
      at hsame hplain hplain'
    obtain ⟨hlabel, he⟩ := mangledType_cancel s a b hsame.1 hplain.1 hplain'.1
      (List.append_cancel_left he)
    obtain ⟨hlabels, he⟩ := mangledRest_cancel s as bs hsame.2 hplain.2 hplain'.2 he
    exact ⟨by rw [Ty.sameLabelsList, hlabel, hlabels, Bool.and_self], he⟩
  | [], _ :: _, hsame, _, _, _, _, _ => nomatch hsame
  | _ :: _, [], hsame, _, _, _, _, _ => nomatch hsame

end

end Store

end Frontend
