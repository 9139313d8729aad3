import Frontend.Proofs.Registration.Labels
import Mathlib.Data.List.Nodup

/-!
# Compact names tell types apart

A compact name is a row of pieces: qualifiers, dimensions, nested types, labels and the base type. A
piece is absent or begins with its mark, and its mark is apart from all marks that may follow: none
begins with the other. So a name can be read from left to right, whatever comes after it, and a
piece ends where the next one begins. Base types are the exception, as `int` begins `int2`, but they
come last: one ends where its name in brackets begins, or where the type ends that it belongs to.
-/

namespace Frontend

namespace Ty

inductive Within (u : Ty) : Ty → Prop
  | self : Within u u
  | nested {t v : Ty} : v ∈ t.nested → Within u v → Within u t

inductive Link where
  | struct (id : StructId)
  | enumeration (id : EnumId)
  | annot (id : AnnotId)
  deriving DecidableEq, Repr

def Link.kind : Link → ObjectKind
  | struct _ => .struct
  | enumeration _ => .enumeration
  | annot _ => .annot

/-- The link that the base type asks for. -/
def link? (t : Ty) : Option Link :=
  match t.base with
  | .struct => t.struct?.map .struct
  | .enum | .enum8 | .enum16 => t.enum?.map .enumeration
  | .handle => t.annot?.map .annot
  | _ => none

def LinkedTo (t : Ty) (l : Link) : Prop := ∃ u, Within u t ∧ u.link? = some l

def links (t : Ty) : Bool := t.base == .struct || t.base.isEnum || t.base == .handle

theorem links_of_link? {t : Ty} {l : Link} (h : t.link? = some l) : t.links = true := by
  unfold link? at h
  unfold links
  split at h <;> simp_all [BaseType.isEnum]

theorem kind_of_link? {t u : Ty} {l l' : Link} (hbase : t.base = u.base) (h : t.link? = some l)
    (h' : u.link? = some l') : l.kind = l'.kind := by
  simp only [link?, hbase] at h h'
  cases hu : u.base <;> simp only [hu, reduceCtorEq] at h h'
  all_goals
    obtain ⟨_, -, rfl⟩ := Option.map_eq_some_iff.1 h
    obtain ⟨_, -, rfl⟩ := Option.map_eq_some_iff.1 h'
    rfl

end Ty

/-! ### Pieces and their marks -/

section Pieces

variable {m : String} {ms : List String} {x x' y y' z z' : List Char}

def Opens (ms : List String) (x : List Char) : Prop := ∃ m ∈ ms, m.toList <+: x

/-- A piece of text that is absent or begins with its mark. -/
def Piece (m : String) (x : List Char) : Prop := x = [] ∨ m.toList <+: x

/-- No other mark begins with the mark or is a beginning of it. -/
def Apart (m : String) (ms : List String) : Prop :=
  ∀ n ∈ ms, ¬ m.toList <+: n.toList ∧ ¬ n.toList <+: m.toList

instance (m : String) (ms : List String) : Decidable (Apart m ms) :=
  inferInstanceAs (Decidable (∀ n ∈ ms, _))

theorem Opens.piece (hy : Opens ms y) (hx : Piece m x) : Opens (m :: ms) (x ++ y) := by
  obtain rfl | hx := hx
  · obtain ⟨n, hn, hy⟩ := hy
    exact ⟨n, .tail _ hn, hy⟩
  · exact ⟨m, .head _, hx.trans (List.prefix_append x y)⟩

theorem Apart.not_prefix (hm : Apart m ms) (hy : Opens ms y) : ¬ m.toList <+: y := by
  obtain ⟨n, hn, hy⟩ := hy
  intro h
  obtain h | h := List.prefix_or_prefix_of_prefix h hy
  · exact (hm n hn).1 h
  · exact (hm n hn).2 h

/-- Text up to the first character of a class, or up to the end. -/
theorem append_cancel_of_stop {p : Char → Bool} (hx : ∀ c ∈ x, p c = false)
    (hx' : ∀ c ∈ x', p c = false) (hz : ∀ c ∈ z.head?, p c = true)
    (hz' : ∀ c ∈ z'.head?, p c = true) (he : x ++ z = x' ++ z') : x = x' ∧ z = z' := by
  induction x generalizing x' with
  | nil =>
    cases x' with
    | nil => exact ⟨rfl, he⟩
    | cons c x' =>
      have hc := hz c (by rw [show z = c :: (x' ++ z') from he]; rfl)
      rw [hx' c (.head _)] at hc
      exact absurd hc Bool.false_ne_true
  | cons c x ih =>
    cases x' with
    | nil =>
      have hc := hz' c (by rw [show z' = c :: (x ++ z) from he.symm]; rfl)
      rw [hx c (.head _)] at hc
      exact absurd hc Bool.false_ne_true
    | cons c' x' =>
      obtain ⟨hc, he⟩ := List.cons.inj he
      obtain ⟨hx, hz⟩ := ih (fun c hc => hx c (.tail _ hc)) (fun c hc => hx' c (.tail _ hc)) he
      exact ⟨by rw [hc, hx], hz⟩

end Pieces

namespace Store

variable {s : Store} {a b t : Ty} {x y y' r r' : List Char}

/-! ### The pieces of a compact name -/

/-- Names of base types as compact names begin them. -/
def baseMark : BaseType → String
  | .struct => "S" | .enum => "E" | .enum8 => "E8" | .enum16 => "E16" | .handle => "H"
  | .aliased => "Y" | .auto => "." | .any => "*" | .pointer => "?" | .array => "A"
  | .table => "T" | .iterator => "G" | .block => "$" | .function => "@@" | .lambda => "@"
  | .tuple => "U" | .variant => "V"
  | base => base.name

def flagMarks : List String := ["C", "&", "#", "I", "-C", "-&", "-[]"]

def baseMarks : List String := BaseType.all.map baseMark

theorem baseMark_injective {base base' : BaseType} (h : baseMark base = baseMark base') :
    base = base' :=
  List.inj_on_of_nodup_map (by decide +kernel) base.mem_all base'.mem_all h

def endsBase (c : Char) : Bool := c == '<' || Ty.endsLabel c

theorem endsBase_baseMark (base : BaseType) : ∀ c ∈ (baseMark base).toList, endsBase c = false := by
  have h : baseMarks.all (fun mark => mark.toList.all fun c => !endsBase c) = true := by
    decide +kernel
  have h := List.all_eq_true.1 (List.all_eq_true.1 h _ (List.mem_map_of_mem base.mem_all))
  exact fun c hc => Bool.not_eq_true' _ ▸ h c hc

/-- What follows the compact name of a type, alone or nested in another. -/
def Ended (r : List Char) : Prop := ∀ c ∈ r.head?, Ty.endsLabel c = true

def flagText (mark : String) (p : Bool) : List Char := if p then mark.toList else []

def flags (t : Ty) : List Bool :=
  [t.isConst, t.isRefFlag, t.isTemporary, t.isImplicit, t.dropsConst, t.dropsRef, t.dropsDims]

def mangledDims (dims : List Int32) : List Char :=
  dims.flatMap fun d => '[' :: ((toString d.toInt).toList ++ [']'])

theorem mangledQualifiers_toList (t : Ty) : (mangledQualifiers t).toList =
    (List.zipWith flagText flagMarks (flags t)).flatten ++ mangledDims t.dims := by
  have hflag (mark : String) (p : Bool) :
      (if p = true then mark else "").toList = flagText mark p := by
    cases p <;> rfl
  simp only [mangledQualifiers, String.toList_append, hflag, String.toList_join, flags, flagMarks,
    List.zipWith_cons_cons, List.zipWith_nil_left, List.flatten_cons, List.flatten_nil,
    List.append_assoc, List.append_nil, List.flatMap_map, mangledDims]
  simp

theorem piece_flagText (mark : String) (p : Bool) : Piece mark (flagText mark p) := by
  cases p
  · exact .inl rfl
  · exact .inr (List.prefix_refl _)

def eachApart : List String → List String → Bool
  | [], _ => true
  | m :: marks, ms => decide (Apart m (marks ++ ms)) && eachApart marks ms

theorem opens_flags {marks ms : List String} {ps : List Bool} (hp : ps.length = marks.length)
    (hy : Opens ms y) : Opens (marks ++ ms) ((List.zipWith flagText marks ps).flatten ++ y) := by
  induction marks generalizing ps with
  | nil => exact hy
  | cons m marks ih =>
    cases ps with
    | nil => cases hp
    | cons p ps =>
      rw [List.zipWith_cons_cons, List.flatten_cons, List.append_assoc]
      exact (ih (Nat.succ.inj hp)).piece (piece_flagText m p)

theorem flag_cancel {m : String} {ms : List String} {p q : Bool} (hm : Apart m ms)
    (hy : Opens ms y) (hy' : Opens ms y') (he : flagText m p ++ y = flagText m q ++ y') :
    p = q ∧ y = y' := by
  cases p with
  | false =>
    cases q with
    | false => exact ⟨rfl, he⟩
    | true => exact absurd ⟨y', he.symm⟩ (hm.not_prefix hy)
  | true =>
    cases q with
    | false => exact absurd ⟨y, he⟩ (hm.not_prefix hy')
    | true => exact ⟨rfl, List.append_cancel_left he⟩

/-- Qualifiers are read off one after the other. -/
theorem flags_cancel {marks ms : List String} {ps qs : List Bool}
    (hm : eachApart marks ms = true) (hp : ps.length = marks.length)
    (hq : qs.length = marks.length) (hy : Opens ms y) (hy' : Opens ms y')
    (he : (List.zipWith flagText marks ps).flatten ++ y =
      (List.zipWith flagText marks qs).flatten ++ y') : ps = qs ∧ y = y' := by
  induction marks generalizing ps qs with
  | nil =>
    obtain rfl := List.length_eq_zero_iff.1 hp
    obtain rfl := List.length_eq_zero_iff.1 hq
    exact ⟨rfl, he⟩
  | cons m marks ih =>
    cases ps with
    | nil => cases hp
    | cons p ps =>
      cases qs with
      | nil => cases hq
      | cons q qs =>
        simp only [eachApart, Bool.and_eq_true, decide_eq_true_eq] at hm
        have hp := Nat.succ.inj hp
        have hq' := Nat.succ.inj hq
        simp only [List.zipWith_cons_cons, List.flatten_cons, List.append_assoc] at he
        obtain ⟨hflag, hrest⟩ := flag_cancel hm.1 (opens_flags hp hy) (opens_flags hq' hy') he
        obtain ⟨hflags, hend⟩ := ih hm.2 hp hq' hrest
        exact ⟨by rw [hflag, hflags], hend⟩

theorem isDigit_of_mem_repr {c : Char} {k : Nat} (h : c ∈ k.repr.toList) : c.isDigit = true :=
  Nat.isDigit_of_mem_toDigits (by decide) (by decide) (String.toList_ofList ▸ h)

theorem bracket_notMem_toString (n : Int) : ']' ∉ (toString n).toList := by
  have hdigit (k : Nat) : ']' ∉ k.repr.toList := fun h =>
    absurd (isDigit_of_mem_repr h) (by decide)
  cases n with
  | ofNat k => exact hdigit k
  | negSucc k =>
    change ']' ∉ ("-" ++ k.succ.repr).toList
    rw [String.toList_append, List.mem_append, not_or]
    exact ⟨by decide, hdigit _⟩

theorem eq_of_repr_eq {m n : Nat} (h : m.repr = n.repr) : m = n := by
  have digits : Nat.toDigits 10 m = Nat.toDigits 10 n := by
    rw [← String.toList_ofList (l := Nat.toDigits 10 m), ← Nat.repr_eq_ofList_toDigits, h,
      Nat.repr_eq_ofList_toDigits, String.toList_ofList]
  calc
    m = Nat.ofDigitChars 10 (Nat.toDigits 10 m) 0 := Nat.ofDigitChars_ten_toDigits.symm
    _ = n := by rw [digits, Nat.ofDigitChars_ten_toDigits]

/-- A number is read off its digits, and only a negative one begins with a sign. -/
theorem eq_of_toString_eq {a b : Int} (h : toString a = toString b) : a = b := by
  have unsigned (m n : Nat) : m.repr ≠ "-" ++ n.repr := by
    intro same
    have sign : '-' ∈ m.repr.toList := by simp [same]
    exact absurd (isDigit_of_mem_repr sign) (by decide)
  cases a with
  | ofNat m =>
    cases b with
    | ofNat n => exact congrArg Int.ofNat (eq_of_repr_eq h)
    | negSucc n => exact absurd h (unsigned m _)
  | negSucc m =>
    cases b with
    | ofNat n => exact absurd h.symm (unsigned n _)
    | negSucc n =>
      have same : "-" ++ m.succ.repr = "-" ++ n.succ.repr := h
      have := eq_of_repr_eq ((String.append_right_inj "-").1 same)
      rw [Nat.succ.inj this]

theorem piece_mangledDims (dims : List Int32) : Piece "[" (mangledDims dims) := by
  cases dims with
  | nil => exact .inl rfl
  | cons d dims => exact .inr ⟨_, rfl⟩

/-- Dimensions are read off up to the closing brackets. -/
theorem mangledDims_cancel {ms : List String} {ds ds' : List Int32} (hm : Apart "[" ms)
    (hy : Opens ms y) (hy' : Opens ms y') (he : mangledDims ds ++ y = mangledDims ds' ++ y') :
    ds = ds' ∧ y = y' := by
  induction ds generalizing ds' with
  | nil =>
    cases ds' with
    | nil => exact ⟨rfl, he⟩
    | cons d' ds' => exact absurd ⟨_, he.symm⟩ (hm.not_prefix hy)
  | cons d ds ih =>
    cases ds' with
    | nil => exact absurd ⟨_, he⟩ (hm.not_prefix hy')
    | cons d' ds' =>
      simp only [mangledDims, List.flatMap_cons, List.cons_append, List.append_assoc,
        List.cons.injEq, true_and, List.nil_append] at he
      obtain ⟨hd, he⟩ := append_cons_cancel (bracket_notMem_toString _) (bracket_notMem_toString _) he
      obtain ⟨rfl, hy⟩ := ih he
      have hd : d.toInt = d'.toInt := eq_of_toString_eq (String.toList_inj.1 hd)
      exact ⟨by rw [Int32.toInt_inj.1 hd], hy⟩

theorem prefix_mangledOption (s : Store) (mark : String) (t : Ty) :
    (mark ++ "<").toList <+: (s.mangledOption mark (some t)).toList := by
  rw [mangledOption, String.append_assoc, String.toList_append (s := mark ++ "<")]
  exact List.prefix_append _ _

theorem piece_mangledOption (s : Store) (mark : String) (o : Option Ty) :
    Piece (mark ++ "<") (s.mangledOption mark o).toList := by
  cases o with
  | none => exact .inl rfl
  | some t => exact .inr (prefix_mangledOption s mark t)

theorem piece_mangledArgs (s : Store) (ts : List Ty) : Piece "0<" (s.mangledArgs ts).toList := by
  cases ts with
  | nil => exact .inl rfl
  | cons t ts =>
    rw [mangledArgs, String.append_assoc, String.append_assoc, String.toList_append]
    exact .inr (List.prefix_append _ _)

theorem piece_mangledLabels (names : List String) : Piece "N<" (mangledLabels names).toList := by
  by_cases h : names = []
  · subst h
    exact .inl rfl
  · rw [mangledLabels_toList h]
    exact .inr ⟨_, rfl⟩

/-! ### Names that can be read -/

/-- A name without the characters that end names in a compact name. Letters, digits, `_`, `:` and
`#` are none of them. -/
def PlainName (name : String) : Prop := ∀ c ∈ name.toList, c ≠ ';' ∧ c ≠ '>'

def linkName? (s : Store) : Ty.Link → Option String
  | .struct id => (s.struct? id).map (·.mangledName)
  | .enumeration id => (s.enumeration? id).map (·.mangledName)
  | .annot id => (s.annot? id).map (·.mangledName)

/-- The names that a type itself brings into compact names are plain, and its link, if the base type
asks for one, is to a declaration that is there. -/
structure Legible (s : Store) (t : Ty) : Prop where
  labels : PlainLabels t.argNames
  aliasName : t.base = .aliased → PlainName t.aliasName
  link : t.links = true → ∃ l name, t.link? = some l ∧ s.linkName? l = some name ∧ PlainName name

def baseName? (s : Store) (t : Ty) : Option String :=
  if t.base = .aliased then some t.aliasName else t.link?.bind s.linkName?

def bracketed : Option String → List Char
  | some name => '<' :: (name.toList ++ ['>'])
  | none => []

theorem mangledBase_toList (h : s.Legible t) :
    (s.mangledBase t).toList = (baseMark t.base).toList ++ bracketed (s.baseName? t) := by
  obtain ⟨-, -, hlink⟩ := h
  simp only [mangledBase, baseName?, Ty.link?, Ty.links] at hlink ⊢
  cases hbase : t.base <;> simp only [hbase] at hlink ⊢
  case struct =>
    obtain ⟨l, name, hl, hname, -⟩ := hlink rfl
    obtain ⟨id, hid, rfl⟩ := Option.map_eq_some_iff.1 hl
    obtain ⟨x, hx, rfl⟩ := Option.map_eq_some_iff.1 hname
    simp [hid, hx, linkName?, bracketed, baseMark]
  case handle =>
    obtain ⟨l, name, hl, hname, -⟩ := hlink rfl
    obtain ⟨id, hid, rfl⟩ := Option.map_eq_some_iff.1 hl
    obtain ⟨x, hx, rfl⟩ := Option.map_eq_some_iff.1 hname
    simp [hid, hx, linkName?, bracketed, baseMark]
  case enum | enum8 | enum16 =>
    obtain ⟨l, name, hl, hname, -⟩ := hlink rfl
    obtain ⟨id, hid, rfl⟩ := Option.map_eq_some_iff.1 hl
    obtain ⟨e, he, rfl⟩ := Option.map_eq_some_iff.1 hname
    simp [hid, he, linkName?, bracketed, baseMark]
  case aliased =>
    simp [bracketed, baseMark]
  all_goals simp [bracketed, baseMark]

theorem endsBase_head {o : Option String} (hr : Ended r) :
    ∀ c ∈ (bracketed o ++ r).head?, endsBase c = true := by
  intro c hc
  cases o with
  | none =>
    rw [endsBase, hr c hc, Bool.or_true]
  | some name =>
    cases hc
    rfl

theorem Legible.baseName (h : s.Legible t) : ∀ name ∈ s.baseName? t, PlainName name := by
  intro name hname
  unfold baseName? at hname
  split at hname
  case isTrue hbase =>
    cases hname
    exact h.aliasName hbase
  case isFalse =>
    obtain ⟨l, hl, hname⟩ := Option.bind_eq_some_iff.1 hname
    obtain ⟨l', other, hl', hother, hplain⟩ := h.link (Ty.links_of_link? hl)
    obtain rfl : l' = l := Option.some.inj (hl'.symm.trans hl)
    obtain rfl : other = name := Option.some.inj (hother.symm.trans hname)
    exact hplain

theorem bracketed_cancel {o o' : Option String} (ho : ∀ name ∈ o, PlainName name)
    (ho' : ∀ name ∈ o', PlainName name) (hr : Ended r) (hr' : Ended r')
    (he : bracketed o ++ r = bracketed o' ++ r') : o = o' ∧ r = r' := by
  cases o with
  | none =>
    cases o' with
    | none => exact ⟨rfl, he⟩
    | some name' =>
      simp only [bracketed, List.nil_append, List.cons_append] at he
      exact absurd (hr '<' (by rw [he]; rfl)) (by decide)
  | some name =>
    cases o' with
    | none =>
      simp only [bracketed, List.nil_append, List.cons_append] at he
      have hopen := hr' '<' (by rw [← he]; rfl)
      exact absurd hopen (by decide)
    | some name' =>
      simp only [bracketed, List.cons_append, List.append_assoc, List.cons.injEq, true_and,
        List.nil_append] at he
      obtain ⟨hname, hrest⟩ := append_cons_cancel (fun h => (ho name rfl _ h).2 rfl)
        (fun h => (ho' name' rfl _ h).2 rfl) he
      exact ⟨by rw [String.toList_inj.1 hname], hrest⟩

/-- A base type is read off together with the name behind it. -/
theorem mangledBase_cancel (ha : s.Legible a) (hb : s.Legible b) (hr : Ended r) (hr' : Ended r')
    (he : (s.mangledBase a).toList ++ r = (s.mangledBase b).toList ++ r') :
    a.base = b.base ∧ s.baseName? a = s.baseName? b ∧ r = r' := by
  rw [mangledBase_toList ha, mangledBase_toList hb, List.append_assoc, List.append_assoc] at he
  obtain ⟨hmark, hrest⟩ := append_cancel_of_stop (endsBase_baseMark a.base)
    (endsBase_baseMark b.base) (endsBase_head hr) (endsBase_head hr') he
  exact ⟨baseMark_injective (String.toList_inj.1 hmark),
    bracketed_cancel ha.baseName hb.baseName hr hr' hrest⟩

/-! ### Reading a compact name -/

/-- Two types whose names can be read, where a declaration of the one and a declaration of the
other, if they are of one kind, have one name only if they are one. -/
structure Comparable (s : Store) (a b : Ty) : Prop where
  left : ∀ u, u.Within a → s.Legible u
  right : ∀ u, u.Within b → s.Legible u
  links : ∀ l l', a.LinkedTo l → b.LinkedTo l' → l.kind = l'.kind →
    s.linkName? l = s.linkName? l' → l = l'

theorem Comparable.nested (h : s.Comparable a b) {v w : Ty} (hv : v ∈ a.nested)
    (hw : w ∈ b.nested) : s.Comparable v w where
  left u hu := h.left u (.nested hv hu)
  right u hu := h.right u (.nested hw hu)
  links l l' := fun ⟨u, hu, hl⟩ ⟨u', hu', hl'⟩ =>
    h.links l l' ⟨u, .nested hv hu, hl⟩ ⟨u', .nested hw hu', hl'⟩

/-- Types of one base type with one name behind it have one link. -/
theorem Comparable.link? (h : s.Comparable a b) (hbase : a.base = b.base)
    (hname : s.baseName? a = s.baseName? b) : a.link? = b.link? := by
  by_cases hlinks : a.links = true
  · have hne : a.base ≠ .aliased := by
      intro he
      rw [Ty.links, he] at hlinks
      exact absurd hlinks (by decide)
    have hlinks' : b.links = true := by rwa [Ty.links, ← hbase]
    obtain ⟨l, name, hl, hlname, -⟩ := (h.left a .self).link hlinks
    obtain ⟨l', name', hl', hlname', -⟩ := (h.right b .self).link hlinks'
    rw [baseName?, baseName?, if_neg hne, if_neg (hbase ▸ hne), hl, hl'] at hname
    rw [hl, hl', h.links l l' ⟨a, .self, hl⟩ ⟨b, .self, hl'⟩ (Ty.kind_of_link? hbase hl hl') hname]
  · have hnone {t : Ty} (ht : ¬ t.links = true) : t.link? = none := by
      cases hl : t.link? with
      | none => rfl
      | some l => exact absurd (Ty.links_of_link? hl) ht
    rw [hnone hlinks, hnone (by rwa [Ty.links, ← hbase])]

theorem sameShallow_of_pieces (hflags : flags a = flags b) (hdims : a.dims = b.dims)
    (hlabels : a.argNames = b.argNames) (hbase : a.base = b.base) (hlink : a.link? = b.link?)
    (hname : s.baseName? a = s.baseName? b) : a.sameShallow .full b = true := by
  simp only [flags, List.cons.injEq, and_true] at hflags
  obtain ⟨hconst, href, htemporary, himplicit, hdc, hdr, hdd⟩ := hflags
  simp only [Ty.sameShallow, hbase, hconst, href, htemporary, himplicit, hdc, hdr, hdd, hdims,
    hlabels, beq_self_eq_true, Bool.or_true, Bool.and_true, Bool.true_and]
  simp only [Ty.link?, baseName?, hbase] at hlink hname
  cases hb : b.base <;> simp only [hb] at hlink hname ⊢
  case struct => exact beq_iff_eq.2 (Option.map_injective (fun _ _ h => Ty.Link.struct.inj h) hlink)
  case enum | enum8 | enum16 =>
    exact beq_iff_eq.2 (Option.map_injective (fun _ _ h => Ty.Link.enumeration.inj h) hlink)
  case handle => exact beq_iff_eq.2 (Option.map_injective (fun _ _ h => Ty.Link.annot.inj h) hlink)
  case aliased => exact beq_iff_eq.2 (Option.some.inj hname)

theorem ended_cons {c : Char} (h : Ty.endsLabel c = true) : Ended (c :: r) := by
  intro d hd
  cases hd
  exact h

theorem ended_mangledRest (s : Store) (ts : List Ty) :
    Ended ((s.mangledRest ts).toList ++ '>' :: r) := by
  cases ts with
  | nil => exact ended_cons rfl
  | cons t ts =>
    simp only [mangledRest, String.append_assoc, String.toList_append]
    exact ended_cons rfl

theorem opens_mangledBase (h : s.Legible t) : Opens baseMarks ((s.mangledBase t).toList ++ r) := by
  rw [mangledBase_toList h, List.append_assoc]
  exact ⟨_, List.mem_map_of_mem t.base.mem_all, List.prefix_append _ _⟩

theorem mangledLabels_read {names names' : List String} (h : PlainLabels names)
    (h' : PlainLabels names') (he : (mangledLabels names).toList ++ ((s.mangledBase a).toList ++ r) =
      (mangledLabels names').toList ++ ((s.mangledBase b).toList ++ r')) :
    names = names' ∧ (s.mangledBase a).toList ++ r = (s.mangledBase b).toList ++ r' := by
  obtain ⟨c, x, hc, hne⟩ := mangledBase_head s a
  obtain ⟨c', x', hc', hne'⟩ := mangledBase_head s b
  rw [hc, hc'] at he ⊢
  exact mangledLabels_cancel h h' hne hne' he

/-- What tells the arguments behind semicolons apart tells the whole list apart. -/
theorem mangledArgs_read {ms : List String} {as bs : List Ty} {p : Prop} (hm : Apart "0<" ms)
    (hy : Opens ms y) (hy' : Opens ms y')
    (hrest : ∀ {x x' : List Char}, (s.mangledRest as).toList ++ '>' :: x =
      (s.mangledRest bs).toList ++ '>' :: x' → p ∧ x = x')
    (he : (s.mangledArgs as).toList ++ y = (s.mangledArgs bs).toList ++ y') : p ∧ y = y' := by
  cases as with
  | nil =>
    cases bs with
    | nil => exact hrest (congrArg ('>' :: ·) he)
    | cons b bs =>
      simp only [mangledArgs, String.toList_append, List.append_assoc] at he
      exact absurd ⟨_, he.symm⟩ (hm.not_prefix hy)
  | cons a as =>
    cases bs with
    | nil =>
      simp only [mangledArgs, String.toList_append, List.append_assoc] at he
      exact absurd ⟨_, he⟩ (hm.not_prefix hy')
    | cons b bs =>
      simp only [mangledArgs, String.toList_append, List.append_assoc] at he
      have he := congrArg (";".toList ++ ·) (List.append_cancel_left he)
      simp only [mangledRest, String.toList_append, List.append_assoc] at hrest
      exact hrest he

mutual

/-- The compact name of a type is read off whatever follows it. -/
theorem mangledType_read (s : Store) : (a b : Ty) → s.Comparable a b → {r r' : List Char} →
    Ended r → Ended r' → (s.mangledType a).toList ++ r = (s.mangledType b).toList ++ r' →
      (a.sameType b = true ∧ a.sameLabels b = true) ∧ r = r'
  | { first, second, args, argNames, dims, .. }, b, h, r, r', hr, hr', he => by
    rw [mangledType_eq, mangledType_eq s b] at he
    simp only [String.toList_append, List.append_assoc, mangledQualifiers_toList] at he
    -- What stands at the beginning of the rest, from the base type backwards.
    have hlabels := (opens_mangledBase (h.left _ .self) (r := r)).piece (piece_mangledLabels argNames)
    have hargs := hlabels.piece (piece_mangledArgs s args)
    have hsecond := hargs.piece (piece_mangledOption s "2" second)
    have hfirst := hsecond.piece (piece_mangledOption s "1" first)
    have hdims := hfirst.piece (piece_mangledDims dims)
    have hlabels' := (opens_mangledBase (h.right _ .self) (r := r')).piece
      (piece_mangledLabels b.argNames)
    have hargs' := hlabels'.piece (piece_mangledArgs s b.args)
    have hsecond' := hargs'.piece (piece_mangledOption s "2" b.second)
    have hfirst' := hsecond'.piece (piece_mangledOption s "1" b.first)
    have hdims' := hfirst'.piece (piece_mangledDims b.dims)
    obtain ⟨sameFlags, he⟩ := flags_cancel (by decide +kernel) rfl rfl hdims hdims' he
    obtain ⟨sameDims, he⟩ := mangledDims_cancel (by decide +kernel) hfirst hfirst' he
    obtain ⟨⟨sameFirst, labelsFirst⟩, he⟩ := mangledOption_read s "1" (by decide +kernel) first
      b.first (fun t ht u hu => h.nested (by simp [Ty.nested, Option.mem_def.1 ht])
        (by simp [Ty.nested, Option.mem_def.1 hu])) hsecond hsecond' he
    obtain ⟨⟨sameSecond, labelsSecond⟩, he⟩ := mangledOption_read s "2" (by decide +kernel) second
      b.second (fun t ht u hu => h.nested (by simp [Ty.nested, Option.mem_def.1 ht])
        (by simp [Ty.nested, Option.mem_def.1 hu])) hargs hargs' he
    obtain ⟨⟨sameArgs, labelsArgs⟩, he⟩ := mangledArgs_read (by decide +kernel) hlabels hlabels'
      (mangledRest_read s args b.args fun t ht u hu => h.nested (by simp [Ty.nested, ht])
        (by simp [Ty.nested, hu])) he
    obtain ⟨sameNames, he⟩ := mangledLabels_read (h.left _ .self).labels (h.right _ .self).labels he
    obtain ⟨sameBase, sameName, he⟩ := mangledBase_cancel (h.left _ .self) (h.right _ .self) hr hr' he
    have sameLink := h.link? sameBase sameName
    have sameShallow := sameShallow_of_pieces sameFlags sameDims sameNames sameBase sameLink sameName
    simp only [Ty.sameType, Ty.same, Ty.sameLabels, Bool.and_eq_true, beq_iff_eq]
    exact ⟨⟨⟨⟨⟨sameShallow, sameFirst⟩, sameSecond⟩, sameArgs⟩,
      ⟨⟨sameNames, labelsFirst⟩, labelsSecond⟩, labelsArgs⟩, he⟩

theorem mangledOption_read (s : Store) (mark : String) {ms : List String}
    (hm : Apart (mark ++ "<") ms) : (a b : Option Ty) → (∀ t ∈ a, ∀ u ∈ b, s.Comparable t u) →
      {y y' : List Char} → Opens ms y → Opens ms y' →
        (s.mangledOption mark a).toList ++ y = (s.mangledOption mark b).toList ++ y' →
          (Ty.sameOption a b = true ∧ Ty.sameLabelsOption a b = true) ∧ y = y'
  | none, none, _, _, _, _, _, he => ⟨⟨rfl, rfl⟩, he⟩
  | none, some b, _, y, y', hy, _, he => by
    have hb := (prefix_mangledOption s mark b).trans (List.prefix_append _ y')
    rw [← he] at hb
    exact absurd hb (hm.not_prefix hy)
  | some a, none, _, y, y', _, hy', he => by
    have ha := (prefix_mangledOption s mark a).trans (List.prefix_append _ y)
    rw [he] at ha
    exact absurd ha (hm.not_prefix hy')
  | some a, some b, h, y, y', hy, hy', he => by
    simp only [mangledOption, String.toList_append, List.append_assoc] at he
    have he := List.append_cancel_left (List.append_cancel_left he)
    obtain ⟨hsame, he⟩ := mangledType_read s a b (h a rfl b rfl) (ended_cons rfl) (ended_cons rfl) he
    exact ⟨hsame, (List.cons.inj he).2⟩

theorem mangledRest_read (s : Store) : (as bs : List Ty) →
    (∀ a ∈ as, ∀ b ∈ bs, s.Comparable a b) → {y y' : List Char} →
      (s.mangledRest as).toList ++ '>' :: y = (s.mangledRest bs).toList ++ '>' :: y' →
        (Ty.sameList as bs = true ∧ Ty.sameLabelsList as bs = true) ∧ y = y'
  | [], [], _, _, _, he => ⟨⟨rfl, rfl⟩, (List.cons.inj he).2⟩
  | [], b :: bs, _, _, _, he => by
    simp only [mangledRest, String.append_assoc, String.toList_append] at he
    exact absurd (List.cons.inj he).1 (by decide)
  | a :: as, [], _, _, _, he => by
    simp only [mangledRest, String.append_assoc, String.toList_append] at he
    exact absurd (List.cons.inj he).1 (by decide)
  | a :: as, b :: bs, h, y, y', he => by
    simp only [mangledRest, String.toList_append, List.append_assoc] at he
    obtain ⟨⟨hhead, hlabel⟩, he⟩ := mangledType_read s a b (h a (.head _) b (.head _))
      (ended_mangledRest s as) (ended_mangledRest s bs) (List.append_cancel_left he)
    obtain ⟨⟨htail, hlabels⟩, he⟩ := mangledRest_read s as bs
      (fun t ht u hu => h t (.tail _ ht) u (.tail _ hu)) he
    have hhead : Ty.same .full a b = true := hhead
    exact ⟨⟨by rw [Ty.sameList, hhead, htail, Bool.and_self],
      by rw [Ty.sameLabelsList, hlabel, hlabels, Bool.and_self]⟩, he⟩

end

/-- Two types have one compact name exactly if they are the same type with the same labels, as far
as their names can be read and the declarations behind them have names of their own. -/
theorem mangledType_eq_iff (s : Store) (a b : Ty) (h : s.Comparable a b) :
    s.mangledType a = s.mangledType b ↔ a.sameType b = true ∧ a.sameLabels b = true := by
  constructor
  · intro he
    have he := congrArg String.toList he
    have hend : Ended [] := by simp [Ended]
    exact (mangledType_read s a b h hend hend (congrArg (· ++ []) he)).1
  · rintro ⟨hsame, hlabels⟩
    exact mangledType_of_sameLabels s a b hsame hlabels

/-- Two structures of one name in two modules, and an enumeration. -/
def namesakes : Store where
  structs := { slots := #[some { name := "S", module? := some "m" },
    some { name := "S", module? := some "n" }] }
  enumerations := { slots := #[some { name := "E", base := .int8, module? := some "m" }] }

def namesakeTable (id : StructId) : Ty :=
  .table (.array (.struct id)) { base := .enum8, enum? := some ⟨0⟩ }

theorem within_namesakeTable {u : Ty} {id : StructId} (h : u.Within (namesakeTable id)) :
    u = namesakeTable id ∨ u = .array (.struct id) ∨ u = .struct id ∨
      u = { base := .enum8, enum? := some ⟨0⟩ } := by
  cases h with
  | self => exact .inl rfl
  | nested hv h =>
    simp only [namesakeTable, Ty.table, Ty.nested, Option.toList_some, List.append_nil,
      List.mem_append, List.mem_singleton] at hv
    obtain rfl | rfl := hv
    · cases h with
      | self => exact .inr (.inl rfl)
      | nested hv h =>
        simp only [Ty.array, Ty.nested, Option.toList_some, Option.toList_none, List.append_nil,
          List.mem_singleton] at hv
        subst hv
        cases h with
        | self => exact .inr (.inr (.inl rfl))
        | nested hv h => simp [Ty.struct, Ty.nested] at hv
    · cases h with
      | self => exact .inr (.inr (.inr rfl))
      | nested hv h => simp [Ty.nested] at hv

theorem legible_namesakeTable {u : Ty} {id : StructId} (hid : id = ⟨0⟩ ∨ id = ⟨1⟩)
    (h : u.Within (namesakeTable id)) : namesakes.Legible u := by
  obtain rfl | rfl | rfl | rfl := within_namesakeTable h <;>
    refine ⟨List.forall_mem_nil _, nofun, fun hlinks => ?_⟩
  · cases hlinks
  · cases hlinks
  · obtain rfl | rfl := hid
    · exact ⟨.struct ⟨0⟩, "m::S", rfl, by decide +kernel, by simp [PlainName]⟩
    · exact ⟨.struct ⟨1⟩, "n::S", rfl, by decide +kernel, by simp [PlainName]⟩
  · exact ⟨.enumeration ⟨0⟩, "m::E#int8", rfl, by decide +kernel, by simp [PlainName]⟩

theorem comparable_namesakes : namesakes.Comparable (namesakeTable ⟨0⟩) (namesakeTable ⟨1⟩) := by
  refine ⟨fun u => legible_namesakeTable (.inl rfl), fun u => legible_namesakeTable (.inr rfl), ?_⟩
  rintro l l' ⟨u, hu, hl⟩ ⟨u', hu', hl'⟩ hkind hname
  obtain rfl | rfl | rfl | rfl := within_namesakeTable hu <;> cases hl <;>
    obtain rfl | rfl | rfl | rfl := within_namesakeTable hu' <;> cases hl'
  · exact absurd hname (by decide +kernel)
  · cases hkind
  · cases hkind
  · rfl

theorem mangledType_eq_iff_namesakes :
    namesakes.Comparable (namesakeTable ⟨0⟩) (namesakeTable ⟨1⟩) ∧
      namesakes.mangledType (namesakeTable ⟨0⟩) ≠ namesakes.mangledType (namesakeTable ⟨1⟩) := by
  refine ⟨comparable_namesakes, fun he => ?_⟩
  obtain ⟨hsame, -⟩ := (mangledType_eq_iff _ _ _ comparable_namesakes).1 he
  exact absurd hsame (by decide +kernel)

end Store

end Frontend
