import Frontend.Proofs.Declaring.Sessions
import Frontend.Proofs.Lookup.TypeNames

/-!
# Storage types of enumerations

An enumeration can be declared with any storage type: none is refused, and none is reported. But its
own type is of 8, 16 or 32 bits, so with another storage type there is none to be had. Whoever asks
for it later, by the name of the type or by that of a value, ends in a fault.
-/

namespace Frontend

def BaseType.StoresEnum (base : BaseType) : Prop := ∃ bits, base.bits? = some bits ∧ bits ≤ 32

theorem Enumeration.storesEnum_iff (e : Enumeration) :
    e.base.StoresEnum ↔ ∃ base, e.storage? = some base := by
  constructor
  · rintro ⟨bits, hbits, small⟩
    exact Program.exists_storage hbits small
  · rintro ⟨base, hbase⟩
    unfold Enumeration.storage? at hbase
    split at hbase
    case h_7 => cases hbase
    all_goals
      rename_i hb
      exact ⟨_, by rw [hb]; rfl, by decide⟩

section Entries

variable {entries : List EntryLine} {value : String}

theorem Enumeration.names_numberFrom (base : BaseType) (next : Int64)
    (entries : List (String × Option Expr)) :
    (numberFrom base next entries).map Prod.fst = entries.map Prod.fst := by
  induction entries generalizing next with
  | nil => rfl
  | cons entry entries ih =>
    obtain ⟨name, value | value⟩ := entry
    · exact congrArg (name :: ·) (ih _)
    · exact congrArg (name :: ·) (ih _)

/-- Of declarations with the same name one is kept. -/
theorem exists_kept_iff {α : Type} (name : α → String) (value : String) (earlier as : List α) :
    (∃ a ∈ (firstOfName name earlier as).kept, name a = value) ↔
      ∃ a ∈ earlier ++ as, name a = value := by
  induction as generalizing earlier with
  | nil => rw [List.append_nil, firstOfName]
  | cons a as ih =>
    unfold firstOfName
    split
    · rw [ih, List.append_assoc, List.singleton_append]
    · -- the name is taken by an earlier declaration, which stands for this one as well
      rename_i b found
      have hb := List.mem_of_find?_eq_some found
      have same : name b = name a := by simpa using List.find?_some found
      rw [ih]
      constructor
      · rintro ⟨c, hc, hname⟩
        refine ⟨c, ?_, hname⟩
        rcases List.mem_append.1 hc with hc | hc
        · exact List.mem_append_left _ hc
        · exact List.mem_append_right _ (.tail _ hc)
      · rintro ⟨c, hc, hname⟩
        rcases List.mem_append.1 hc with hc | hc
        · exact ⟨c, List.mem_append_left _ hc, hname⟩
        · rcases List.mem_cons.1 hc with rfl | hc
          · exact ⟨b, List.mem_append_left _ hb, same.trans hname⟩
          · exact ⟨c, List.mem_append_right _ hc, hname⟩

def declaredEnum (span : Span) (name : String) (base : BaseType) (entries : List EntryLine) :
    Enumeration :=
  Enumeration.resolveValues
    { name, base, span
      entries := (firstOfName EntryLine.name [] entries).kept.map fun x => (x.name, x.value) }

/-- It has an entry of every name that was declared. -/
theorem no_entry_declaredEnum (span : Span) (name : String) (base : BaseType) :
    Enumeration.entry? (declaredEnum span name base entries) value = none ↔
      ∀ entry ∈ entries, entry.name ≠ value := by
  have names : (declaredEnum span name base entries).entries.map Prod.fst =
      (firstOfName EntryLine.name [] entries).kept.map EntryLine.name := by
    change (Enumeration.numberFrom _ _ _).map _ = _
    rw [Enumeration.names_numberFrom, List.map_map]
    rfl
  have kept := exists_kept_iff EntryLine.name value [] entries
  rw [List.nil_append] at kept
  have found : (∃ x ∈ (declaredEnum span name base entries).entries, x.1 = value) ↔
      ∃ entry ∈ entries, entry.name = value := by
    rw [← kept, ← List.mem_map, names, List.mem_map]
  rw [Enumeration.entry?, List.lookup_eq_none_iff]
  constructor
  · intro none entry hentry same
    obtain ⟨x, hx, hname⟩ := found.2 ⟨entry, hentry, same⟩
    simpa [hname] using none x hx
  · intro fresh x hx
    by_contra same
    obtain ⟨entry, hentry, hname⟩ := found.1 ⟨x, hx, (beq_iff_eq.1 (by simpa using same)).symm⟩
    exact fresh entry hentry hname

def clashErrors (name : String) (entries : List EntryLine) : List CompileError :=
  (firstOfName EntryLine.name [] entries).clashes.map fun (entry, _) =>
    (Problem.enumerationValueAlreadyDeclared name entry.name).report entry.span

end Entries

namespace Program

variable {p q r : Program} {id : EnumId} {e : Enumeration} {span : Span} {name value : String}

/-- A report for each of a list. -/
theorem reportEach_ends {α : Type} (as : List α) (problem : α → Problem) (span : α → Span)
    (p : Program) :
    Ends (forIn as PUnit.unit fun a _ => do
      reported (problem a) (span a)
      return ForInStep.yield PUnit.unit) p fun _ q =>
        q.store = p.store ∧ q.this = p.this ∧
          q.errors = p.errors ++ as.map fun a => (problem a).report (span a) := by
  induction as generalizing p with
  | nil => exact .pure ⟨rfl, rfl, (List.append_nil _).symm⟩
  | cons a as ih =>
    rw [List.forIn_cons]
    have step : (do
        reported (problem a) (span a)
        return ForInStep.yield PUnit.unit : ProgramM (ForInStep PUnit)).run p =
          .ok (.yield PUnit.unit, p.reportAt (problem a) (span a)) := rfl
    refine .bind_run step ?_
    refine (ih _).mono fun _ q ⟨hstore, hthis, herrors⟩ => ⟨hstore, hthis, ?_⟩
    rw [herrors, List.map_cons]
    exact List.append_assoc ..

/-- A declaration is registered, and if it is refused there is a report. -/
theorem register_ends {α : Type} {add : Store → ModuleId → Bool × Store} {problem : Problem}
    {a : α} {Q : Option α → Program → Prop}
    (taken : (add q.store q.this).1 = true → Q (some a) (q.inStore (add q.store q.this).2))
    (refused : (add q.store q.this).1 = false → ∀ r, Q none r) :
    Ends (do
      set (q.register add).2
      if (q.register add).1 = true then return some a
      reported problem span
      return none) p Q := by
  refine .bind_run (a := ⟨⟩) rfl ?_
  split
  · rename_i yes
    exact .pure (taken yes)
  · rename_i no
    exact .bind_run (a := ⟨⟩) rfl (.pure (refused (Bool.eq_false_iff.2 no) _))

/-- An enumeration is declared unless its name is taken, whatever its storage type is, and errors are
reported of its entries only. -/
theorem makeEnumeration_ends (span : Span) (name : String) (base : BaseType)
    (entries : List EntryLine) (p : Program) :
    Ends (makeEnumeration span name base entries) p fun answer q =>
      (answer.isSome = true ↔ p.thisModule.enumerations.find? name = none) ∧
      ∀ id, answer = some id →
        q.errors = p.errors ++ clashErrors name entries ∧
        ∃ module?, q.store.enumeration? id =
          some { declaredEnum span name base entries with module? } := by
  unfold makeEnumeration
  dsimp only
  refine (reportEach_ends _ _ _ p).bind ?_
  rintro _ p₁ ⟨hstore, hthis, herrors⟩
  refine .bind_run (a := p₁) rfl ?_
  -- reports leave the store alone, so the name is looked up in the module as it was
  have hmodule : p₁.thisModule = p.thisModule := by
    rw [thisModule, hstore, hthis, thisModule]
  set e := declaredEnum span name base entries with he
  set s := (p₁.store.addEnumeration e).2
  have hid : s.enumeration? p₁.store.enumerations.nextId = some e := Table.get?_push_nextId _ _
  have hname : ((s.enumeration? p₁.store.enumerations.nextId).map (·.name)).getD "" = name := by
    rw [hid]
    rfl
  have hregister : s.registerEnumeration p₁.this p₁.store.enumerations.nextId =
      if p.thisModule.enumerations.contains name = true then (false, s)
      else (true, (s.modifyEnumeration p₁.store.enumerations.nextId fun e =>
        { e with module? := some p.thisModule.name }).modifyModule p₁.this fun x =>
          { x with enumerations := x.enumerations.insert name p₁.store.enumerations.nextId }) := by
    have same : s.module p₁.this = p.thisModule := hmodule
    rw [Store.registerEnumeration, hname, same]
  refine register_ends (q := p₁.inStore s) ?_ ?_ <;>
    change (s.registerEnumeration p₁.this p₁.store.enumerations.nextId).1 = _ → _ <;>
    rw [hregister]
  · intro added
    split at added
    · cases added
    · rename_i free
      refine ⟨iff_of_true rfl (find?_of_not_contains free), ?_⟩
      intro id hanswer
      obtain rfl : p₁.store.enumerations.nextId = id := Option.some.inj hanswer
      refine ⟨herrors, some p.thisModule.name, ?_⟩
      change (s.registerEnumeration p₁.this p₁.store.enumerations.nextId).2.enumeration? _ = _
      rw [hregister, if_neg free]
      change (s.modifyEnumeration _ _).enumeration? _ = _
      exact (Table.get?_modify_self _ _ _).trans (congrArg (Option.map _) hid)
  · intro refused r
    split at refused
    · rename_i taken
      refine ⟨iff_of_false Bool.false_ne_true fun free => ?_, fun id answer => by cases answer⟩
      rw [NameMap.contains, free] at taken
      cases taken
    · cases refused

theorem enumType_ok_iff (he : p.store.enumeration? id = some e) :
    (∃ t, p.store.enumType id = .ok t) ↔ e.base.StoresEnum := by
  rw [e.storesEnum_iff, Store.enumType, he]
  cases hbase : e.storage? with
  | none => simp [hbase]
  | some base => simp [hbase]

theorem ends_iff {α : Type} {work : ProgramM α} :
    (Ends work p fun _ _ => True) ↔ ∃ r, work.run p = .ok r :=
  ⟨fun ⟨a, q, hrun, _⟩ => ⟨(a, q), hrun⟩, fun ⟨(a, q), hrun⟩ => ⟨a, q, hrun, trivial⟩⟩

/-- Where an enumeration is all that a name means, the other look-ups find nothing. -/
theorem finds_of_enumeration (single : p.meanings name = [.enumeration id]) :
    p.findStructs name = [] ∧ p.findAnnots name = [] ∧ p.findEnumerations name = [id] ∧
      p.findAliases name = [] := by
  have count := length_meanings p name
  have hmem : .enumeration id ∈ p.meanings name := by
    rw [single]
    exact .head _
  have found : id ∈ p.findEnumerations name := by
    simpa [meanings] using hmem
  have positive := List.length_pos_of_mem found
  rw [single, List.length_singleton] at count
  refine ⟨List.length_eq_zero_iff.1 (by omega), List.length_eq_zero_iff.1 (by omega), ?_,
    List.length_eq_zero_iff.1 (by omega)⟩
  obtain ⟨other, hother⟩ := List.length_eq_one_iff.1 (by omega : (p.findEnumerations name).length = 1)
  rw [hother] at found ⊢
  rw [List.mem_singleton.1 found]

/-- The type of an enumeration is given under its name, if there is one. -/
theorem makeType_ends_iff (span : Span) (single : p.meanings name = [.enumeration id])
    (he : p.store.enumeration? id = some e) :
    (Ends (makeType span name) p fun _ _ => True) ↔ e.base.StoresEnum := by
  obtain ⟨structs, annots, enums, aliases⟩ := finds_of_enumeration single
  have run : (makeType span name).run p =
      (p.store.enumType id).map fun t => (some (t.withSpan span), p) := by
    unfold makeType
    rw [StateT.run_bind, StateT.run_get, pure_bind]
    dsimp only
    rw [structs, annots, enums, aliases, if_neg (by simp)]
    dsimp only
    cases p.store.enumType id <;> rfl
  rw [← enumType_ok_iff he, ends_iff, run]
  cases p.store.enumType id <;> simp [Except.map]

/-- A value of an enumeration is given under its name, if there is a type for it. -/
theorem makeEnumConstant_ends_iff (span : Span) (value : String)
    (single : p.findEnumerations name = [id]) (he : p.store.enumeration? id = some e) :
    (Ends (makeEnumConstant span name value) p fun _ _ => True) ↔
      e.base.StoresEnum ∨ e.entry? value = none := by
  have run : (makeEnumConstant span name value).run p =
      if (e.entry? value).isNone then
        .ok (none, p.reportAt (.enumerationValueNotFound e.name value) span)
      else (p.store.enumType id).map fun t =>
        (some ((Expr.ofNode span (.literal (.enumValue (some id) value))).withType t), p) := by
    unfold makeEnumConstant
    rw [StateT.run_bind, StateT.run_get, pure_bind]
    dsimp only
    rw [single]
    dsimp only
    rw [he, Option.getD_some]
    split
    · rfl
    · cases p.store.enumType id <;> rfl
  rw [← enumType_ok_iff he, ends_iff, run]
  cases e.entry? value with
  | none => simp
  | some _ => cases p.store.enumType id <;> simp [Except.map]

/-- An enumeration can be declared with any storage type: it is, unless its name is taken, and nothing
but entries of the same name is reported. But whatever the parser does then, its type is there only if
the storage type has 8, 16 or 32 bits. Otherwise its name ends in a fault, and so does that of each of
its values. -/
theorem makeEnumeration_usable (hp : p.Sound) (span : Span) (name : String) (base : BaseType)
    (entries : List EntryLine) :
    Ends (makeEnumeration span name base entries) p fun answer q =>
      (answer.isSome = true ↔ p.thisModule.enumerations.find? name = none) ∧
      ∀ id, answer = some id → q.errors = p.errors ++ clashErrors name entries ∧
        ∀ actions, Yields (perform actions) q fun _ r =>
          ((∃ t, r.store.enumType id = .ok t) ↔ base.StoresEnum) ∧
          (∀ place typeName, r.meanings typeName = [.enumeration id] →
            ((Ends (makeType place typeName) r fun _ _ => True) ↔ base.StoresEnum)) ∧
          ∀ place enumName value, r.findEnumerations enumName = [id] →
            ((Ends (makeEnumConstant place enumName value) r fun _ _ => True) ↔
              base.StoresEnum ∨ ∀ entry ∈ entries, entry.name ≠ value) := by
  have declares := makeEnumeration_ends span name base entries p
  obtain ⟨answer, q, hrun, hanswer, hsome⟩ := declares
  have sound := ((makeEnumeration_outcome span name base entries p answer q hrun).proceeds hp).2
  refine ⟨answer, q, hrun, hanswer, fun id hid => ?_⟩
  obtain ⟨herrors, module?, he⟩ := hsome id hid
  refine ⟨herrors, fun actions _ r hr => ?_⟩
  -- no action changes a declaration that is there, so the storage type stays what it was
  have later := (perform_proceeds actions q _ r hr sound).1.kept.enumerations _ _ he
  refine ⟨enumType_ok_iff later, fun place typeName single => makeType_ends_iff place single later,
    fun place enumName value single => ?_⟩
  rw [makeEnumConstant_ends_iff place value single later]
  exact or_congr_right (no_entry_declaredEnum span name base)

/-- Of two enumerations with one value each, in bytes and in words of 64 bits, the value of the first
is to be had and that of the second is not. -/
theorem makeEnumeration_usable_byte_and_word :
    Program.new.Sound ∧
    Ends (makeEnumeration .builtin "E" .uint8 [{ name := "a" }]) .new (fun _ q =>
      Ends (makeEnumConstant .builtin "E" "a") q fun _ _ => True) ∧
    Ends (makeEnumeration .builtin "E" .int64 [{ name := "a" }]) .new fun _ q =>
      ¬ Ends (makeEnumConstant .builtin "E" "a") q fun _ _ => True := by
  have found (base : BaseType) (hbase : base = .uint8 ∨ base = .int64) :
      Ends (makeEnumeration .builtin "E" base [{ name := "a" }]) .new fun answer q =>
        answer = some ⟨0⟩ ∧ q.findEnumerations "E" = [⟨0⟩] := by
    rcases hbase with rfl | rfl <;> decide +kernel
  have byte : BaseType.uint8.StoresEnum := ⟨8, rfl, by decide⟩
  have word : ¬ BaseType.int64.StoresEnum := by
    rintro ⟨bits, hbits, small⟩
    cases hbits
    omega
  refine ⟨sound_new, ?_, ?_⟩
  · obtain ⟨_, q, hrun, rfl, single⟩ := found .uint8 (.inl rfl)
    have usable := (makeEnumeration_usable sound_new _ _ _ _).of_run hrun
    obtain ⟨-, -, constants⟩ := (usable.2 ⟨0⟩ rfl).2 [] ⟨⟩ q rfl
    exact ⟨_, q, hrun, (constants .builtin "E" "a" single).2 (.inl byte)⟩
  · obtain ⟨_, q, hrun, rfl, single⟩ := found .int64 (.inr rfl)
    have usable := (makeEnumeration_usable sound_new _ _ _ _).of_run hrun
    obtain ⟨-, -, constants⟩ := (usable.2 ⟨0⟩ rfl).2 [] ⟨⟩ q rfl
    refine ⟨_, q, hrun, fun ends => ?_⟩
    rcases (constants .builtin "E" "a" single).1 ends with stores | fresh
    · exact word stores
    · exact fresh _ (.head _) rfl

/-- An enumeration of 64 bits is declared without an error, and both its name and its value end in a
fault. -/
theorem makeEnumeration_takes_int64 :
    Ends (makeEnumeration .builtin "E" .int64 [{ name := "a" }]) .new fun answer q =>
      answer.isSome = true ∧ q.errors.isEmpty = true ∧
      (¬ Ends (makeType .builtin "E") q fun _ _ => True) ∧
      ¬ Ends (makeEnumConstant .builtin "E" "a") q fun _ _ => True := by
  decide +kernel

end Program

end Frontend
