import Mathlib.Data.List.Nodup
import SchemaMigration.Blueprint.Lowering
import SchemaMigration.Document.OnceMap
import SchemaMigration.Proofs.LiteralText
import SchemaMigration.Proofs.Outcome

namespace SchemaMigration

def isWord (s : String) : Bool :=
  s.toList.all Char.isAlpha

namespace ColumnType

/-- The family of a type is the one beside its name in the tables. -/
theorem ofName?_eq_some_iff {name : String} {type : ColumnType} :
    ofName? name = some type ↔ (name, type) ∈ named := by
  apply lookup_eq_some_iff_mem
  intro v w hv hw
  exact congrArg Prod.snd (List.inj_on_of_nodup_map nodup_named hv hw rfl)

def methods : ColumnType → List String
  | integer size => ["id", "foreignId", size.counting, size.unsigned, size.signed]
  | decimal method => [method, "unsigned" ++ capitalize method]
  | string method => ["uuid", method]
  | time method => [method]
  | enumerated method => [method]
  | residual method => [method]

theorem isWord_of_mem_named :
    ∀ p ∈ named, ∀ m ∈ p.2.methods, isWord m = true := by
  decide +kernel

theorem isWord_of_mem_methods {name : String} {type : ColumnType} {m : String}
    (h : ofName? name = some type) (hm : m ∈ type.methods) : isWord m = true :=
  isWord_of_mem_named (name, type) (ofName?_eq_some_iff.mp h) m hm

end ColumnType

theorem isWord_modifier (k : Modifier) : isWord k.method = true := by
  cases k <;> decide +kernel

theorem isWord_tableMethod (k : IndexCategory) : isWord k.tableMethod = true := by
  cases k <;> decide +kernel

namespace ColumnDefinition

/-- The form of a lowered column: a word as its method, the name of the column as its first
argument if there is one, and plain literals but for the source of a default value. -/
structure WellFormed (d : ColumnDefinition) : Prop where
  method : isWord d.method = true
  args : ∀ l ∈ d.args, l.Plain
  head : d.args = [] ∨ ∃ name rest, d.args = .string name :: rest
  modifiers : ∀ k args, k ≠ .defaultValue → d.modifier? k = some args → ∀ l ∈ args, l.Plain
  default : ∀ args, d.modifier? .defaultValue = some args → ∃ e, args = [.raw e]

@[simp] theorem modifier?_setSome (d : ColumnDefinition) (k k' : Modifier)
    (args : Option (List Literal)) :
    (d.setSome k args).modifier? k' =
      if k' = k then args.or (d.modifier? k') else d.modifier? k' := by
  cases args with
  | none => simp [setSome]
  | some args => by_cases h : k' = k <;> simp [setSome, h]

@[simp] theorem method_setSome (d : ColumnDefinition) (k : Modifier)
    (args : Option (List Literal)) : (d.setSome k args).method = d.method := by
  cases args <;> rfl

@[simp] theorem args_setSome (d : ColumnDefinition) (k : Modifier)
    (args : Option (List Literal)) : (d.setSome k args).args = d.args := by
  cases args <;> rfl

theorem wellFormed_call {method name : String} {rest : List Literal}
    (hm : isWord method = true) (hrest : ∀ l ∈ rest, l.Plain) :
    WellFormed { method, args := .string name :: rest } where
  method := hm
  args := by
    intro l hl
    rcases List.mem_cons.mp hl with rfl | hl
    · exact .string name
    · exact hrest l hl
  head := Or.inr ⟨name, rest, rfl⟩
  modifiers := by simp
  default := by simp

/-- A declaration keeps the form when a call with plain arguments is chained. -/
theorem WellFormed.setSome {d : ColumnDefinition} (h : d.WellFormed) {k : Modifier}
    {args : Option (List Literal)} (hk : k ≠ .defaultValue)
    (hargs : ∀ ls, args = some ls → ∀ l ∈ ls, l.Plain) : (d.setSome k args).WellFormed where
  method := by rw [method_setSome]; exact h.method
  args := by rw [args_setSome]; exact h.args
  head := by rw [args_setSome]; exact h.head
  modifiers := by
    intro k' ls hk' hls
    rw [modifier?_setSome] at hls
    split at hls
    case isTrue =>
      rcases Option.or_eq_some_iff.mp hls with hls | ⟨_, hls⟩
      · exact hargs ls hls
      · exact h.modifiers k' ls hk' hls
    case isFalse => exact h.modifiers k' ls hk' hls
  default := by
    intro ls hls
    rw [modifier?_setSome, if_neg hk.symm] at hls
    exact h.default ls hls

theorem WellFormed.set {d : ColumnDefinition} (h : d.WellFormed) {k : Modifier}
    {args : List Literal} (hk : k ≠ .defaultValue) (hargs : ∀ l ∈ args, l.Plain) :
    (d.set k args).WellFormed := by
  change (d.setSome k (some args)).WellFormed
  apply h.setSome hk
  intro ls hls
  rw [← Option.some.inj hls]
  exact hargs

/-- The default value alone is chained with a raw expression. -/
theorem WellFormed.setDefault {d : ColumnDefinition} (h : d.WellFormed) (e? : Option String) :
    (d.setSome .defaultValue (e?.map fun e => [.raw e])).WellFormed where
  method := by rw [method_setSome]; exact h.method
  args := by rw [args_setSome]; exact h.args
  head := by rw [args_setSome]; exact h.head
  modifiers := by
    intro k ls hk hls
    rw [modifier?_setSome, if_neg hk] at hls
    exact h.modifiers k ls hk hls
  default := by
    intro ls hls
    rw [modifier?_setSome, if_pos rfl] at hls
    rcases Option.or_eq_some_iff.mp hls with hls | ⟨_, hls⟩
    · obtain ⟨e, _, rfl⟩ := Option.map_eq_some_iff.mp hls
      exact ⟨e, rfl⟩
    · exact h.default ls hls

end ColumnDefinition

theorem plain_textArgs {wanted : Bool} {text : String} :
    ∀ ls, textArgs wanted text = some ls → ∀ l ∈ ls, l.Plain := by
  intro ls h l hl
  unfold textArgs at h
  split at h
  · cases h
    rw [List.mem_singleton.mp hl]
    exact .string text
  · cases h

/-- The call for an integer column is one of the methods of its size, with the name of the column or
with no argument at all. -/
theorem wellFormed_integerCall (size : IntegerSize) (unsigned counting : Bool) (name : String)
    (hm : ∀ m ∈ (ColumnType.integer size).methods, isWord m = true) :
    ColumnDefinition.WellFormed
      { method := (size.call unsigned counting name).1
        args := (size.call unsigned counting name).2 } := by
  have hnamed (m : String) (h : m ∈ (ColumnType.integer size).methods) :
      ColumnDefinition.WellFormed { method := m, args := [.string name] } :=
    ColumnDefinition.wellFormed_call (hm m h) (by simp)
  have hid : ColumnDefinition.WellFormed { method := "id", args := [] } :=
    { method := hm "id" (by simp [ColumnType.methods])
      args := by simp
      head := Or.inl rfl
      modifiers := by simp
      default := by simp }
  unfold IntegerSize.call
  split
  · split
    · split
      · exact hid
      · exact hnamed "id" (by simp [ColumnType.methods])
    · exact hnamed size.counting (by simp [ColumnType.methods])
  · split
    · exact hnamed "foreignId" (by simp [ColumnType.methods])
    · exact hnamed size.unsigned (by simp [ColumnType.methods])
  · exact hnamed size.signed (by simp [ColumnType.methods])

theorem plain_decimalSize {total scale : Int64} {l : Literal}
    (hl : l ∈ if scale = builderDecimal.2 then
        if total = builderDecimal.1 then [] else [.int total]
      else [.int total, .int scale]) : l.Plain := by
  split at hl
  · split at hl
    · cases hl
    · rw [List.mem_singleton.mp hl]
      exact .int total
  · rcases List.mem_cons.mp hl with rfl | hl
    · exact .int total
    · rw [List.mem_singleton.mp hl]
      exact .int scale

theorem wellFormed_decimal (method : String) (c : Column)
    (hm : ∀ m ∈ (ColumnType.decimal method).methods, isWord m = true) :
    (decimalDefinition method c).WellFormed := by
  apply ColumnDefinition.wellFormed_call
  · split
    · exact hm _ (by simp [ColumnType.methods])
    · exact hm _ (by simp [ColumnType.methods])
  · intro l hl
    exact plain_decimalSize hl

theorem wellFormed_string (method : String) (c : Column)
    (hm : ∀ m ∈ (ColumnType.string method).methods, isWord m = true) :
    (stringDefinition method c).WellFormed := by
  have hmethod : isWord method = true := hm method (by simp [ColumnType.methods])
  unfold stringDefinition
  split
  · exact ColumnDefinition.wellFormed_call (hm "uuid" (by simp [ColumnType.methods])) (by simp)
  · split
    · exact ColumnDefinition.wellFormed_call hmethod (by simp)
    · apply ColumnDefinition.wellFormed_call hmethod
      intro l hl
      rw [List.mem_singleton.mp hl]
      exact .int c.length

theorem wellFormed_time (method : String) (c : Column) (hm : isWord method = true) :
    (timeDefinition method c).WellFormed := by
  apply ColumnDefinition.wellFormed_call hm
  intro l hl
  split at hl
  · cases hl
  · rw [List.mem_singleton.mp hl]
    exact .int _

/-- Every family of types declares its columns in the form of a lowered column. -/
theorem wellFormed_definition (c : Column) {name : String} {type : ColumnType}
    (h : ColumnType.ofName? name = some type) : (type.definition c).WellFormed := by
  have hm (m : String) (hm : m ∈ type.methods) : isWord m = true :=
    ColumnType.isWord_of_mem_methods h hm
  cases type with
  | integer size =>
    have hcall := wellFormed_integerCall size c.isUnsigned c.autoIncrement c.name hm
    apply hcall.setSome (by decide)
    intro ls hls
    split at hls
    · cases hls
      simp
    · cases hls
  | decimal method => exact wellFormed_decimal method c hm
  | string method => exact wellFormed_string method c hm
  | time method => exact wellFormed_time method c (hm method (by simp [ColumnType.methods]))
  | enumerated method =>
    apply ColumnDefinition.wellFormed_call (hm method (by simp [ColumnType.methods]))
    intro l hl
    rw [List.mem_singleton.mp hl]
    exact Literal.plain_names c.values
  | residual method =>
    exact ColumnDefinition.wellFormed_call (hm method (by simp [ColumnType.methods])) (by simp)

/-- The type chains nothing but the mark of a counting column. -/
theorem modifier?_definition (c : Column) (type : ColumnType) (k : Modifier)
    (hk : k ≠ .autoIncrement) : (type.definition c).modifier? k = none := by
  cases type with
  | integer size =>
    simp [ColumnType.definition, IntegerSize.definition, hk]
  | decimal method => rfl
  | string method =>
    change (stringDefinition method c).modifier? k = none
    unfold stringDefinition
    split
    · rfl
    · split <;> rfl
  | time method => rfl
  | enumerated method => rfl
  | residual method => rfl

def Index.chainArgs (i : Index) (k : IndexCategory) : List Literal :=
  if k = .primary ∨ i.name = "" then [] else [.string i.name]

theorem plain_chainArgs (i : Index) (k : IndexCategory) : ∀ l ∈ i.chainArgs k, l.Plain := by
  intro l hl
  unfold Index.chainArgs at hl
  split at hl
  · cases hl
  · rw [List.mem_singleton.mp hl]
    exact .string i.name

theorem category_eq_ok_iff {i : Index} {k : IndexCategory} :
    i.category = .ok k ↔ i.category? = some k := by
  unfold Index.category
  cases i.category? with
  | none => simp
  | some k' => simp

theorem category_eq_error {i : Index} {e : LoweringError} (h : i.category = .error e) :
    e = .invalidIndexType i.indexType i.name := by
  unfold Index.category at h
  split at h
  · cases h
  · exact (Except.error.inj h).symm

/-- An index that is chained to a column leaves the declaration alone, if it is primary and the
column is a key already, or else sets the call of its category. -/
theorem addIndex_eq_ok {d d' : ColumnDefinition} {i : Index} (h : d.addIndex i = .ok d') :
    ∃ k, i.category? = some k ∧
      (k = .primary ∧ d.declaresKey = true ∧ d' = d ∨
        ¬(k = .primary ∧ d.declaresKey = true) ∧ d' = d.set (.ofIndex k) (i.chainArgs k)) := by
  obtain ⟨k, hk, h⟩ := bind_eq_ok_iff.mp h
  refine ⟨k, category_eq_ok_iff.mp hk, ?_⟩
  split at h
  case isTrue hkey =>
    cases h
    exact Or.inl ⟨hkey.1, hkey.2, rfl⟩
  case isFalse hkey =>
    cases h
    exact Or.inr ⟨hkey, rfl⟩

theorem addIndex_eq_error {d : ColumnDefinition} {i : Index} {e : LoweringError}
    (h : d.addIndex i = .error e) : e = .invalidIndexType i.indexType i.name := by
  obtain h | ⟨k, _, h⟩ := bind_eq_error_iff.mp h
  · exact category_eq_error h
  · split at h <;> cases h

theorem ofIndex_ne_defaultValue (k : IndexCategory) : Modifier.ofIndex k ≠ .defaultValue := by
  cases k <;> decide

/-- The indices of a column leave its call as it is, and set no chained calls but their own. -/
theorem unchanged_of_addIndices {is : List Index} {d d' : ColumnDefinition}
    (h : is.foldlM ColumnDefinition.addIndex d = .ok d') :
    d'.method = d.method ∧ d'.args = d.args ∧
      ∀ k : Modifier, (∀ category, k ≠ .ofIndex category) → d'.modifier? k = d.modifier? k := by
  apply foldlM_invariant (fun d' => d'.method = d.method ∧ d'.args = d.args ∧
    ∀ k : Modifier, (∀ category, k ≠ .ofIndex category) → d'.modifier? k = d.modifier? k) h
  · exact ⟨rfl, rfl, fun _ _ => rfl⟩
  · rintro d₁ i d₂ ⟨hmethod, hargs, hmodifier⟩ h₁
    obtain ⟨category, _, ⟨_, _, rfl⟩ | ⟨_, rfl⟩⟩ := addIndex_eq_ok h₁
    · exact ⟨hmethod, hargs, hmodifier⟩
    · refine ⟨hmethod, hargs, ?_⟩
      intro k hk
      rw [ColumnDefinition.modifier?_set, if_neg (hk category)]
      exact hmodifier k hk

namespace Table

def plainDefinition (t : Table) (c : Column) (base : ColumnDefinition) : ColumnDefinition :=
  base
    |>.setSome .startingAt ((if c.autoIncrement then t.startValue? else none).map fun n => [.int n])
    |>.setSome .nullable (if c.isNullable then some [] else none)
    |>.setSome .defaultValue (c.defaultText?.map fun e => [.raw e])

def completeDefinition (t : Table) (c : Column) (indexed : ColumnDefinition) : ColumnDefinition :=
  let computed := c.generated && c.expression != ""
  let stored := equalsIgnoringCase c.generatedStorage "STORED"
  indexed
    |>.setSome .storedAs (textArgs (computed && stored) c.expression)
    |>.setSome .virtualAs (textArgs (computed && !stored) c.expression)
    |>.setSome .charset (textArgs
        (c.characterSetName != "" && c.characterSetName != t.defaultCharacterSetName)
        c.characterSetName)
    |>.setSome .collation (textArgs
        (c.collationName != "" && c.collationName != t.defaultCollationName) c.collationName)
    |>.setSome .comment (textArgs (c.comment != "") c.comment)

/-- A column is lowered by its type, then by its indices in order, then by the rest. -/
theorem columnDefinition_eq_ok {t : Table} {c : Column} {d : ColumnDefinition}
    (h : t.columnDefinition c = .ok d) :
    ∃ type indexed, ColumnType.ofName? c.typeName = some type ∧
      (t.columnIndices c).foldlM ColumnDefinition.addIndex
        (t.plainDefinition c (type.definition c)) = .ok indexed ∧
      d = t.completeDefinition c indexed := by
  obtain ⟨base, hbase, hrest⟩ := bind_eq_ok_iff.mp h
  obtain ⟨indexed, hindexed, hdone⟩ := bind_eq_ok_iff.mp hrest
  cases hdone
  unfold Column.baseDefinition at hbase
  split at hbase
  case h_1 type htype =>
    cases hbase
    exact ⟨type, indexed, htype, hindexed, rfl⟩
  case h_2 => cases hbase

/-- The call of a column comes from its type, and so do the chained calls that no index sets,
together with the other attributes of the column. -/
theorem columnDefinition_eq_ok_but_indices {t : Table} {c : Column} {d : ColumnDefinition}
    (h : t.columnDefinition c = .ok d) :
    ∃ type, ColumnType.ofName? c.typeName = some type ∧ d.method = (type.definition c).method ∧
      d.args = (type.definition c).args ∧
      ∀ k : Modifier, (∀ category, k ≠ .ofIndex category) →
        d.modifier? k =
          (t.completeDefinition c (t.plainDefinition c (type.definition c))).modifier? k := by
  obtain ⟨type, indexed, htype, hindexed, rfl⟩ := columnDefinition_eq_ok h
  obtain ⟨hmethod, hargs, hmodifier⟩ := unchanged_of_addIndices hindexed
  refine ⟨type, htype, ?_, ?_, ?_⟩
  · simpa [completeDefinition, plainDefinition] using hmethod
  · simpa [completeDefinition, plainDefinition] using hargs
  · intro k hk
    simp only [completeDefinition, ColumnDefinition.modifier?_setSome, hmodifier k hk]

/-- A column fails for its type or for the category of one of its indices. -/
theorem columnDefinition_eq_error {t : Table} {c : Column} {e : LoweringError}
    (h : t.columnDefinition c = .error e) :
    e = .unsupportedType c.typeName c.name ∨
      ∃ i ∈ t.columnIndices c, e = .invalidIndexType i.indexType i.name := by
  obtain h | ⟨base, _, h⟩ := bind_eq_error_iff.mp h
  · unfold Column.baseDefinition at h
    split at h
    · cases h
    · exact Or.inl (Except.error.inj h).symm
  · obtain h | ⟨indexed, _, h⟩ := bind_eq_error_iff.mp h
    · obtain ⟨i, hi, d, hd⟩ := exists_of_foldlM_eq_error h
      exact Or.inr ⟨i, hi, addIndex_eq_error hd⟩
    · cases h

/-- Every column is lowered to a declaration of the form. -/
theorem wellFormed_columnDefinition {t : Table} {c : Column} {d : ColumnDefinition}
    (h : t.columnDefinition c = .ok d) : d.WellFormed := by
  obtain ⟨type, indexed, htype, hindexed, rfl⟩ := columnDefinition_eq_ok h
  have hbase : (type.definition c).WellFormed := wellFormed_definition c htype
  -- The form is kept by the calls before the indices, by each index, and by the calls after them.
  have hplain : (t.plainDefinition c (type.definition c)).WellFormed := by
    apply ColumnDefinition.WellFormed.setDefault
    apply ColumnDefinition.WellFormed.setSome _ (by decide)
    · intro ls hls l hl
      split at hls <;> cases hls
      cases hl
    · apply hbase.setSome (by decide)
      intro ls hls l hl
      obtain ⟨n, _, rfl⟩ := Option.map_eq_some_iff.mp hls
      rw [List.mem_singleton.mp hl]
      exact .int n
  have hall : indexed.WellFormed := by
    apply foldlM_invariant ColumnDefinition.WellFormed hindexed hplain
    intro d i d' hd h
    obtain ⟨k, _, ⟨_, _, rfl⟩ | ⟨_, rfl⟩⟩ := addIndex_eq_ok h
    · exact hd
    · exact hd.set (ofIndex_ne_defaultValue k) (plain_chainArgs i k)
  exact ((((hall.setSome (by decide) plain_textArgs).setSome (by decide) plain_textArgs).setSome
    (by decide) plain_textArgs).setSome (by decide) plain_textArgs).setSome (by decide) plain_textArgs

/-- The default value of a column is chained as it stands, if the column has one. -/
theorem modifier?_columnDefinition_default {t : Table} {c : Column} {d : ColumnDefinition}
    (h : t.columnDefinition c = .ok d) :
    d.modifier? .defaultValue = c.defaultText?.map fun e => [.raw e] := by
  obtain ⟨type, _, _, _, hmodifier⟩ := columnDefinition_eq_ok_but_indices h
  rw [hmodifier .defaultValue fun category => (ofIndex_ne_defaultValue category).symm]
  simp [completeDefinition, plainDefinition, modifier?_definition]

/-- The statement of an index has the method of its category and the names of its columns. -/
theorem indexDefinition_eq_ok {t : Table} {i : Index} {d : IndexDefinition}
    (h : t.indexDefinition i = .ok d) :
    ∃ k, i.category? = some k ∧ d.method = k.tableMethod ∧
      d.columns = (i.columns.filterMap fun c => t.column? c.referencedColumn).map (·.name) := by
  obtain ⟨k, hk, h⟩ := bind_eq_ok_iff.mp h
  cases h
  exact ⟨k, category_eq_ok_iff.mp hk, rfl, rfl⟩

/-- The statement of an index fails for its category alone. -/
theorem indexDefinition_eq_error {t : Table} {i : Index} {e : LoweringError}
    (h : t.indexDefinition i = .error e) : e = .invalidIndexType i.indexType i.name := by
  obtain h | ⟨k, _, h⟩ := bind_eq_error_iff.mp h
  · exact category_eq_error h
  · cases h

end Table

end SchemaMigration
