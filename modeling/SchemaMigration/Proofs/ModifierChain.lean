import SchemaMigration.Proofs.KeyDeclarations

namespace SchemaMigration

namespace Column

def IsInteger (c : Column) : Prop :=
  ∃ size, (c.typeName, size) ∈ ColumnType.integers

def SaysUnsigned (c : Column) : Prop :=
  ∃ flag ∈ c.flags, equalsIgnoringCase flag "UNSIGNED" = true

theorem isUnsigned_iff {c : Column} : c.isUnsigned = true ↔ c.SaysUnsigned := by
  simp [isUnsigned, SaysUnsigned]

end Column

def Index.BelongsTo (i : Index) (c : Column) (k : IndexCategory) : Prop :=
  i.indexType = k.token ∧ i.columns.map (·.referencedColumn) = [c.id]

namespace Table

/-- The arguments come from the last index of a category that belongs to a column. -/
def ChainsIndex (t : Table) (c : Column) (k : IndexCategory) (args : List Literal) : Prop :=
  ∃ before i after, t.indices = before ++ i :: after ∧ i.BelongsTo c k ∧
    (∀ j ∈ after, ¬j.BelongsTo c k) ∧
    args = if k = .primary ∨ i.name = "" then [] else [.string i.name]

def Chains (t : Table) (c : Column) : Modifier → List Literal → Prop
  | .autoIncrement, args =>
    c.IsInteger ∧ c.autoIncrement = true ∧ ¬c.SaysUnsigned ∧ args = []
  | .startingAt, args => c.autoIncrement = true ∧ ∃ n, t.startValue? = some n ∧ args = [.int n]
  | .nullable, args => c.isNotNull = false ∧ args = []
  | .defaultValue, args => ∃ e, c.defaultText? = some e ∧ args = [.raw e]
  | .primary, args =>
    ¬(c.IsInteger ∧ c.autoIncrement = true ∧ c.SaysUnsigned) ∧ t.ChainsIndex c .primary args
  | .index, args => t.ChainsIndex c .index args
  | .unique, args => t.ChainsIndex c .unique args
  | .fulltext, args => t.ChainsIndex c .fulltext args
  | .spatialIndex, args => t.ChainsIndex c .spatial args
  | .storedAs, args =>
    c.generated = true ∧ c.expression ≠ "" ∧
      equalsIgnoringCase c.generatedStorage "STORED" = true ∧ args = [.string c.expression]
  | .virtualAs, args =>
    c.generated = true ∧ c.expression ≠ "" ∧
      equalsIgnoringCase c.generatedStorage "STORED" = false ∧ args = [.string c.expression]
  | .charset, args =>
    c.characterSetName ≠ "" ∧ c.characterSetName ≠ t.defaultCharacterSetName ∧
      args = [.string c.characterSetName]
  | .collation, args =>
    c.collationName ≠ "" ∧ c.collationName ≠ t.defaultCollationName ∧
      args = [.string c.collationName]
  | .comment, args => c.comment ≠ "" ∧ args = [.string c.comment]
  | .change, _ => False

end Table

/-- The chained calls stand in the order of the kinds, with one call of a kind at most. -/
theorem ColumnDefinition.modifiers_sublist (d : ColumnDefinition) :
    (d.modifiers.map Prod.fst).Sublist Modifier.all := by
  have hkinds : (fun k => ((d.modifier? k).map (k, ·)).map Prod.fst) =
      Option.guard fun k => (d.modifier? k).isSome := by
    funext k
    cases hk : d.modifier? k <;> simp [Option.guard, hk]
  rw [modifiers, List.map_filterMap, hkinds, List.filterMap_eq_filter]
  exact List.filter_sublist

theorem textArgs_eq_some_iff {wanted : Bool} {text : String} {args : List Literal} :
    textArgs wanted text = some args ↔ wanted = true ∧ args = [.string text] := by
  cases wanted <;> simp [textArgs, eq_comm]

namespace ColumnType

/-- A type is supported if one of the tables has it, and the table gives its family. -/
theorem mem_named_iff {name : String} {type : ColumnType} :
    (name, type) ∈ named ↔
      match type with
      | integer size => (name, size) ∈ integers
      | decimal method => (name, method) ∈ decimals
      | string method => (name, method) ∈ strings
      | time method => (name, method) ∈ times
      | enumerated method => (name, method) ∈ enumerations
      | residual method => (name, method) ∈ residuals := by
  cases type <;> simp [named]

/-- Of all columns the signed integers that count say so in a call of its own. -/
theorem autoIncrement_definition_iff {c : Column} {type : ColumnType} {args : List Literal} :
    (type.definition c).modifier? .autoIncrement = some args ↔
      (∃ size, type = integer size) ∧ c.autoIncrement = true ∧ c.isUnsigned = false ∧
        args = [] := by
  cases type with
  | integer size =>
    simp only [definition, IntegerSize.definition, ColumnDefinition.modifier?_setSome]
    cases c.autoIncrement <;> cases c.isUnsigned <;> simp [eq_comm]
  | decimal method => simp [definition, decimalDefinition]
  | string method =>
    simp only [definition, stringDefinition]
    split
    · simp
    · split <;> simp
  | time method => simp [definition, timeDefinition]
  | enumerated method => simp [definition]
  | residual method => simp [definition]

end ColumnType

theorem Column.isInteger_iff {c : Column} :
    c.IsInteger ↔ ∃ size, ColumnType.ofName? c.typeName = some (.integer size) := by
  simp only [IsInteger, ColumnType.ofName?_eq_some_iff, ColumnType.mem_named_iff]

/-- A column counts as a key if it is an unsigned integer that counts up. -/
theorem Column.countsAsKey_iff {c : Column} :
    c.countsAsKey = true ↔ c.IsInteger ∧ c.autoIncrement = true ∧ c.SaysUnsigned := by
  rw [isInteger_iff, ← isUnsigned_iff, countsAsKey]
  split
  · simp [*, and_comm]
  · simp_all

theorem Index.belongsTo_iff {i : Index} {c : Column} {k : IndexCategory} :
    i.BelongsTo c k ↔ i.category? = some k ∧ i.onlyColumn? = some c.id := by
  rw [BelongsTo, category?, IndexCategory.ofToken?_eq_some_iff, onlyColumn?_eq_some_iff]

/-- The last element with a property has it, and none behind it does. -/
theorem getLast?_filter_eq_some_iff {α : Type} {p : α → Bool} {xs : List α} {x : α} :
    (xs.filter p).getLast? = some x ↔
      ∃ before after, xs = before ++ x :: after ∧ p x = true ∧ ∀ y ∈ after, p y = false := by
  -- The last element of the list is the first one of the reversed list.
  rw [List.getLast?_filter, List.find?_eq_some_iff_append]
  constructor
  · rintro ⟨hx, after, before, hsplit, hafter⟩
    refine ⟨before.reverse, after.reverse, ?_, hx, by simpa using hafter⟩
    rw [← List.reverse_reverse xs, hsplit]
    simp
  · rintro ⟨before, after, rfl, hx, hafter⟩
    exact ⟨hx, after.reverse, before.reverse, by simp, by simpa using hafter⟩

namespace Table

/-- The last index of a category is the one that is chained. -/
theorem chainsIndex_iff {t : Table} {c : Column} {k : IndexCategory} {args : List Literal} :
    t.ChainsIndex c k args ↔
      (lastOfCategory k (t.columnIndices c)).map (·.chainArgs k) = some args := by
  rw [lastOfCategory, columnIndices, List.filter_filter, Option.map_eq_some_iff]
  simp only [getLast?_filter_eq_some_iff, ChainsIndex, Index.belongsTo_iff]
  constructor
  · rintro ⟨before, i, after, hsplit, hi, hafter, rfl⟩
    refine ⟨i, ⟨before, after, hsplit, by simpa using hi, ?_⟩, rfl⟩
    intro j hj
    simpa using hafter j hj
  · rintro ⟨i, ⟨before, after, hsplit, hi, hafter⟩, rfl⟩
    refine ⟨before, i, after, hsplit, by simpa using hi, ?_, rfl⟩
    intro j hj
    simpa using hafter j hj

/-- The calls of the categories, with their arguments, are those of the indices of the column. -/
theorem index_mem_modifiers_iff {t : Table} {c : Column} {d : ColumnDefinition}
    (h : t.columnDefinition c = .ok d) (k : IndexCategory) (args : List Literal) :
    (Modifier.ofIndex k, args) ∈ d.modifiers ↔ t.Chains c (.ofIndex k) args := by
  rw [ColumnDefinition.mem_modifiers, modifier?_columnDefinition_index h k,
    declaresKey_columnDefinition h]
  cases k with
  | primary =>
    -- A column that counts as a key is declared one by its method, and chains no such call.
    rw [Modifier.ofIndex, Chains, ← Column.countsAsKey_iff, chainsIndex_iff]
    cases c.countsAsKey <;> simp
  | index => simp [Modifier.ofIndex, Chains, chainsIndex_iff]
  | unique => simp [Modifier.ofIndex, Chains, chainsIndex_iff]
  | spatial => simp [Modifier.ofIndex, Chains, chainsIndex_iff]
  | fulltext => simp [Modifier.ofIndex, Chains, chainsIndex_iff]

/-- The calls of the other kinds, with their arguments, are those that the attributes ask for. -/
theorem mem_modifiers_iff_of_ne {t : Table} {c : Column} {d : ColumnDefinition}
    (h : t.columnDefinition c = .ok d) {k : Modifier} (hk : ∀ category, k ≠ .ofIndex category)
    (args : List Literal) : (k, args) ∈ d.modifiers ↔ t.Chains c k args := by
  obtain ⟨type, htype, _, _, hmodifier⟩ := columnDefinition_eq_ok_but_indices h
  have hinteger : (∃ size, type = .integer size) ↔ c.IsInteger := by
    rw [Column.isInteger_iff, htype]
    simp
  rw [ColumnDefinition.mem_modifiers, hmodifier k hk, completeDefinition, plainDefinition]
  -- Of the kinds that are left only the first one is set by the type of the column.
  cases k with
  | primary => exact absurd rfl (hk .primary)
  | index => exact absurd rfl (hk .index)
  | unique => exact absurd rfl (hk .unique)
  | fulltext => exact absurd rfl (hk .fulltext)
  | spatialIndex => exact absurd rfl (hk .spatial)
  | autoIncrement =>
    simp [Chains, ColumnType.autoIncrement_definition_iff, hinteger, ← Column.isUnsigned_iff]
  | startingAt =>
    cases hcounts : c.autoIncrement <;>
      simp [Chains, modifier?_definition, hcounts, eq_comm (b := args)]
  | nullable =>
    cases hnull : c.isNotNull <;>
      simp [Chains, modifier?_definition, Column.isNullable, hnull, eq_comm (b := args)]
  | defaultValue => simp [Chains, modifier?_definition, eq_comm (b := args)]
  | storedAs => simp [Chains, modifier?_definition, textArgs_eq_some_iff, and_assoc]
  | virtualAs => simp [Chains, modifier?_definition, textArgs_eq_some_iff, and_assoc]
  | charset => simp [Chains, modifier?_definition, textArgs_eq_some_iff, and_assoc]
  | collation => simp [Chains, modifier?_definition, textArgs_eq_some_iff, and_assoc]
  | comment => simp [Chains, modifier?_definition, textArgs_eq_some_iff]
  | change => simp [Chains, modifier?_definition]

/-- The calls that are chained to a column stand in the order of the kinds, which lists each kind
once. They are the calls that the column and its table ask for: a stored and a virtual expression
exclude each other, and no mark of a changed column is among them. -/
theorem modifiers_of_columnDefinition (t : Table) (c : Column) (d : ColumnDefinition)
    (h : t.columnDefinition c = .ok d) :
    (d.modifiers.map Prod.fst).Sublist Modifier.all ∧
      (∀ k args, (k, args) ∈ d.modifiers ↔ t.Chains c k args) ∧
      (∀ args args', ¬((.storedAs, args) ∈ d.modifiers ∧ (.virtualAs, args') ∈ d.modifiers)) ∧
      ∀ args, (.change, args) ∉ d.modifiers := by
  -- Only the kinds of the categories depend on the indices of the table.
  have hiff (k : Modifier) (args : List Literal) :
      (k, args) ∈ d.modifiers ↔ t.Chains c k args := by
    by_cases hk : ∀ category, k ≠ .ofIndex category
    · exact mem_modifiers_iff_of_ne h hk args
    · obtain ⟨category, hcategory⟩ := not_forall.mp hk
      rw [not_not.mp hcategory]
      exact index_mem_modifiers_iff h category args
  refine ⟨d.modifiers_sublist, hiff, ?_, ?_⟩
  · rintro args args' ⟨hstored, hvirtual⟩
    obtain ⟨_, _, hstored, _⟩ := (hiff _ _).mp hstored
    obtain ⟨_, _, hvirtual, _⟩ := (hiff _ _).mp hvirtual
    rw [hstored] at hvirtual
    cases hvirtual
  · intro args hchange
    exact (hiff _ _).mp hchange

def chainedColumn : Column where
  -- Two of its indices are of one category, and all other attributes chain a call.
  id := "1"
  name := "id"
  simpleType := "int"
  autoIncrement := true
  defaultValue := "7"
  generated := true
  generatedStorage := "Stored"
  expression := "a"
  characterSetName := "utf8"
  collationName := "bin"
  comment := "c"

def chainedTable : Table where
  columns := [chainedColumn]
  autoIncrementOption := " +5 "
  defaultCollationName := "bin"
  indices :=
    [{ name := "p", indexType := "PRIMARY", columns := [{ referencedColumn := "1" }] },
      { name := "f", indexType := "FULLTEXT", columns := [{ referencedColumn := "1" }] },
      { name := "a", indexType := "INDEX", columns := [{ referencedColumn := "1" }] },
      { name := "u", indexType := "UNIQUE", columns := [{ referencedColumn := "1" }] },
      { name := "b", indexType := "INDEX", columns := [{ referencedColumn := "1" }] },
      { name := "o", indexType := "INDEX", columns := [{ referencedColumn := "2" }] },
      { name := "", indexType := "SPATIAL", columns := [{ referencedColumn := "1" }] }]

/-- Of the two indices of one category the later one is chained. -/
theorem modifiers_of_chainedColumn :
    ∃ d, chainedTable.columnDefinition chainedColumn = .ok d ∧
      d.modifiers =
        [(.autoIncrement, []), (.startingAt, [.int 5]), (.nullable, []),
          (.defaultValue, [.raw "7"]), (.primary, []), (.index, [.string "b"]),
          (.unique, [.string "u"]), (.fulltext, [.string "f"]), (.spatialIndex, []),
          (.storedAs, [.string "a"]), (.charset, [.string "utf8"]), (.comment, [.string "c"])] ∧
      (d.modifiers.map Prod.fst).Sublist Modifier.all ∧
      (∀ k args, (k, args) ∈ d.modifiers ↔ chainedTable.Chains chainedColumn k args) ∧
      (∀ args args', ¬((.storedAs, args) ∈ d.modifiers ∧ (.virtualAs, args') ∈ d.modifiers)) ∧
      ∀ args, (.change, args) ∉ d.modifiers :=
  ⟨_, rfl, rfl, modifiers_of_columnDefinition chainedTable chainedColumn _ rfl⟩

end Table
end SchemaMigration
