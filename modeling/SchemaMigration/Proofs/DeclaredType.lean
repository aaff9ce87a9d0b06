import SchemaMigration.Proofs.LoweringFaults
import SchemaMigration.Proofs.ModifierChain

namespace SchemaMigration

inductive DeclaredType where
  | integer (size : IntegerSize) (unsigned counting : Bool)
  | decimal (method : String) (unsigned : Bool) (total scale : Int64)
  | string (method : String) (length : Int64)
  | time (method : String) (digits : Int64)
  | enumerated (method : String) (values : List String)
  | residual (method : String)
  deriving DecidableEq, Repr

def Literal.value? : Literal → Option String
  | .string s => some s
  | _ => none

/-- What a method of the schema builder stands for. A key is an unsigned integer that counts up. -/
inductive BuilderMethod where
  | key (size : IntegerSize)
  | integer (size : IntegerSize) (unsigned : Bool)
  | decimal (method : String) (unsigned : Bool)
  | uuid
  | string (method : String)
  | time (method : String)
  | enumerated (method : String)
  | residual (method : String)
  deriving DecidableEq, Repr

namespace BuilderMethod

def named : List (String × BuilderMethod) :=
  [("id", key .big), ("tinyIncrements", key .tiny), ("smallIncrements", key .small),
    ("mediumIncrements", key .medium), ("increments", key .regular), ("bigIncrements", key .big),
    ("tinyInteger", integer .tiny false), ("smallInteger", integer .small false),
    ("mediumInteger", integer .medium false), ("integer", integer .regular false),
    ("bigInteger", integer .big false), ("unsignedTinyInteger", integer .tiny true),
    ("unsignedSmallInteger", integer .small true), ("unsignedMediumInteger", integer .medium true),
    ("unsignedInteger", integer .regular true), ("unsignedBigInteger", integer .big true),
    ("foreignId", integer .big true), ("float", decimal "float" false),
    ("double", decimal "double" false), ("decimal", decimal "decimal" false),
    ("unsignedFloat", decimal "float" true), ("unsignedDouble", decimal "double" true),
    ("unsignedDecimal", decimal "decimal" true), ("uuid", uuid), ("char", string "char"),
    ("string", string "string"), ("date", time "date"), ("time", time "time"),
    ("datetime", time "datetime"), ("timestamp", time "timestamp"), ("enum", enumerated "enum"),
    ("set", enumerated "set")] ++
  ["tinyText", "text", "mediumText", "longText", "blob", "json", "boolean", "year", "geometry",
    "point", "lineString", "polygon", "geometryCollection", "multiPoint", "multiLineString",
    "multiPolygon"].map fun method => (method, residual method)

/-- The declared type, from the arguments behind the name of the column and from whether the column
is said to count up. The builder assumes a total of 8 and a scale of 2, a length of 255, and no
fractional digits; a UUID is a text of 36 characters. -/
def type? (counting : Bool) : BuilderMethod → List Literal → Option DeclaredType
  | key size, [] => some (.integer size true true)
  | integer size unsigned, [] => some (.integer size unsigned counting)
  | decimal method unsigned, [] => some (.decimal method unsigned 8 2)
  | decimal method unsigned, [.int total] => some (.decimal method unsigned total 2)
  | decimal method unsigned, [.int total, .int scale] =>
    some (.decimal method unsigned total scale)
  | uuid, [] => some (.string "char" 36)
  | string method, [] => some (.string method 255)
  | string method, [.int length] => some (.string method length)
  | time method, [] => some (.time method 0)
  | time method, [.int digits] => some (.time method digits)
  | enumerated method, [.list items] => (items.mapM Literal.value?).map (.enumerated method)
  | residual method, [] => some (.residual method)
  | _, _ => none

end BuilderMethod

namespace ColumnDefinition

def columnName? (d : ColumnDefinition) : Option (String × List Literal) :=
  -- Of all methods `id` alone can be called without a name, which then is `id`.
  match d.args with
  | .string name :: rest => some (name, rest)
  | [] => if d.method = "id" then some ("id", []) else none
  | _ => none

def declared? (d : ColumnDefinition) : Option (String × DeclaredType) := do
  let (name, rest) ← d.columnName?
  let method ← BuilderMethod.named.lookup d.method
  let type ← method.type? (d.modifier? .autoIncrement).isSome rest
  return (name, type)

end ColumnDefinition

def ColumnType.declared (c : Column) : ColumnType → DeclaredType
  | integer size => .integer size c.isUnsigned c.autoIncrement
  | decimal method =>
    .decimal method c.isUnsigned
      (if c.precision < 0 then if c.typeName = "decimal" then 10 else 8 else c.precision)
      (if c.scale < 0 then if c.typeName = "decimal" then 0 else 2 else c.scale)
  | string method => .string method (if c.length < 0 then 255 else c.length)
  | time method =>
    .time method
      (if 0 < c.precision then c.precision else if 0 < c.length then c.length else 0)
  | enumerated method => .enumerated method c.values
  | residual method => .residual method

/-- The name of an integer type is that of its size in front of `int`. -/
theorem ColumnType.mem_named_integer_iff {name : String} {size : IntegerSize} :
    (name, integer size) ∈ named ↔ name = decapitalize size.token ++ "int" := by
  let sizes : List IntegerSize := [.tiny, .small, .medium, .regular, .big]
  have htable : integers = sizes.map fun size => (decapitalize size.token ++ "int", size) := by
    decide +kernel
  have hsize : size ∈ sizes := by cases size <;> decide
  rw [mem_named_iff, htable]
  constructor
  · intro h
    obtain ⟨_, _, heq⟩ := List.mem_map.mp h
    cases heq
    rfl
  · rintro rfl
    exact List.mem_map.mpr ⟨size, hsize, rfl⟩

namespace ColumnDefinition

/-- A call with a name is read by its method and the arguments behind the name. -/
theorem declared?_eq {d : ColumnDefinition} {name : String} {rest : List Literal}
    {method : BuilderMethod} {type : DeclaredType} (hargs : d.args = .string name :: rest)
    (hmethod : BuilderMethod.named.lookup d.method = some method)
    (htype : method.type? (d.modifier? .autoIncrement).isSome rest = some type) :
    d.declared? = some (name, type) := by
  simp [declared?, columnName?, hargs, hmethod, htype]

/-- The reading looks at the method, its arguments and the mark of a counting column. -/
theorem declared?_congr {d d' : ColumnDefinition} (hmethod : d.method = d'.method)
    (hargs : d.args = d'.args)
    (hcounting : d.modifier? .autoIncrement = d'.modifier? .autoIncrement) :
    d.declared? = d'.declared? := by
  rw [declared?, declared?, columnName?, columnName?, hmethod, hargs, hcounting]

end ColumnDefinition

/-- A list of quoted texts is read back as these texts. -/
theorem Literal.mapM_value? (values : List String) :
    (values.map Literal.string).mapM Literal.value? = some values := by
  induction values with
  | nil => rfl
  | cons value values ih =>
    rw [List.map_cons, List.mapM_cons, ih]
    rfl

namespace BuilderMethod

/-- The schema builder has the methods that the sizes of integers name. -/
theorem lookup_integer (size : IntegerSize) :
    named.lookup size.counting = some (key size) ∧
      named.lookup size.unsigned = some (integer size true) ∧
      named.lookup size.signed = some (integer size false) := by
  cases size <;> decide +kernel

theorem lookup_id : named.lookup "id" = some (key .big) := by
  decide +kernel

theorem lookup_foreignId : named.lookup "foreignId" = some (integer .big true) := by
  decide +kernel

theorem lookup_uuid : named.lookup "uuid" = some uuid := by
  decide +kernel

/-- The builder has each decimal method twice, with and without a sign. -/
theorem lookup_decimal {name method : String} (h : (name, method) ∈ ColumnType.decimals) :
    named.lookup method = some (decimal method false) ∧
      named.lookup ("unsigned" ++ capitalize method) = some (decimal method true) ∧
      (method = "decimal" ↔ name = "decimal") := by
  have hall : ∀ p ∈ ColumnType.decimals, named.lookup p.2 = some (decimal p.2 false) ∧
      named.lookup ("unsigned" ++ capitalize p.2) = some (decimal p.2 true) ∧
      (p.2 = "decimal" ↔ p.1 = "decimal") := by
    decide +kernel
  exact hall (name, method) h

theorem lookup_string {name method : String} (h : (name, method) ∈ ColumnType.strings) :
    named.lookup method = some (string method) ∧ (name = "char" → method = "char") := by
  have hall : ∀ p ∈ ColumnType.strings,
      named.lookup p.2 = some (string p.2) ∧ (p.1 = "char" → p.2 = "char") := by
    decide +kernel
  exact hall (name, method) h

theorem lookup_time {name method : String} (h : (name, method) ∈ ColumnType.times) :
    named.lookup method = some (time method) := by
  have hall : ∀ p ∈ ColumnType.times, named.lookup p.2 = some (time p.2) := by
    decide +kernel
  exact hall (name, method) h

theorem lookup_enumerated {name method : String} (h : (name, method) ∈ ColumnType.enumerations) :
    named.lookup method = some (enumerated method) := by
  have hall : ∀ p ∈ ColumnType.enumerations, named.lookup p.2 = some (enumerated p.2) := by
    decide +kernel
  exact hall (name, method) h

theorem lookup_residual {name method : String} (h : (name, method) ∈ ColumnType.residuals) :
    named.lookup method = some (residual method) := by
  have hall : ∀ p ∈ ColumnType.residuals, named.lookup p.2 = some (residual p.2) := by
    decide +kernel
  exact hall (name, method) h

end BuilderMethod

open ColumnDefinition BuilderMethod

/-- An integer is read by its method, with the mark of a signed column that counts. -/
theorem declared?_integer (size : IntegerSize) (c : Column) :
    (size.definition c).declared? =
      some (c.name, .integer size c.isUnsigned c.autoIncrement) := by
  obtain ⟨hkey, hunsigned, hsigned⟩ := lookup_integer size
  unfold IntegerSize.definition
  -- Only a signed column that counts says so by a chained call. An unsigned one says it by its
  -- method.
  cases hu : c.isUnsigned <;> cases hc : c.autoIncrement
  · exact declared?_eq rfl hsigned rfl
  · exact declared?_eq rfl hsigned rfl
  · by_cases hforeign : size = .big ∧ "_id".toList.isSuffixOf c.name.toList
    · simp only [IntegerSize.call, if_pos hforeign]
      rw [hforeign.1]
      exact declared?_eq rfl lookup_foreignId rfl
    · simp only [IntegerSize.call, if_neg hforeign]
      exact declared?_eq rfl hunsigned rfl
  · by_cases hbig : size = .big
    · subst hbig
      by_cases hname : c.name = "id"
      · rw [hname]
        rfl
      · simp only [IntegerSize.call, if_true, if_neg hname]
        exact declared?_eq rfl lookup_id rfl
    · simp only [IntegerSize.call, if_neg hbig]
      exact declared?_eq rfl hkey rfl

/-- The sizes of a decimal are read from the arguments that are left of them. -/
theorem type?_decimalSize (counting : Bool) (method : String) (unsigned : Bool)
    (total scale : Int64) :
    (decimal method unsigned).type? counting
        (if scale = builderDecimal.2 then if total = builderDecimal.1 then [] else [.int total]
          else [.int total, .int scale]) =
      some (.decimal method unsigned total scale) := by
  split
  case isTrue hscale =>
    rw [hscale]
    split
    case isTrue htotal =>
      rw [htotal]
      rfl
    case isFalse => rfl
  case isFalse => rfl

/-- A decimal is read with the total and the scale that its call leaves out. -/
theorem declared?_decimal {c : Column} {method : String}
    (h : (c.typeName, method) ∈ ColumnType.decimals) :
    (decimalDefinition method c).declared? =
      some (c.name, (ColumnType.decimal method).declared c) := by
  obtain ⟨hsigned, hunsigned, htype⟩ := lookup_decimal h
  have hmethod : named.lookup (decimalDefinition method c).method =
      some (.decimal method c.isUnsigned) := by
    unfold decimalDefinition
    cases c.isUnsigned
    · exact hsigned
    · exact hunsigned
  -- The database gives the sizes of an unset `decimal`, and the builder those of the other types.
  have hassumed : (if method = "decimal" then databaseDecimal else builderDecimal) =
      (if c.typeName = "decimal" then 10 else 8, if c.typeName = "decimal" then 0 else 2) := by
    simp only [htype]
    split <;> rfl
  refine declared?_eq rfl hmethod ((type?_decimalSize _ _ _ _ _).trans ?_)
  rw [ColumnType.declared, hassumed]

/-- A text is read with the length that its call leaves out. -/
theorem declared?_string {c : Column} {method : String}
    (h : (c.typeName, method) ∈ ColumnType.strings) :
    (stringDefinition method c).declared? =
      some (c.name, (ColumnType.string method).declared c) := by
  obtain ⟨hmethod, hchar⟩ := lookup_string h
  unfold stringDefinition ColumnType.declared
  split
  -- Of the texts that have 36 characters, only those of the fixed length are UUIDs.
  case isTrue huuid =>
    have hlength : c.length = 36 := huuid.2
    rw [hchar huuid.1, hlength]
    exact declared?_eq rfl lookup_uuid rfl
  case isFalse =>
    split
    case isTrue hassumed =>
      have hlength : (if c.length < 0 then 255 else c.length) = 255 := by
        rcases hassumed with hunset | hequal
        · rw [if_pos hunset]
        · rw [hequal]
          rfl
      rw [hlength]
      exact declared?_eq rfl hmethod rfl
    case isFalse hgiven =>
      rw [if_neg fun hunset => hgiven (Or.inl hunset)]
      exact declared?_eq rfl hmethod rfl

/-- A type of date or time is read with no fractional digits where its call leaves them out. -/
theorem declared?_time {c : Column} {method : String}
    (h : (c.typeName, method) ∈ ColumnType.times) :
    (timeDefinition method c).declared? = some (c.name, (ColumnType.time method).declared c) := by
  refine declared?_eq rfl (lookup_time h) ?_
  change _ = some (DeclaredType.time method (fractionalDigits c))
  split
  case isTrue hnone =>
    rw [hnone]
    rfl
  case isFalse => rfl

/-- The list of values is read back as it is. -/
theorem declared?_enumerated {c : Column} {method : String}
    (h : (c.typeName, method) ∈ ColumnType.enumerations) :
    ((ColumnType.enumerated method).definition c).declared? =
      some (c.name, (ColumnType.enumerated method).declared c) := by
  refine declared?_eq rfl (lookup_enumerated h) ?_
  rw [type?, Literal.mapM_value?]
  rfl

/-- The call that stands for the type of a column gives back the name of the column and the type. -/
theorem declared?_definition {c : Column} {type : ColumnType}
    (h : (c.typeName, type) ∈ ColumnType.named) :
    (type.definition c).declared? = some (c.name, type.declared c) := by
  rw [ColumnType.mem_named_iff] at h
  cases type with
  | integer size => exact declared?_integer size c
  | decimal method => exact declared?_decimal h
  | string method => exact declared?_string h
  | time method => exact declared?_time h
  | enumerated method => exact declared?_enumerated h
  | residual method => exact declared?_eq rfl (lookup_residual h) rfl

/-- A column of a supported type is lowered, unless one of its indices has no category. What it is
lowered to gives back the name of the column and, with the sizes that the schema builder assumes,
all that its type says. -/
theorem declared_of_columnDefinition (t : Table) (c : Column) (type : ColumnType)
    (h : (c.typeName, type) ∈ ColumnType.named) :
    (∃ d, t.columnDefinition c = .ok d ∧ d.declared? = some (c.name, type.declared c)) ∨
      ∃ i ∈ t.columnIndices c, i.category? = none ∧
        t.columnDefinition c = .error (.invalidIndexType i.indexType i.name) := by
  have htype : ColumnType.ofName? c.typeName = some type := ColumnType.ofName?_eq_some_iff.mpr h
  cases hresult : t.columnDefinition c with
  | ok d =>
    obtain ⟨type', htype', hmethod, hargs, hmodifier⟩ :=
      Table.columnDefinition_eq_ok_but_indices hresult
    obtain rfl : type' = type := Option.some.inj (htype'.symm.trans htype)
    have hcounting : d.modifier? .autoIncrement =
        (type'.definition c).modifier? .autoIncrement := by
      rw [hmodifier .autoIncrement (by intro category; cases category <;> decide)]
      simp [Table.completeDefinition, Table.plainDefinition]
    refine Or.inl ⟨d, rfl, ?_⟩
    rw [declared?_congr hmethod hargs hcounting]
    exact declared?_definition h
  | error e =>
    obtain ⟨i, hi, hnone, rfl⟩ := Table.columnDefinition_eq_error_of_named h hresult
    exact Or.inr ⟨i, hi, hnone, rfl⟩

def priceColumn : Column where
  name := "price"
  simpleType := "com.mysql.rdbms.mysql.datatype.decimal"
  flags := ["ZEROFILL", "unsigned"]
  scale := 2

/-- The total that the database assumes is written, and the scale that the builder assumes is
not. -/
theorem declared_of_priceColumn :
    (priceColumn.typeName, .decimal "decimal") ∈ ColumnType.named ∧
      (∃ d, ({} : Table).columnDefinition priceColumn = .ok d ∧ d.method = "unsignedDecimal" ∧
        d.args = [.string "price", .int 10]) ∧
      (ColumnType.decimal "decimal").declared priceColumn = .decimal "decimal" true 10 2 ∧
      ((∃ d, ({} : Table).columnDefinition priceColumn = .ok d ∧
          d.declared? = some ("price", (ColumnType.decimal "decimal").declared priceColumn)) ∨
        ∃ i ∈ ({} : Table).columnIndices priceColumn, i.category? = none ∧
          ({} : Table).columnDefinition priceColumn =
            .error (.invalidIndexType i.indexType i.name)) := by
  have htype : (priceColumn.typeName, .decimal "decimal") ∈ ColumnType.named := by
    decide +kernel
  exact ⟨htype, ⟨_, rfl, rfl, rfl⟩, by decide +kernel,
    declared_of_columnDefinition {} priceColumn _ htype⟩

end SchemaMigration
