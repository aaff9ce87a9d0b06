import SchemaMigration.Blueprint.Definition
import SchemaMigration.Blueprint.ColumnType
import SchemaMigration.Entity.Table

namespace SchemaMigration

inductive LoweringError where
  | unsupportedType (typeName column : String)
  | invalidIndexType (indexType index : String)
  | literal (e : LiteralError)
  deriving DecidableEq, Repr

def LoweringError.message : LoweringError → String
  | unsupportedType typeName column =>
    "unsupported type `" ++ typeName ++ "` on column `" ++ column ++ "`"
  | invalidIndexType indexType index =>
    "invalid index type `" ++ indexType ++ "` on index `" ++ index ++ "`"
  | literal e => e.message

namespace IntegerSize

/-- The call for an integer column. Unsigned big integers have two methods of their own: `id` for
a key that counts up, whose usual name is left out, and `foreignId` for a name in `_id`. -/
def call (size : IntegerSize) (unsigned counting : Bool) (name : String) :
    String × List Literal :=
  match unsigned, counting with
  | true, true =>
    if size = big then ("id", if name = "id" then [] else [.string name])
    else (size.counting, [.string name])
  | true, false =>
    if size = big ∧ "_id".toList.isSuffixOf name.toList then ("foreignId", [.string name])
    else (size.unsigned, [.string name])
  | false, _ => (size.signed, [.string name])

def definition (size : IntegerSize) (c : Column) : ColumnDefinition :=
  -- A signed column that counts up says so by a chained call.
  let (method, args) := size.call c.isUnsigned c.autoIncrement c.name
  let base : ColumnDefinition := { method, args }
  base.setSome .autoIncrement (if c.autoIncrement ∧ ¬c.isUnsigned then some [] else none)

end IntegerSize

def builderDecimal : Int64 × Int64 := (8, 2)

def databaseDecimal : Int64 × Int64 := (10, 0)

def decimalDefinition (method : String) (c : Column) : ColumnDefinition :=
  -- Arguments that the schema builder assumes are left out.
  let assumed := if method = "decimal" then databaseDecimal else builderDecimal
  let total := if c.precision < 0 then assumed.1 else c.precision
  let scale := if c.scale < 0 then assumed.2 else c.scale
  -- A scale can only follow a total.
  let size : List Literal :=
    if scale = builderDecimal.2 then if total = builderDecimal.1 then [] else [.int total]
    else [.int total, .int scale]
  { method := if c.isUnsigned then "unsigned" ++ capitalize method else method
    args := .string c.name :: size }

def builderStringLength : Int64 := 255

def uuidLength : Int64 := 36

def stringDefinition (method : String) (c : Column) : ColumnDefinition :=
  if c.typeName = "char" ∧ c.length = uuidLength then
    { method := "uuid", args := [.string c.name] }
  else if c.length < 0 ∨ c.length = builderStringLength then
    { method, args := [.string c.name] }
  else
    { method, args := [.string c.name, .int c.length] }

def fractionalDigits (c : Column) : Int64 :=
  -- They stand in the precision, or else in the length.
  if 0 < c.precision then c.precision else if 0 < c.length then c.length else 0

def timeDefinition (method : String) (c : Column) : ColumnDefinition :=
  let digits := fractionalDigits c
  { method, args := .string c.name :: if digits = 0 then [] else [.int digits] }

def ColumnType.definition (c : Column) : ColumnType → ColumnDefinition
  | integer size => size.definition c
  | decimal method => decimalDefinition method c
  | string method => stringDefinition method c
  | time method => timeDefinition method c
  | enumerated method =>
    { method, args := [.string c.name, .list (c.values.map .string)] }
  | residual method => { method, args := [.string c.name] }

def Column.baseDefinition (c : Column) : Except LoweringError ColumnDefinition :=
  match ColumnType.ofName? c.typeName with
  | some type => .ok (type.definition c)
  | none => .error (.unsupportedType c.typeName c.name)

def Index.category (i : Index) : Except LoweringError IndexCategory :=
  match i.category? with
  | some k => .ok k
  | none => .error (.invalidIndexType i.indexType i.name)

/-- Chains an index to its only column, with the name of the index, if it has one. A primary
index has no use for a name, and an incrementing key none for a primary index. -/
def ColumnDefinition.addIndex (d : ColumnDefinition) (i : Index) :
    Except LoweringError ColumnDefinition := do
  let k ← i.category
  if k = .primary ∧ d.declaresKey then return d
  return d.set (.ofIndex k) (if k = .primary ∨ i.name = "" then [] else [.string i.name])

def textArgs (wanted : Bool) (text : String) : Option (List Literal) :=
  if wanted then some [.string text] else none

namespace Table

/-- The declaration of a column of a table. The table knows its indices, the first value of its
incrementing column, and the character set and collation that need no mention. -/
def columnDefinition (t : Table) (c : Column) : Except LoweringError ColumnDefinition := do
  let base ← c.baseDefinition
  let start := if c.autoIncrement then t.startValue? else none
  let plain := base
    |>.setSome .startingAt (start.map fun n => [.int n])
    |>.setSome .nullable (if c.isNullable then some [] else none)
    |>.setSome .defaultValue (c.defaultText?.map fun e => [.raw e])
  -- Of several indices of one category on a column the last one is chained.
  let indexed ← (t.columnIndices c).foldlM ColumnDefinition.addIndex plain
  let computed := c.generated && c.expression != ""
  let stored := equalsIgnoringCase c.generatedStorage "STORED"
  return indexed
    |>.setSome .storedAs (textArgs (computed && stored) c.expression)
    |>.setSome .virtualAs (textArgs (computed && !stored) c.expression)
    |>.setSome .charset (textArgs
        (c.characterSetName != "" && c.characterSetName != t.defaultCharacterSetName)
        c.characterSetName)
    |>.setSome .collation (textArgs
        (c.collationName != "" && c.collationName != t.defaultCollationName) c.collationName)
    |>.setSome .comment (textArgs (c.comment != "") c.comment)

def indexDefinition (t : Table) (i : Index) : Except LoweringError IndexDefinition := do
  -- Columns that the table does not have are left out.
  let k ← i.category
  let columns := i.columns.filterMap fun c => t.column? c.referencedColumn
  return { method := k.tableMethod, columns := columns.map (·.name) }

/-- The declarations of all columns of a table and of the indices that no column takes up, or the
error of the first that has none. -/
def definitions (t : Table) :
    Except LoweringError (List ColumnDefinition × List IndexDefinition) := do
  let columns ← t.columns.mapM t.columnDefinition
  let indices ← t.tableIndices.mapM t.indexDefinition
  return (columns, indices)

end Table

end SchemaMigration
