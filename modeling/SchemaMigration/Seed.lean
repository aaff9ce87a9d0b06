import SchemaMigration.Document.DocumentError

namespace SchemaMigration

/-- A cell of a row. A real number is given by the bits of its binary64 form, so that every NaN is
kept as it is. -/
inductive Cell where
  | null
  | integer (n : Int64)
  | real (bits : UInt64)
  | text (s : String)
  | blob (bytes : List UInt8)
  deriving DecidableEq, Repr, Inhabited

structure SeedTable where
  name : String := ""
  columns : List String := []
  rows : List (List Cell) := []
  deriving DecidableEq, Repr, Inhabited

namespace SeedTable

def position? (t : SeedTable) (name : String) : Option Nat :=
  t.columns.idxOf? name

def cells? (t : SeedTable) (name : String) : Option (List Cell) :=
  -- A row that is too short has no cell there.
  (t.position? name).map fun i => t.rows.filterMap (·[i]?)

end SeedTable

structure RowStore where
  tableNames : Except String (List String)
  readTable : String → Except String SeedTable

/-- The table in which a store keeps its own procedures, which are no data. -/
def procedureTable : String := "XP_PROC"

def RowStore.readAll (store : RowStore) : Except DocumentError (List SeedTable) := do
  let names ← store.tableNames.mapError .rowStore
  (names.filter (· != procedureTable)).mapM fun name => (store.readTable name).mapError .rowStore

def seedTable? (tables : List SeedTable) (name : String) : Option SeedTable :=
  tables.find? (·.name == name)

end SchemaMigration
