import SchemaMigration.Entity.Index

namespace SchemaMigration

/-- A kind of chained call. The order of the constructors is that of the calls. -/
inductive Modifier where
  | autoIncrement
  | startingAt
  | nullable
  | defaultValue
  | primary
  | index
  | unique
  | fulltext
  | spatialIndex
  | storedAs
  | virtualAs
  | charset
  | collation
  | comment
  | change
  deriving DecidableEq, Repr, Inhabited

namespace Modifier

def all : List Modifier :=
  [autoIncrement, startingAt, nullable, defaultValue, primary, index, unique, fulltext,
    spatialIndex, storedAs, virtualAs, charset, collation, comment, change]

def method : Modifier → String
  | autoIncrement => "autoIncrement"
  | startingAt => "from"
  | nullable => "nullable"
  | defaultValue => "default"
  | primary => "primary"
  | index => "index"
  | unique => "unique"
  | fulltext => "fulltext"
  | spatialIndex => "spatialIndex"
  | storedAs => "storedAs"
  | virtualAs => "virtualAs"
  | charset => "charset"
  | collation => "collation"
  | comment => "comment"
  | change => "change"

def ofIndex : IndexCategory → Modifier
  | .primary => primary
  | .index => index
  | .unique => unique
  | .spatial => spatialIndex
  | .fulltext => fulltext

theorem mem_all (k : Modifier) : k ∈ all := by
  cases k <;> decide

end Modifier

namespace IndexCategory

def columnMethod (k : IndexCategory) : String :=
  (Modifier.ofIndex k).method

/-- The method that gives a table an index. For a full-text index it has a spelling of its own. -/
def tableMethod : IndexCategory → String
  | fulltext => "fullText"
  | k => k.columnMethod

end IndexCategory

end SchemaMigration
