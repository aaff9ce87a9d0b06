import SchemaMigration.Entity.Column
import SchemaMigration.Entity.Index
import SchemaMigration.Numeral.Integer
import SchemaMigration.Text.Blank

namespace SchemaMigration

/-- A table. `primaryKey` is the id of its primary index, `autoIncrementOption` the text of the
option that sets the first value of an incrementing column. -/
structure Table where
  id : String := ""
  name : String := ""
  comment : String := ""
  columns : List Column := []
  indices : List Index := []
  foreignKeys : List ForeignKey := []
  primaryKey : Option String := none
  autoIncrementOption : String := ""
  defaultCharacterSetName : String := ""
  defaultCollationName : String := ""
  deriving DecidableEq, Repr, Inhabited

namespace Table

def column? (t : Table) (id : String) : Option Column :=
  t.columns.find? (·.id == id)

def columnNamed? (t : Table) (name : String) : Option Column :=
  t.columns.find? (·.name == name)

def columnIndices (t : Table) (c : Column) : List Index :=
  t.indices.filter (·.onlyColumn? == some c.id)

def tableIndices (t : Table) : List Index :=
  t.indices.filter (!·.spansOneColumn)

def startValue? (t : Table) : Option Int64 :=
  readInt64? (trim t.autoIncrementOption.toList)

end Table

structure Schema where
  id : String := ""
  name : String := ""
  tables : List Table := []
  defaultCharacterSetName : String := ""
  defaultCollationName : String := ""
  deriving DecidableEq, Repr, Inhabited

structure Catalog where
  id : String := ""
  name : String := ""
  schemata : List Schema := []
  deriving DecidableEq, Repr, Inhabited

structure Model where
  id : String := ""
  name : String := ""
  catalog : Option Catalog := none
  deriving DecidableEq, Repr, Inhabited

end SchemaMigration
