import SchemaMigration.Entity.Table

namespace SchemaMigration

inductive Struct where
  | model
  | catalog
  | schema
  | table
  | column
  | index
  | indexColumn
  | foreignKey
  deriving DecidableEq, Repr, Inhabited

namespace Struct

def all : List Struct :=
  [model, catalog, schema, table, column, index, indexColumn, foreignKey]

def name : Struct → String
  | model => "workbench.physical.Model"
  | catalog => "db.mysql.Catalog"
  | schema => "db.mysql.Schema"
  | table => "db.mysql.Table"
  | column => "db.mysql.Column"
  | index => "db.mysql.Index"
  | indexColumn => "db.mysql.IndexColumn"
  | foreignKey => "db.mysql.ForeignKey"

def ofName? (name : String) : Option Struct :=
  all.find? (·.name == name)

theorem ofName?_name (k : Struct) : ofName? k.name = some k := by
  cases k <;> decide

theorem ofName?_eq_some_iff {s : String} {k : Struct} :
    ofName? s = some k ↔ s = k.name := by
  constructor
  · intro h
    unfold ofName? at h
    have hk := List.find?_some h
    simpa using (beq_iff_eq.mp hk).symm
  · rintro rfl
    exact ofName?_name k

end Struct

inductive Entity where
  | model (m : Model)
  | catalog (c : Catalog)
  | schema (s : Schema)
  | table (t : Table)
  | column (c : Column)
  | index (i : Index)
  | indexColumn (c : IndexColumn)
  | foreignKey (f : ForeignKey)
  deriving DecidableEq, Repr, Inhabited

namespace Entity

def struct : Entity → Struct
  | model _ => .model
  | catalog _ => .catalog
  | schema _ => .schema
  | table _ => .table
  | column _ => .column
  | index _ => .index
  | indexColumn _ => .indexColumn
  | foreignKey _ => .foreignKey

def id : Entity → String
  | model m => m.id
  | catalog c => c.id
  | schema s => s.id
  | table t => t.id
  | column c => c.id
  | index i => i.id
  | indexColumn c => c.id
  | foreignKey f => f.id

def name? : Entity → Option String
  | model m => some m.name
  | catalog c => some c.name
  | schema s => some s.name
  | table t => some t.name
  | column c => some c.name
  | index i => some i.name
  | indexColumn _ => none
  | foreignKey f => some f.name

end Entity

end SchemaMigration
