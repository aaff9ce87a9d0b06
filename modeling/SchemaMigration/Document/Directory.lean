import SchemaMigration.Document.Basic

namespace SchemaMigration

def Table.entities (t : Table) : List Entity :=
  .table t :: t.columns.map .column ++
    t.indices.flatMap (fun i => .index i :: i.columns.map .indexColumn) ++
    t.foreignKeys.map .foreignKey

def Schema.entities (s : Schema) : List Entity :=
  .schema s :: s.tables.flatMap (·.entities)

def Catalog.entities (c : Catalog) : List Entity :=
  .catalog c :: c.schemata.flatMap (·.entities)

def Model.entities (m : Model) : List Entity :=
  .model m :: m.catalog.toList.flatMap (·.entities)

def Document.entities (d : Document) : List Entity :=
  d.models.flatMap (·.entities)

structure Directory where
  byId : OnceMap Entity

def Document.directory (d : Document) : Directory :=
  ⟨OnceMap.ofList ((d.entities.filter (·.id != "")).map fun e => (e.id, e))⟩

namespace Directory

def get? (d : Directory) (id : String) : Option Entity :=
  d.byId.get? id

def find (d : Directory) (id : String) : Except String Entity :=
  match d.get? id with
  | some e => .ok e
  | none => .error id

def table? (d : Directory) (id : String) : Option Table :=
  match d.get? id with
  | some (.table t) => some t
  | _ => none

def column? (d : Directory) (id : String) : Option Column :=
  match d.get? id with
  | some (.column c) => some c
  | _ => none

def targetTable? (d : Directory) (f : ForeignKey) : Option Table :=
  d.table? f.referencedTable

def targetColumns (d : Directory) (f : ForeignKey) : List Column :=
  -- Columns that are missing are left out.
  f.referencedColumns.filterMap d.column?

end Directory

end SchemaMigration
