import SchemaMigration.Document.Field

namespace SchemaMigration

open Content

def Column.record : Record Column where
  struct := .column
  blank := {}
  id c := c.id
  setId c id := { c with id }
  ofEntity? e := match e with | .column c => some c | _ => none
  fields :=
    [.of "name" text (·.name) fun c v => { c with name := v },
      .of "comment" text (·.comment) fun c v => { c with comment := v },
      .of "simpleType" text (·.simpleType) fun c v => { c with simpleType := v },
      .of "autoIncrement" flag (·.autoIncrement) fun c v => { c with autoIncrement := v },
      .of "characterSetName" text (·.characterSetName) fun c v => { c with characterSetName := v },
      .of "collationName" text (·.collationName) fun c v => { c with collationName := v },
      .of "datatypeExplicitParams" text (·.explicitParams)
        fun c v => { c with explicitParams := v },
      .of "expression" text (·.expression) fun c v => { c with expression := v },
      .of "generated" flag (·.generated) fun c v => { c with generated := v },
      .of "generatedStorage" text (·.generatedStorage) fun c v => { c with generatedStorage := v },
      .of "defaultValue" text (·.defaultValue) fun c v => { c with defaultValue := v },
      .of "defaultValueIsNull" flag (·.defaultValueIsNull)
        fun c v => { c with defaultValueIsNull := v },
      .of "flags" texts (·.flags) fun c v => { c with flags := v },
      .of "isNotNull" flag (·.isNotNull) fun c v => { c with isNotNull := v },
      .of "length" integer (·.length) fun c v => { c with length := v },
      .of "precision" integer (·.precision) fun c v => { c with precision := v },
      .of "scale" integer (·.scale) fun c v => { c with scale := v }]

def IndexColumn.record : Record IndexColumn where
  struct := .indexColumn
  blank := {}
  id c := c.id
  setId c id := { c with id }
  ofEntity? e := match e with | .indexColumn c => some c | _ => none
  fields :=
    [.of "referencedColumn" reference (·.referencedColumn)
        fun c v => { c with referencedColumn := v },
      .of "descend" flag (·.descend) fun c v => { c with descend := v }]

def Index.record : Record Index where
  struct := .index
  blank := {}
  id i := i.id
  setId i id := { i with id }
  ofEntity? e := match e with | .index i => some i | _ => none
  fields :=
    [.of "name" text (·.name) fun i v => { i with name := v },
      .of "comment" text (·.comment) fun i v => { i with comment := v },
      .of "columns" (records IndexColumn.record) (·.columns) fun i v => { i with columns := v },
      .of "indexType" text (·.indexType) fun i v => { i with indexType := v },
      .of "isPrimary" flag (·.isPrimary) fun i v => { i with isPrimary := v },
      .of "unique" flag (·.unique) fun i v => { i with unique := v }]

def ForeignKey.record : Record ForeignKey where
  struct := .foreignKey
  blank := {}
  id f := f.id
  setId f id := { f with id }
  ofEntity? e := match e with | .foreignKey f => some f | _ => none
  fields :=
    [.of "name" text (·.name) fun f v => { f with name := v },
      .of "comment" text (·.comment) fun f v => { f with comment := v },
      .of "referencedTable" reference (·.referencedTable)
        fun f v => { f with referencedTable := v },
      .of "columns" references (·.columns) fun f v => { f with columns := v },
      .of "referencedColumns" references (·.referencedColumns)
        fun f v => { f with referencedColumns := v },
      .of "index" reference? (·.index) fun f v => { f with index := v },
      .of "updateRule" text (·.updateRule) fun f v => { f with updateRule := v },
      .of "deleteRule" text (·.deleteRule) fun f v => { f with deleteRule := v }]

def Table.record : Record Table where
  struct := .table
  blank := {}
  id t := t.id
  setId t id := { t with id }
  ofEntity? e := match e with | .table t => some t | _ => none
  fields :=
    [.of "name" text (·.name) fun t v => { t with name := v },
      .of "comment" text (·.comment) fun t v => { t with comment := v },
      .of "columns" (records Column.record) (·.columns) fun t v => { t with columns := v },
      .of "indices" (records Index.record) (·.indices) fun t v => { t with indices := v },
      .of "foreignKeys" (records ForeignKey.record) (·.foreignKeys)
        fun t v => { t with foreignKeys := v },
      .of "primaryKey" reference? (·.primaryKey) fun t v => { t with primaryKey := v },
      .of "nextAutoInc" text (·.autoIncrementOption)
        fun t v => { t with autoIncrementOption := v },
      .of "defaultCharacterSetName" text (·.defaultCharacterSetName)
        fun t v => { t with defaultCharacterSetName := v },
      .of "defaultCollationName" text (·.defaultCollationName)
        fun t v => { t with defaultCollationName := v }]

def Schema.record : Record Schema where
  struct := .schema
  blank := {}
  id s := s.id
  setId s id := { s with id }
  ofEntity? e := match e with | .schema s => some s | _ => none
  fields :=
    [.of "name" text (·.name) fun s v => { s with name := v },
      .of "tables" (records Table.record) (·.tables) fun s v => { s with tables := v },
      .of "defaultCharacterSetName" text (·.defaultCharacterSetName)
        fun s v => { s with defaultCharacterSetName := v },
      .of "defaultCollationName" text (·.defaultCollationName)
        fun s v => { s with defaultCollationName := v }]

def Catalog.record : Record Catalog where
  struct := .catalog
  blank := {}
  id c := c.id
  setId c id := { c with id }
  ofEntity? e := match e with | .catalog c => some c | _ => none
  fields :=
    [.of "name" text (·.name) fun c v => { c with name := v },
      .of "schemata" (records Schema.record) (·.schemata) fun c v => { c with schemata := v }]

def Model.record : Record Model where
  struct := .model
  blank := {}
  id m := m.id
  setId m id := { m with id }
  ofEntity? e := match e with | .model m => some m | _ => none
  fields :=
    [.of "name" text (·.name) fun m v => { m with name := v },
      .of "catalog" (entity? Catalog.record) (·.catalog) fun m v => { m with catalog := v }]

namespace Struct

def keys : Struct → List String
  | model => Model.record.keys
  | catalog => Catalog.record.keys
  | schema => Schema.record.keys
  | table => Table.record.keys
  | column => Column.record.keys
  | index => Index.record.keys
  | indexColumn => IndexColumn.record.keys
  | foreignKey => ForeignKey.record.keys

def build (k : Struct) (members : List (String × Datum)) (id? : Option String) : Entity :=
  match k with
  | model => .model (Model.record.build members id?)
  | catalog => .catalog (Catalog.record.build members id?)
  | schema => .schema (Schema.record.build members id?)
  | table => .table (Table.record.build members id?)
  | column => .column (Column.record.build members id?)
  | index => .index (Index.record.build members id?)
  | indexColumn => .indexColumn (IndexColumn.record.build members id?)
  | foreignKey => .foreignKey (ForeignKey.record.build members id?)

theorem struct_build (k : Struct) (members : List (String × Datum)) (id? : Option String) :
    (k.build members id?).struct = k := by
  cases k <;> rfl

end Struct

def modelsField : Field (List Model) :=
  .of "physicalModels" (records Model.record) id fun _ models => models

end SchemaMigration
