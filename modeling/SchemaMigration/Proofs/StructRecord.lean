import SchemaMigration.Document.Records

namespace SchemaMigration
namespace Struct

abbrev Carrier : Struct → Type
  | model => Model
  | catalog => Catalog
  | schema => Schema
  | table => Table
  | column => Column
  | index => Index
  | indexColumn => IndexColumn
  | foreignKey => ForeignKey

def record : (k : Struct) → Record k.Carrier
  | model => Model.record
  | catalog => Catalog.record
  | schema => Schema.record
  | table => Table.record
  | column => Column.record
  | index => Index.record
  | indexColumn => IndexColumn.record
  | foreignKey => ForeignKey.record

def entity : (k : Struct) → k.Carrier → Entity
  | model => .model
  | catalog => .catalog
  | schema => .schema
  | table => .table
  | column => .column
  | index => .index
  | indexColumn => .indexColumn
  | foreignKey => .foreignKey

theorem struct_record (k : Struct) : k.record.struct = k := by
  cases k <;> rfl

theorem keys_eq (k : Struct) : k.keys = k.record.keys := by
  cases k <;> rfl

/-- An object of a structure is built as an entity of its record. -/
theorem build_eq (k : Struct) (members : List (String × Datum)) (id? : Option String) :
    k.build members id? = k.entity (k.record.build members id?) := by
  cases k <;> rfl

theorem id_entity (k : Struct) (x : k.Carrier) : (k.entity x).id = k.record.id x := by
  cases k <;> rfl

theorem ofEntity?_entity (k : Struct) (x : k.Carrier) :
    k.record.ofEntity? (k.entity x) = some x := by
  cases k <;> rfl

/-- A record gives back the entities of its structure, and none of another one. -/
theorem ofEntity?_eq_some_iff {k : Struct} {e : Entity} {x : k.Carrier} :
    k.record.ofEntity? e = some x ↔ e = k.entity x := by
  constructor
  · intro h
    cases k <;> cases e <;> cases h <;> rfl
  · rintro rfl
    exact k.ofEntity?_entity x

theorem id_blank (k : Struct) : k.record.id k.record.blank = "" := by
  cases k <;> rfl

theorem id_setId (k : Struct) (x : k.Carrier) (id : String) :
    k.record.id (k.record.setId x id) = id := by
  cases k <;> rfl

/-- No structure has two fields under one key. -/
theorem nodup_keys (k : Struct) : k.record.keys.Nodup := by
  cases k <;> decide

end Struct
end SchemaMigration
