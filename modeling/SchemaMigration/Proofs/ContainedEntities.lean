import SchemaMigration.Document.Directory
import SchemaMigration.Proofs.EntityParts

namespace SchemaMigration

def Entity.entities : Entity → List Entity
  | .model m => m.entities
  | .catalog c => c.entities
  | .schema s => s.entities
  | .table t => t.entities
  | .index i => .index i :: i.columns.map .indexColumn
  | e => [e]

/-- A value contains the entities of the one that it is, or of those in its list. -/
inductive Datum.Contains : Datum → Entity → Prop
  | entity {e x : Entity} (hx : x ∈ e.entities) : Contains (.entity e) x
  | list {items : List Datum} {d : Datum} {x : Entity} (hd : d ∈ items) (hx : d.Contains x) :
      Contains (.list items) x

def Content.Draws {α : Type} (content : Content α) (inside : α → List Entity) : Prop :=
  ∀ d v, content.read d = some v → ∀ e ∈ inside v, d.Contains e

/-- What a governed part has inside was there before, or a member brings it in. -/
theorem Field.Governs.contains_of_foldl {ρ α : Type} {fields : List (Field ρ)} {key : String}
    {content : Content α} {get : ρ → α} (h : Governs fields key content get)
    {inside : α → List Entity} (hdraws : content.Draws inside) (members : List (String × Datum))
    (x : ρ) {e : Entity} (he : e ∈ inside (get (members.foldl (assignTo fields) x))) :
    e ∈ inside (get x) ∨ ∃ m ∈ members, m.2.Contains e := by
  rw [h.foldl] at he
  cases hlast : (members.filterMap (given key content)).getLast? with
  | none =>
    rw [hlast] at he
    exact Or.inl he
  | some v =>
    rw [hlast] at he
    obtain ⟨m, hm, hgiven⟩ := List.mem_filterMap.mp (List.mem_of_getLast? hlast)
    rw [given] at hgiven
    split at hgiven
    case isTrue => exact Or.inr ⟨m, hm, hdraws m.2 v hgiven e he⟩
    case isFalse => cases hgiven

namespace Struct

/-- An entity that is read from a value is what the value contains, with all that it has inside. -/
theorem contains_of_entity? {k : Struct} {d : Datum} {x : k.Carrier}
    (hx : d.entity? k.record.ofEntity? = some x) {e : Entity} (he : e ∈ (k.entity x).entities) :
    d.Contains e := by
  cases d with
  | entity e' =>
    rw [← ofEntity?_eq_some_iff.mp hx] at he
    exact .entity he
  | _ => cases hx

/-- What an entity in a member contains, the member contains. -/
theorem draws_entity? (k : Struct) :
    (Content.entity? k.record).Draws fun v => v.toList.flatMap fun x => (k.entity x).entities := by
  intro d v hv e he
  obtain ⟨x, hx, rfl⟩ := Option.map_eq_some_iff.mp hv
  have he : e ∈ (k.entity x).entities := by simpa using he
  exact contains_of_entity? hx he

/-- What the entities of a list contain, the member that holds the list contains. -/
theorem draws_records (k : Struct) :
    (Content.records k.record).Draws fun v => v.flatMap fun x => (k.entity x).entities := by
  intro d v hv e hin
  obtain ⟨x, hx, he⟩ := List.mem_flatMap.mp hin
  cases d with
  | list items =>
    cases hv
    obtain ⟨item, hitem, hread⟩ := List.mem_filterMap.mp hx
    exact .list hitem (contains_of_entity? hread he)
  | _ => cases hv

end Struct

/-- A part of an entity that has other entities inside. -/
structure Container (ρ : Type) where
  part : Part ρ
  inside : part.Value → List Entity
  draws : part.shape.content.Draws inside

namespace Container

variable {ρ : Type}

def records (k : Struct) (key : String) (get : ρ → List k.Carrier) : Container ρ where
  part := ⟨key, .records k.record k.proper, get⟩
  inside xs := xs.flatMap fun x => (k.entity x).entities
  draws := k.draws_records

def entity? (k : Struct) (key : String) (get : ρ → Option k.Carrier) : Container ρ where
  part := ⟨key, .entity? k.record k.proper, get⟩
  inside x := x.toList.flatMap fun x => (k.entity x).entities
  draws := k.draws_entity?

end Container

namespace Struct

def containers : (k : Struct) → List (Container k.Carrier)
  | model => [.entity? .catalog "catalog" (·.catalog)]
  | catalog => [.records .schema "schemata" (·.schemata)]
  | schema => [.records .table "tables" (·.tables)]
  | table =>
    [.records .column "columns" (·.columns), .records .index "indices" (·.indices),
      .records .foreignKey "foreignKeys" (·.foreignKeys)]
  | index => [.records .indexColumn "columns" (·.columns)]
  | column | indexColumn | foreignKey => []

/-- Each container is one of the parts of its structure. -/
theorem part_mem_parts (k : Struct) : ∀ c ∈ k.containers, c.part ∈ k.parts := by
  cases k <;> simp [containers, parts, Container.records, Container.entity?, record,
    Model.parts, Catalog.parts, Schema.parts, Table.parts, Column.parts, Index.parts]

theorem inside_blank (k : Struct) :
    ∀ c ∈ k.containers, c.inside (c.part.get k.record.blank) = [] := by
  cases k <;> simp [containers, Container.records, Container.entity?, record, Model.record,
    Catalog.record, Schema.record, Table.record, Index.record]

/-- An entity contains itself and what is inside its containers. -/
theorem mem_entities_iff {k : Struct} {x : k.Carrier} {e : Entity} :
    e ∈ (k.entity x).entities ↔
      e = k.entity x ∨ ∃ c ∈ k.containers, e ∈ c.inside (c.part.get x) := by
  cases k <;> simp [containers, Container.records, Container.entity?, entity, Entity.entities,
    Model.entities, Catalog.entities, Schema.entities, Table.entities, eq_comm (b := e)]

/-- An entity has the id that it is built with, and contains beside itself what its members do. -/
theorem build_entities (k : Struct) (members : List (String × Datum)) (id? : Option String) :
    (k.build members id?).id = id?.getD "" ∧
      ∀ e ∈ (k.build members id?).entities,
        e = k.build members id? ∨ ∃ m ∈ members, m.2.Contains e := by
  rw [k.build_eq, k.id_entity, k.id_build]
  refine ⟨rfl, fun e he => ?_⟩
  obtain he | ⟨c, hc, he⟩ := mem_entities_iff.mp he
  · exact Or.inl he
  · have hhas := k.has c.part (k.part_mem_parts c hc)
    rw [hhas.get_build] at he
    obtain hblank | hmember := hhas.governs.contains_of_foldl c.draws members _ he
    · rw [k.inside_blank c hc] at hblank
      exact absurd hblank List.not_mem_nil
    · exact Or.inr hmember

end Struct

/-- The entities in the models of a document come from its members. -/
theorem modelsField_entities (members : List (String × Datum)) :
    ∀ e ∈ (members.foldl (Field.assignTo [modelsField]) []).flatMap Model.entities,
      ∃ m ∈ members, m.2.Contains e := by
  intro e he
  obtain hblank | hmember := governs_models.contains_of_foldl (Struct.draws_records .model) members
    [] he
  · cases hblank
  · exact hmember

end SchemaMigration
