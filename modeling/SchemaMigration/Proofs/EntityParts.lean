import SchemaMigration.Proofs.MemberShape

/-!
What the entities of each structure are made of: an id and parts, each of which is held by the field
with one key. An entity that is read from an object has its id from the attribute, and each part
from the last member with the key of the part that has the right shape for it.
-/

namespace SchemaMigration

variable {ρ α : Type}

structure Part (ρ : Type) where
  {Value : Type}
  key : String
  shape : Shape Value
  get : ρ → Value

namespace Record

/-- The entity has its id and its parts from an object. What no member gives is as it is in an
entity that nothing is set in. -/
def TakenFrom (r : Record ρ) (parts : List (Part ρ)) (e : Element) (x : ρ) : Prop :=
  r.id x = (e.attr? "id").getD "" ∧
    ∀ p ∈ parts, p.get x = e.lastGiven p.key p.shape.value? (p.get r.blank)

structure ConsistsOf (r : Record ρ) (kind : ρ → Entity) (parts : List (Part ρ)) : Prop where
  proper : r.Proper
  build : ∀ members id?, r.struct.build members id? = kind (r.build members id?)
  id : ∀ members id?, r.id (r.build members id?) = id?.getD ""
  has : ∀ p ∈ parts, r.Has p.key p.shape.content p.get
  ext : ∀ x y, r.id x = r.id y → (∀ p ∈ parts, p.get x = p.get y) → x = y

/-- Whatever object of the structure is decoded, an entity is read from it, and that is the one
entity that has its id and its parts from the object. -/
def ReadsParts (r : Record ρ) (kind : ρ → Entity) (parts : List (Part ρ)) : Prop :=
  ∀ e d seen, e.Fits (.entity r.struct) → e.decode = .ok (d, seen) →
    ∃ x, d = some (.entity (kind x)) ∧ x = r.entityOf e ∧ ∀ y, y = x ↔ r.TakenFrom parts e y

/-- A part that is read under one key, and that no other member changes, is told by its members. -/
theorem has_of {r : Record ρ} {key : String} {content : Content α} {get : ρ → α} {put : ρ → α → ρ}
    (hfind : r.fields.find? (·.key == key) = some (.of key content get put))
    (hget : ∀ x v, get (put x v) = v) (hothers : ∀ f ∈ r.fields, f.Spares key get)
    (hsetId : ∀ x id, get (r.setId x id) = get x) : r.Has key content get where
  governs := Field.governs_of hfind hget hothers
  key := List.mem_map.mpr ⟨_, List.mem_of_find?_eq_some hfind, rfl⟩
  setId := hsetId

/-- So an entity that consists of its parts is told by the members of its object. -/
theorem ConsistsOf.readsParts {r : Record ρ} {kind : ρ → Entity} {parts : List (Part ρ)}
    (h : r.ConsistsOf kind parts) : r.ReadsParts kind parts := by
  intro e d seen hfits hdecode
  obtain ⟨f, hform, hd⟩ := Element.form_of_decode hdecode
  -- An element has one form only, so this is an object, and it is built from its members.
  obtain rfl := (Element.fits_iff hform _).mp hfits
  obtain ⟨members, seen', hmembers, rfl, _⟩ := hd
  let x := r.build members (e.attr? "id")
  have hread : r.read? e = some x := by
    rw [read?, Element.datum?_of_decode hdecode, Option.bind_some, Datum.entity?,
      h.proper.ofEntity?, if_pos rfl]
  have hid : r.id x = (e.attr? "id").getD "" := h.id members _
  have hpart (p : Part ρ) (hp : p ∈ parts) :
      p.get x = e.lastGiven p.key p.shape.value? (p.get r.blank) := by
    have hhas := h.has p hp
    rw [h.proper.keys] at hmembers
    rw [hhas.get_eq h.proper hread, Element.lastValue?_getD p.shape hmembers hhas.key]
  refine ⟨x, by rw [h.build], by rw [entityOf, hread, Option.getD_some], ?_⟩
  intro y
  constructor
  · rintro rfl
    exact ⟨hid, hpart⟩
  -- There is nothing in an entity but its id and its parts.
  · rintro ⟨hid', hpart'⟩
    exact h.ext y x (hid'.trans hid.symm) fun p hp => (hpart' p hp).trans (hpart p hp).symm

end Record

def Column.parts : List (Part Column) :=
  [⟨"name", .text, (·.name)⟩,
    ⟨"comment", .text, (·.comment)⟩,
    ⟨"simpleType", .text, (·.simpleType)⟩,
    ⟨"autoIncrement", .flag, (·.autoIncrement)⟩,
    ⟨"characterSetName", .text, (·.characterSetName)⟩,
    ⟨"collationName", .text, (·.collationName)⟩,
    ⟨"datatypeExplicitParams", .text, (·.explicitParams)⟩,
    ⟨"expression", .text, (·.expression)⟩,
    ⟨"generated", .flag, (·.generated)⟩,
    ⟨"generatedStorage", .text, (·.generatedStorage)⟩,
    ⟨"defaultValue", .text, (·.defaultValue)⟩,
    ⟨"defaultValueIsNull", .flag, (·.defaultValueIsNull)⟩,
    ⟨"flags", .texts, (·.flags)⟩,
    ⟨"isNotNull", .flag, (·.isNotNull)⟩,
    ⟨"length", .integer, (·.length)⟩,
    ⟨"precision", .integer, (·.precision)⟩,
    ⟨"scale", .integer, (·.scale)⟩]

def IndexColumn.parts : List (Part IndexColumn) :=
  [⟨"referencedColumn", .reference, (·.referencedColumn)⟩,
    ⟨"descend", .flag, (·.descend)⟩]

def Index.parts : List (Part Index) :=
  [⟨"name", .text, (·.name)⟩,
    ⟨"comment", .text, (·.comment)⟩,
    ⟨"columns", .records IndexColumn.record (Struct.proper .indexColumn), (·.columns)⟩,
    ⟨"indexType", .text, (·.indexType)⟩,
    ⟨"isPrimary", .flag, (·.isPrimary)⟩,
    ⟨"unique", .flag, (·.unique)⟩]

def ForeignKey.parts : List (Part ForeignKey) :=
  [⟨"name", .text, (·.name)⟩,
    ⟨"comment", .text, (·.comment)⟩,
    ⟨"referencedTable", .reference, (·.referencedTable)⟩,
    ⟨"columns", .references, (·.columns)⟩,
    ⟨"referencedColumns", .references, (·.referencedColumns)⟩,
    ⟨"index", .reference?, (·.index)⟩,
    ⟨"updateRule", .text, (·.updateRule)⟩,
    ⟨"deleteRule", .text, (·.deleteRule)⟩]

def Table.parts : List (Part Table) :=
  [⟨"name", .text, (·.name)⟩,
    ⟨"comment", .text, (·.comment)⟩,
    ⟨"columns", .records Column.record (Struct.proper .column), (·.columns)⟩,
    ⟨"indices", .records Index.record (Struct.proper .index), (·.indices)⟩,
    ⟨"foreignKeys", .records ForeignKey.record (Struct.proper .foreignKey), (·.foreignKeys)⟩,
    ⟨"primaryKey", .reference?, (·.primaryKey)⟩,
    ⟨"nextAutoInc", .text, (·.autoIncrementOption)⟩,
    ⟨"defaultCharacterSetName", .text, (·.defaultCharacterSetName)⟩,
    ⟨"defaultCollationName", .text, (·.defaultCollationName)⟩]

def Schema.parts : List (Part Schema) :=
  [⟨"name", .text, (·.name)⟩,
    ⟨"tables", .records Table.record (Struct.proper .table), (·.tables)⟩,
    ⟨"defaultCharacterSetName", .text, (·.defaultCharacterSetName)⟩,
    ⟨"defaultCollationName", .text, (·.defaultCollationName)⟩]

def Catalog.parts : List (Part Catalog) :=
  [⟨"name", .text, (·.name)⟩,
    ⟨"schemata", .records Schema.record (Struct.proper .schema), (·.schemata)⟩]

def Model.parts : List (Part Model) :=
  [⟨"name", .text, (·.name)⟩,
    ⟨"catalog", .entity? Catalog.record (Struct.proper .catalog), (·.catalog)⟩]

namespace Struct

def parts : (k : Struct) → List (Part k.Carrier)
  | model => Model.parts
  | catalog => Catalog.parts
  | schema => Schema.parts
  | table => Table.parts
  | column => Column.parts
  | index => Index.parts
  | indexColumn => IndexColumn.parts
  | foreignKey => ForeignKey.parts

/-- No field of a structure is the id of its entities. -/
theorem keeps_id (k : Struct) : ∀ f ∈ k.record.fields, f.Keeps k.record.id := by
  cases k <;>
    simp [record, Model.record, Catalog.record, Schema.record, Table.record, Column.record,
      Index.record, IndexColumn.record, ForeignKey.record, Field.keeps_of]

theorem id_build (k : Struct) (members : List (String × Datum)) (id? : Option String) :
    k.record.id (k.record.build members id?) = id?.getD "" := by
  unfold Record.build
  cases id? with
  | none => exact (Field.foldl_keeps k.keeps_id members _).trans k.id_blank
  | some id => exact k.id_setId _ id

/-- The field with the key of a part puts its values there, and an id is put elsewhere. -/
theorem exists_put (k : Struct) : ∀ p ∈ k.parts, ∃ put,
    k.record.fields.find? (·.key == p.key) = some (.of p.key p.shape.content p.get put) ∧
      (∀ x v, p.get (put x v) = v) ∧ ∀ x id, p.get (k.record.setId x id) = p.get x := by
  cases k
  all_goals
    simp only [parts, Model.parts, Catalog.parts, Schema.parts, Table.parts, Column.parts,
      Index.parts, IndexColumn.parts, ForeignKey.parts, List.forall_mem_cons, List.not_mem_nil,
      IsEmpty.forall_iff, implies_true, and_true]
    and_intros
    all_goals exact ⟨_, rfl, fun _ _ => rfl, fun _ _ => rfl⟩

/-- A field leaves all other parts as they are. -/
theorem spares (k : Struct) : ∀ f ∈ k.record.fields, ∀ p ∈ k.parts, f.Spares p.key p.get := by
  cases k <;>
    simp [record, parts, Model.record, Catalog.record, Schema.record, Table.record, Column.record,
      Index.record, IndexColumn.record, ForeignKey.record, Model.parts, Catalog.parts,
      Schema.parts, Table.parts, Column.parts, Index.parts, IndexColumn.parts, ForeignKey.parts,
      Field.spares_of]

/-- So the field with the key of a part holds the part, for every structure. -/
theorem has (k : Struct) : ∀ p ∈ k.parts, k.record.Has p.key p.shape.content p.get := by
  intro p hp
  obtain ⟨put, hfind, hget, hsetId⟩ := k.exists_put p hp
  exact Record.has_of hfind hget (fun f hf => k.spares f hf p hp) hsetId

/-- An entity is its id and its parts. -/
theorem ext_parts {k : Struct} {x y : k.Carrier} (hid : k.record.id x = k.record.id y)
    (hparts : ∀ p ∈ k.parts, p.get x = p.get y) : x = y := by
  cases k <;> cases x <;> cases y <;>
    simp_all [record, parts, Model.record, Catalog.record, Schema.record, Table.record,
      Column.record, Index.record, IndexColumn.record, ForeignKey.record, Model.parts,
      Catalog.parts, Schema.parts, Table.parts, Column.parts, Index.parts, IndexColumn.parts,
      ForeignKey.parts]

/-- Every structure consists of its parts. -/
theorem consistsOf (k : Struct) : k.record.ConsistsOf k.entity k.parts where
  proper := k.proper
  build members id? := by rw [k.struct_record, k.build_eq]
  id := k.id_build
  has := k.has
  ext _ _ := k.ext_parts

end Struct

/-- An entry has a single member that is read, the list of its models. -/
theorem governs_models :
    Field.Governs [modelsField] modelsField.key (.records Model.record) id :=
  Field.governs_of rfl (fun _ _ => rfl) (by simp [Field.Spares])

namespace Document

open Element

/-- The models of a document are read from the objects in the last list of models. -/
theorem models_eq {entry : Element} {d : Document} (h : ofEntry entry = .ok d) :
    d.models = (entry.lastValue? modelsField.key (.records Model.record)).getD [] := by
  obtain ⟨⟨members, seen⟩, hmembers, h⟩ := bind_eq_ok_iff.mp h
  cases h
  exact foldl_members_eq governs_models (by decide) hmembers []

end Document

/-- Each part of an entity is assigned by the last member that has its key and the right shape for
it, and by no other; a list holds the items of the right kind, in order; and the id is the one of
the object. So it is for the objects of every structure that are decoded, and for the models of a
document in its entry. -/
theorem parts_of_decode :
    (Model.record.ReadsParts .model Model.parts ∧
        Catalog.record.ReadsParts .catalog Catalog.parts ∧
        Schema.record.ReadsParts .schema Schema.parts ∧
        Table.record.ReadsParts .table Table.parts ∧
        Column.record.ReadsParts .column Column.parts ∧
        Index.record.ReadsParts .index Index.parts ∧
        IndexColumn.record.ReadsParts .indexColumn IndexColumn.parts ∧
        ForeignKey.record.ReadsParts .foreignKey ForeignKey.parts) ∧
      ∀ root d, Document.read root = .ok d → ∃ entry, root.entries = [entry] ∧
        d.models = entry.lastGiven "physicalModels" Model.record.itemObjects? [] := by
  have hreads (k : Struct) : k.record.ReadsParts k.entity k.parts := k.consistsOf.readsParts
  refine ⟨⟨hreads .model, hreads .catalog, hreads .schema, hreads .table, hreads .column,
    hreads .index, hreads .indexColumn, hreads .foreignKey⟩, ?_⟩
  intro root d h
  unfold Document.read at h
  split at h
  case h_1 entry hentries =>
    refine ⟨entry, hentries, ?_⟩
    obtain ⟨⟨members, seen⟩, hmembers, _⟩ := bind_eq_ok_iff.mp h
    rw [Document.models_eq h]
    exact Element.lastValue?_getD (.records Model.record (Struct.proper .model)) hmembers
      List.mem_cons_self []
  case h_2 => cases h

/-- A table in which members of a wrong shape stand behind those of the right one, and the last list
of columns has other items too. -/
def mixedTable : Element :=
  let column (id : String) := (Element.object "db.mysql.Column").setId id
  let columns (items : List Element) := (Element.list.addChildren items).setKey "columns"
  ((Element.object "db.mysql.Table").setId "t").addChildren
    [(Element.string "posts").setKey "name",
      (Element.link "tags").setKey "name",
      Element.list.setKey "name",
      columns [column "a"],
      columns [.string "a", column "c", Element.object "db.mysql.Index", column "d"],
      (Element.string "b").setKey "columns",
      { name := "note", attrs := [("key", "comment")], text := "read by no one" },
      Element.list.setKey "color"]

/-- Members of a wrong shape, and all but the last one of the right shape, leave no trace. -/
theorem parts_of_mixedTable :
    ∃ x seen, mixedTable.Fits (.entity .table) ∧
      mixedTable.decode = .ok (some (.entity (.table x)), seen) ∧
      x.id = "t" ∧ x.name = "tags" ∧ x.comment = "" ∧ x.columns.map (·.id) = ["c", "d"] ∧
      ∀ y, y = x ↔ Table.record.TakenFrom Table.parts mixedTable y := by
  have hfits : mixedTable.Fits (.entity .table) := by decide
  have hdecodes : ∃ out, mixedTable.decode = .ok out := ⟨_, rfl⟩
  obtain ⟨⟨d, seen⟩, hdecode⟩ := hdecodes
  obtain ⟨x, rfl, -, hparts⟩ := parts_of_decode.1.2.2.2.1 mixedTable d seen hfits hdecode
  obtain ⟨hid, htaken⟩ := (hparts x).mp rfl
  have hname : x.name = "tags" := htaken ⟨"name", .text, (·.name)⟩ (by simp [Table.parts])
  have hcomment : x.comment = "" := htaken ⟨"comment", .text, (·.comment)⟩ (by simp [Table.parts])
  have hcolumns : x.columns = [{ id := "c" }, { id := "d" }] :=
    htaken ⟨"columns", .records Column.record (Struct.proper .column), (·.columns)⟩
      (by simp [Table.parts])
  exact ⟨x, seen, hfits, hdecode, hid, hname, hcomment, by rw [hcolumns]; rfl, hparts⟩

end SchemaMigration
