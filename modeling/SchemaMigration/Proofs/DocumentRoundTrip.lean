import SchemaMigration.Proofs.Outcome
import SchemaMigration.Proofs.RecordRoundTrip

namespace SchemaMigration

/-- The records read back what they write. Each is proved after those that its entities contain. -/
theorem faithful_column : Column.record.Faithful Entity.column := by
  apply Struct.faithful_of .column (by simp [Struct.record, Column.record])
  intro c
  -- Something is written for every field, so what is copied onto the blank column is all of it.
  simp only [Struct.record, Column.record, List.foldl_cons, List.foldl_nil, Field.copy_of,
    Content.faithful_text, Content.faithful_flag, Content.faithful_texts, Content.faithful_integer]
  rfl

theorem faithful_indexColumn : IndexColumn.record.Faithful Entity.indexColumn := by
  apply Struct.faithful_of .indexColumn (by simp [Struct.record, IndexColumn.record])
  intro c
  simp only [Struct.record, IndexColumn.record, List.foldl_cons, List.foldl_nil, Field.copy_of,
    Content.faithful_reference, Content.faithful_flag]
  rfl

theorem faithful_index : Index.record.Faithful Entity.index := by
  have hcolumns := faithful_indexColumn.records
  apply Struct.faithful_of .index (by simp [Struct.record, Index.record, hcolumns])
  intro i
  simp only [Struct.record, Index.record, List.foldl_cons, List.foldl_nil, Field.copy_of,
    Content.faithful_text, Content.faithful_flag, hcolumns]
  rfl

theorem faithful_foreignKey : ForeignKey.record.Faithful Entity.foreignKey := by
  apply Struct.faithful_of .foreignKey (by simp [Struct.record, ForeignKey.record])
  rintro ⟨id, name, comment, referencedTable, columns, referencedColumns, index, rules⟩
  simp only [Struct.record, ForeignKey.record, List.foldl_cons, List.foldl_nil, Field.copy_of,
    Content.faithful_text, Content.faithful_reference, Content.faithful_references,
    Content.faithful_reference?]
  -- Nothing is written for an absent index, and the blank foreign key has none.
  cases index with
  | none => rfl
  | some id => rfl

theorem faithful_table : Table.record.Faithful Entity.table := by
  have hcolumns := faithful_column.records
  have hindices := faithful_index.records
  have hforeignKeys := faithful_foreignKey.records
  apply Struct.faithful_of .table
    (by simp [Struct.record, Table.record, hcolumns, hindices, hforeignKeys])
  rintro ⟨id, name, comment, columns, indices, foreignKeys, primaryKey, options⟩
  simp only [Struct.record, Table.record, List.foldl_cons, List.foldl_nil, Field.copy_of,
    Content.faithful_text, Content.faithful_reference?, hcolumns, hindices, hforeignKeys]
  cases primaryKey with
  | none => rfl
  | some id => rfl

theorem faithful_schema : Schema.record.Faithful Entity.schema := by
  have htables := faithful_table.records
  apply Struct.faithful_of .schema (by simp [Struct.record, Schema.record, htables])
  intro s
  simp only [Struct.record, Schema.record, List.foldl_cons, List.foldl_nil, Field.copy_of,
    Content.faithful_text, htables]
  rfl

theorem faithful_catalog : Catalog.record.Faithful Entity.catalog := by
  have hschemata := faithful_schema.records
  apply Struct.faithful_of .catalog (by simp [Struct.record, Catalog.record, hschemata])
  intro c
  simp only [Struct.record, Catalog.record, List.foldl_cons, List.foldl_nil, Field.copy_of,
    Content.faithful_text, hschemata]
  rfl

theorem faithful_model : Model.record.Faithful Entity.model := by
  have hinner := faithful_catalog.entity?
  apply Struct.faithful_of .model (by simp [Struct.record, Model.record, hinner])
  rintro ⟨id, name, catalog⟩
  simp only [Struct.record, Model.record, List.foldl_cons, List.foldl_nil, Field.copy_of,
    Content.faithful_text, hinner]
  cases catalog with
  | none => rfl
  | some c => rfl

def Column.tree (c : Column) : Element :=
  ((Element.object "db.mysql.Column").setId c.id).addChildren
    [(Element.string c.name).setKey "name",
      (Element.string c.comment).setKey "comment",
      (Element.string c.simpleType).setKey "simpleType",
      (Element.int (if c.autoIncrement then 1 else 0)).setKey "autoIncrement",
      (Element.string c.characterSetName).setKey "characterSetName",
      (Element.string c.collationName).setKey "collationName",
      (Element.string c.explicitParams).setKey "datatypeExplicitParams",
      (Element.string c.expression).setKey "expression",
      (Element.int (if c.generated then 1 else 0)).setKey "generated",
      (Element.string c.generatedStorage).setKey "generatedStorage",
      (Element.string c.defaultValue).setKey "defaultValue",
      (Element.int (if c.defaultValueIsNull then 1 else 0)).setKey "defaultValueIsNull",
      (Element.list.addChildren (c.flags.map Element.string)).setKey "flags",
      (Element.int (if c.isNotNull then 1 else 0)).setKey "isNotNull",
      (Element.int c.length).setKey "length",
      (Element.int c.precision).setKey "precision",
      (Element.int c.scale).setKey "scale"]

def IndexColumn.tree (c : IndexColumn) : Element :=
  ((Element.object "db.mysql.IndexColumn").setId c.id).addChildren
    [(Element.link c.referencedColumn).setKey "referencedColumn",
      (Element.int (if c.descend then 1 else 0)).setKey "descend"]

def Index.tree (i : Index) : Element :=
  ((Element.object "db.mysql.Index").setId i.id).addChildren
    [(Element.string i.name).setKey "name",
      (Element.string i.comment).setKey "comment",
      (Element.list.addChildren (i.columns.map IndexColumn.tree)).setKey "columns",
      (Element.string i.indexType).setKey "indexType",
      (Element.int (if i.isPrimary then 1 else 0)).setKey "isPrimary",
      (Element.int (if i.unique then 1 else 0)).setKey "unique"]

def ForeignKey.tree (f : ForeignKey) : Element :=
  ((Element.object "db.mysql.ForeignKey").setId f.id).addChildren
    ([(Element.string f.name).setKey "name",
        (Element.string f.comment).setKey "comment",
        (Element.link f.referencedTable).setKey "referencedTable",
        (Element.list.addChildren (f.columns.map Element.link)).setKey "columns",
        (Element.list.addChildren (f.referencedColumns.map Element.link)).setKey
          "referencedColumns"] ++
      (f.index.map fun id => (Element.link id).setKey "index").toList ++
      [(Element.string f.updateRule).setKey "updateRule",
        (Element.string f.deleteRule).setKey "deleteRule"])

def Table.tree (t : Table) : Element :=
  ((Element.object "db.mysql.Table").setId t.id).addChildren
    ([(Element.string t.name).setKey "name",
        (Element.string t.comment).setKey "comment",
        (Element.list.addChildren (t.columns.map Column.tree)).setKey "columns",
        (Element.list.addChildren (t.indices.map Index.tree)).setKey "indices",
        (Element.list.addChildren (t.foreignKeys.map ForeignKey.tree)).setKey "foreignKeys"] ++
      (t.primaryKey.map fun id => (Element.link id).setKey "primaryKey").toList ++
      [(Element.string t.autoIncrementOption).setKey "nextAutoInc",
        (Element.string t.defaultCharacterSetName).setKey "defaultCharacterSetName",
        (Element.string t.defaultCollationName).setKey "defaultCollationName"])

def Schema.tree (s : Schema) : Element :=
  ((Element.object "db.mysql.Schema").setId s.id).addChildren
    [(Element.string s.name).setKey "name",
      (Element.list.addChildren (s.tables.map Table.tree)).setKey "tables",
      (Element.string s.defaultCharacterSetName).setKey "defaultCharacterSetName",
      (Element.string s.defaultCollationName).setKey "defaultCollationName"]

def Catalog.tree (c : Catalog) : Element :=
  ((Element.object "db.mysql.Catalog").setId c.id).addChildren
    [(Element.string c.name).setKey "name",
      (Element.list.addChildren (c.schemata.map Schema.tree)).setKey "schemata"]

def Model.tree (m : Model) : Element :=
  ((Element.object "workbench.physical.Model").setId m.id).addChildren
    ((Element.string m.name).setKey "name" ::
      (m.catalog.map fun c => c.tree.setKey "catalog").toList)

/-- The tree of a document whose entry is an object of any structure with the models as its only
member. -/
def Document.tree (structName : String) (models : List Model) : Element :=
  Element.data [(Element.object structName).addChild
    ((Element.list.addChildren (models.map Model.tree)).setKey "physicalModels")]

/-- The trees are those that the records write. -/
theorem column_tree_eq : Column.tree = Column.record.element := by
  funext c
  rfl

theorem indexColumn_tree_eq : IndexColumn.tree = IndexColumn.record.element := by
  funext c
  rfl

theorem index_tree_eq : Index.tree = Index.record.element := by
  funext i
  rw [Index.tree, indexColumn_tree_eq]
  rfl

theorem foreignKey_tree_eq : ForeignKey.tree = ForeignKey.record.element := by
  funext ⟨_, _, _, _, _, _, index, _, _⟩
  cases index with
  | none => rfl
  | some i => rfl

theorem table_tree_eq : Table.tree = Table.record.element := by
  funext ⟨_, _, _, _, _, _, primaryKey, _, _, _⟩
  simp only [Table.tree, column_tree_eq, index_tree_eq, foreignKey_tree_eq]
  cases primaryKey with
  | none => rfl
  | some i => rfl

theorem schema_tree_eq : Schema.tree = Schema.record.element := by
  funext s
  rw [Schema.tree, table_tree_eq]
  rfl

theorem catalog_tree_eq : Catalog.tree = Catalog.record.element := by
  funext c
  rw [Catalog.tree, schema_tree_eq]
  rfl

theorem model_tree_eq : Model.tree = Model.record.element := by
  funext ⟨_, _, catalog⟩
  cases catalog with
  | none => rfl
  | some c =>
    simp only [Model.tree, catalog_tree_eq]
    rfl

/-- An entry with a list of models under their key gives these models. -/
theorem ofEntry_models (structName : String) (models : List Model) :
    ∃ d, Document.ofEntry ((Element.object structName).addChild
      ((Element.list.addChildren (models.map Model.record.element)).setKey "physicalModels")) =
        .ok d ∧ d.models = models := by
  have hfield : modelsField.Faithful := Field.faithful_of _ _ _ faithful_model.records
  have hnodup : ([modelsField].map (·.key)).Nodup := by simp
  obtain ⟨members, seen, hmembers, hfold⟩ := Field.decodeMembers_members hnodup
    [modelsField] (fun f hf => ⟨hf, List.mem_singleton.mp hf ▸ hfield⟩) models
  have hmodels : members.foldl (Field.assignTo [modelsField]) [] = models := by
    rw [hfold, List.foldl_cons, List.foldl_nil, modelsField,
      Field.copy_of _ _ _ faithful_model.records]
    rfl
  exact ⟨_, bind_eq_ok_iff.mpr ⟨_, hmembers, rfl⟩, hmodels⟩

/-- Reading the tree of some models gives these models, whatever they hold. -/
theorem read_tree (structName : String) (models : List Model) :
    ∃ d, Document.read (Document.tree structName models) = .ok d ∧ d.models = models := by
  let member := (Element.list.addChildren (models.map Model.record.element)).setKey
    "physicalModels"
  let entry := (Element.object structName).addChild member
  have htree : Document.tree structName models = Element.data [entry] := by
    rw [Document.tree, model_tree_eq]
  have hmember : member.NoEntry :=
    Element.noEntry_setKey (faithful_model.records.noEntry models _ rfl) "physicalModels"
  have hentry : entry.NoEntry := by
    apply Element.noEntry_of_children
    · change "value" ≠ "data"
      decide
    · intro e he
      rw [List.mem_singleton.mp he]
      exact hmember
  -- No element below the root is named `data`, so the entry is the only one.
  have hentries : (Element.data [entry]).entries = [entry] := by
    rw [Element.entries_eq, Element.entriesOf_eq_nil]
    · rfl
    · intro e he
      rw [List.mem_singleton.mp he]
      exact hentry
  obtain ⟨d, hread, hmodels⟩ := ofEntry_models structName models
  refine ⟨d, ?_, hmodels⟩
  rw [Document.read, htree, hentries]
  exact hread

end SchemaMigration
