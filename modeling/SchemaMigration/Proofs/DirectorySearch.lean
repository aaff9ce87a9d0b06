import SchemaMigration.Document.Directory
import SchemaMigration.Proofs.FirstEntries
import SchemaMigration.Proofs.TableMatching

namespace SchemaMigration

def Index.entityById? (i : Index) (id : String) : Option Entity :=
  if i.id = id then some (.index i)
  else (i.columns.find? (·.id = id)).map .indexColumn

def Table.entityById? (t : Table) (id : String) : Option Entity :=
  -- Its columns come before its indices, and these before its foreign keys.
  if t.id = id then some (.table t)
  else ((t.columns.find? (·.id = id)).map .column)
    |>.or (t.indices.findSome? (·.entityById? id))
    |>.or ((t.foreignKeys.find? (·.id = id)).map .foreignKey)

def Schema.entityById? (s : Schema) (id : String) : Option Entity :=
  if s.id = id then some (.schema s) else s.tables.findSome? (·.entityById? id)

def Catalog.entityById? (c : Catalog) (id : String) : Option Entity :=
  if c.id = id then some (.catalog c) else c.schemata.findSome? (·.entityById? id)

def Model.entityById? (m : Model) (id : String) : Option Entity :=
  if m.id = id then some (.model m) else m.catalog.bind (·.entityById? id)

def Document.entityById? (d : Document) (id : String) : Option Entity :=
  d.models.findSome? (·.entityById? id)

/-- A search that tries an entity before others. -/
theorem find?_cons_entity (e : Entity) (es : List Entity) (id : String) :
    (e :: es).find? (·.id = id) = if e.id = id then some e else es.find? (·.id = id) := by
  by_cases h : e.id = id <;> simp [h]

theorem Index.find?_entities (i : Index) (id : String) :
    (Entity.index i :: i.columns.map .indexColumn).find? (·.id = id) = i.entityById? id := by
  rw [find?_cons_entity, List.find?_map]
  rfl

/-- The search level by level finds the first entity with the id in the order of containment. -/
theorem Table.find?_entities (t : Table) (id : String) :
    t.entities.find? (·.id = id) = t.entityById? id := by
  rw [Table.entities, List.cons_append, List.cons_append, find?_cons_entity, List.find?_append,
    List.find?_append, List.find?_map, List.find?_flatMap, List.find?_map]
  simp only [Index.find?_entities]
  rfl

theorem Schema.find?_entities (s : Schema) (id : String) :
    s.entities.find? (·.id = id) = s.entityById? id := by
  rw [Schema.entities, find?_cons_entity, List.find?_flatMap]
  simp only [Table.find?_entities]
  rfl

theorem Catalog.find?_entities (c : Catalog) (id : String) :
    c.entities.find? (·.id = id) = c.entityById? id := by
  rw [Catalog.entities, find?_cons_entity, List.find?_flatMap]
  simp only [Schema.find?_entities]
  rfl

theorem Model.find?_entities (m : Model) (id : String) :
    m.entities.find? (·.id = id) = m.entityById? id := by
  rw [Model.entities, find?_cons_entity, List.find?_flatMap, Model.entityById?]
  simp only [Catalog.find?_entities]
  cases m.catalog with
  | none => rfl
  | some c => simp [Entity.id]

theorem Document.find?_entities (d : Document) (id : String) :
    d.entities.find? (·.id = id) = d.entityById? id := by
  rw [Document.entities, List.find?_flatMap]
  simp only [Model.find?_entities]
  rfl

namespace Table

theorem of_column?_eq_some {t : Table} {id : String} {c : Column} (h : t.column? id = some c) :
    c ∈ t.columns ∧ c.id = id :=
  ⟨List.mem_of_find?_eq_some h, by simpa using List.find?_some h⟩

theorem isSome_column?_iff {t : Table} {id : String} :
    (t.column? id).isSome = true ↔ ∃ c ∈ t.columns, c.id = id := by
  simp [column?]

theorem column_mem_entities {t : Table} {c : Column} (h : c ∈ t.columns) :
    .column c ∈ t.entities := by
  simp [Table.entities, h]

end Table

namespace Directory

theorem table?_eq_some_iff {d : Directory} {id : String} {t : Table} :
    d.table? id = some t ↔ d.get? id = some (.table t) := by
  unfold table?
  split
  case h_1 t' h => simp [h]
  case h_2 h => simpa using h t

theorem column?_eq_some_iff {d : Directory} {id : String} {c : Column} :
    d.column? id = some c ↔ d.get? id = some (.column c) := by
  unfold column?
  split
  case h_1 c' h => simp [h]
  case h_2 h => simpa using h c

end Directory

namespace Document

theorem lookup_map_id (es : List Entity) (id : String) :
    (es.map fun e => (e.id, e)).lookup id = es.find? (·.id = id) := by
  induction es with
  | nil => rfl
  | cons e es ih =>
    rw [List.map_cons, List.lookup_cons, ih, find?_cons_entity]
    by_cases h : e.id = id
    · simp [h]
    · simp [h, beq_eq_false_iff_ne.mpr (Ne.symm h)]

/-- The directory finds what the search finds, and nothing under the empty id. -/
theorem directory_get?_eq_find? (d : Document) (id : String) :
    d.directory.get? id = if id = "" then none else d.entities.find? (·.id = id) := by
  rw [Directory.get?, directory, OnceMap.get?_ofList, lookup_map_id, List.find?_filter]
  split
  case isTrue hblank =>
    subst hblank
    simp
  case isFalse hid =>
    congr 1
    funext e
    by_cases h : e.id = id <;> simp [h, hid]

theorem of_directory_get? {d : Document} {id : String} {e : Entity}
    (h : d.directory.get? id = some e) : e ∈ d.entities ∧ e.id = id ∧ id ≠ "" := by
  rw [directory_get?_eq_find?] at h
  split at h
  case isTrue => cases h
  case isFalse hid => exact ⟨List.mem_of_find?_eq_some h, by simpa using List.find?_some h, hid⟩

/-- A document has an entity with an id if one stands in it, and then the first such one. -/
theorem directory_get?_eq_some_iff {d : Document} {id : String} {e : Entity} :
    d.directory.get? id = some e ↔ id ≠ "" ∧ e.id = id ∧
      ∃ before after, d.entities = before ++ e :: after ∧ ∀ x ∈ before, x.id ≠ id := by
  rw [directory_get?_eq_find?]
  by_cases hid : id = ""
  · simp [hid]
  · rw [if_neg hid, List.find?_eq_some_iff_append]
    simp [hid]

/-- The directory has one entry for each id that is not empty. -/
theorem size_directory (d : Document) :
    d.directory.byId.size = ((d.entities.map (·.id)).toFinset.erase "").card := by
  rw [directory, OnceMap.size_ofList, List.map_map]
  congr 1
  ext id
  simp only [List.mem_toFinset, Finset.mem_erase, List.mem_map, List.mem_filter, bne_iff_ne]
  constructor
  · rintro ⟨e, ⟨he, hid⟩, rfl⟩
    exact ⟨hid, e, he, rfl⟩
  · rintro ⟨hid, e, he, rfl⟩
    exact ⟨e, ⟨he, hid⟩, rfl⟩

theorem table_mem_entities {d : Document} {t : Table} (h : t ∈ d.tables) :
    .table t ∈ d.entities := by
  obtain ⟨s, hs, ht⟩ : ∃ s, d.schema? = some s ∧ t ∈ s.tables := by
    unfold tables at h
    split at h
    case h_1 s hs => exact ⟨s, hs, h⟩
    case h_2 => cases h
  obtain ⟨m, hm, hs⟩ := Option.bind_eq_some_iff.mp hs
  obtain ⟨c, hc, hs⟩ := Option.bind_eq_some_iff.mp hs
  have htable : .table t ∈ s.entities :=
    List.mem_cons_of_mem _ (List.mem_flatMap.mpr ⟨t, ht, List.mem_cons_self⟩)
  have hschema : .table t ∈ c.entities :=
    List.mem_cons_of_mem _ (List.mem_flatMap.mpr ⟨s, List.mem_of_head? hs, htable⟩)
  have hcatalog : .table t ∈ m.entities :=
    List.mem_cons_of_mem _ (List.mem_flatMap.mpr ⟨c, Option.mem_toList.mpr hc, hschema⟩)
  exact List.mem_flatMap.mpr ⟨m, List.mem_of_head? hm, hcatalog⟩

/-- A document with a single schema consists of it, what it stands in, and its tables. -/
theorem entities_of_requireSingleSchema {d : Document} (h : d.requireSingleSchema = .ok ()) :
    ∃ m c s, d.entities = .model m :: .catalog c :: .schema s :: d.tables.flatMap (·.entities) := by
  unfold requireSingleSchema at h
  split at h
  case h_1 m hmodels =>
    split at h
    case h_1 => cases h
    case h_2 c hcatalog =>
      split at h
      case isTrue hschemata =>
        obtain ⟨s, hs⟩ := List.length_eq_one_iff.mp hschemata
        refine ⟨m, c, s, ?_⟩
        simp [entities, Model.entities, Catalog.entities, Schema.entities, tables, schema?, hmodels,
          hcatalog, hs]
      case isFalse => cases h
  case h_2 => cases h

def DistinctEntityIds (d : Document) : Prop :=
  -- Entities without an id are not meant.
  ((d.entities.map (·.id)).filter (· ≠ "")).Nodup

theorem DistinctEntityIds.pairwise {d : Document} (h : d.DistinctEntityIds) :
    d.entities.Pairwise fun e e' => e.id ≠ "" → e'.id ≠ "" → e.id ≠ e'.id := by
  rw [DistinctEntityIds, List.Nodup, List.pairwise_filter, List.pairwise_map] at h
  simpa using h

/-- With distinct ids, the directory has each entity under its own. -/
theorem DistinctEntityIds.get?_eq_some_iff {d : Document} (h : d.DistinctEntityIds) {id : String}
    (hid : id ≠ "") {e : Entity} :
    d.directory.get? id = some e ↔ e ∈ d.entities ∧ e.id = id := by
  constructor
  · intro hget
    obtain ⟨he, heid, _⟩ := of_directory_get? hget
    exact ⟨he, heid⟩
  · rintro ⟨he, rfl⟩
    obtain ⟨before, after, hsplit⟩ := List.append_of_mem he
    refine directory_get?_eq_some_iff.mpr ⟨hid, rfl, before, after, hsplit, fun x hx hxid => ?_⟩
    have hpairwise := h.pairwise
    rw [hsplit, List.pairwise_append] at hpairwise
    have hne := hpairwise.2.2 x hx e List.mem_cons_self (hxid.trans_ne hid) hid
    exact hne hxid

section

variable {d : Document} (hsingle : d.requireSingleSchema = .ok ()) (hids : d.DistinctEntityIds)
  {id : String} (hid : id ≠ "")

include hsingle

/-- In a document with one schema, the tables among the entities are those of the schema. -/
theorem mem_tables_iff {t : Table} : t ∈ d.tables ↔ .table t ∈ d.entities := by
  obtain ⟨m, c, s, hentities⟩ := entities_of_requireSingleSchema hsingle
  rw [hentities]
  simp [Table.entities]

/-- Columns occur in these tables alone. -/
theorem column_mem_entities_iff {c : Column} :
    .column c ∈ d.entities ↔ ∃ t ∈ d.tables, c ∈ t.columns := by
  obtain ⟨m, c', s, hentities⟩ := entities_of_requireSingleSchema hsingle
  rw [hentities]
  simp [Table.entities]

include hids hid

/-- So the directory and the document find the same table. -/
theorem directory_table?_eq : d.directory.table? id = d.tableById? id := by
  have htable (t : Table) : d.directory.table? id = some t ↔ t ∈ d.tables ∧ t.id = id := by
    rw [Directory.table?_eq_some_iff, hids.get?_eq_some_iff hid, ← mem_tables_iff hsingle]
    rfl
  cases hfound : d.tableById? id with
  | none =>
    rw [Option.eq_none_iff_forall_ne_some]
    intro t ht
    obtain ⟨hmem, heq⟩ := (htable t).mp ht
    exact tableById?_eq_none_iff.mp hfound t hmem heq
  | some t => exact (htable t).mpr (of_tableById?_eq_some hfound)

/-- At most one table has a column with an id. -/
theorem pairwise_owners :
    (d.tables.filter fun t => (t.column? id).isSome).Pairwise fun _ _ => False := by
  obtain ⟨m, c, s, hentities⟩ := entities_of_requireSingleSchema hsingle
  have hpairwise := hids.pairwise
  rw [hentities] at hpairwise
  have htables := (List.pairwise_flatMap.mp hpairwise.of_cons.of_cons.of_cons).2
  rw [List.pairwise_filter]
  apply htables.imp
  intro t t' hdiffer ht ht'
  obtain ⟨c, hc, heq⟩ := Table.isSome_column?_iff.mp ht
  obtain ⟨c', hc', heq'⟩ := Table.isSome_column?_iff.mp ht'
  have hne := hdiffer (.column c) (Table.column_mem_entities hc) (.column c')
    (Table.column_mem_entities hc') (heq.trans_ne hid) (heq'.trans_ne hid)
  exact hne (heq.trans heq'.symm)

/-- The directory has a column if the one table that has a column with its id has it. -/
theorem directory_column?_eq :
    ((∀ t ∈ d.tables, t.column? id = none) ∧ d.directory.column? id = none) ∨
      ∃ t, (d.tables.filter fun t => (t.column? id).isSome) = [t] ∧
        d.directory.column? id = t.column? id := by
  have hcolumn (c : Column) :
      d.directory.column? id = some c ↔ (∃ t ∈ d.tables, c ∈ t.columns) ∧ c.id = id := by
    rw [Directory.column?_eq_some_iff, hids.get?_eq_some_iff hid, column_mem_entities_iff hsingle]
    rfl
  have hpairwise := pairwise_owners hsingle hids hid
  have hmem (t : Table) : t ∈ (d.tables.filter fun t => (t.column? id).isSome) ↔
      t ∈ d.tables ∧ (t.column? id).isSome = true := List.mem_filter
  -- The ids are distinct, so no two tables own a column with this id.
  match howners : d.tables.filter fun t => (t.column? id).isSome with
  | [] =>
    have hnone (t : Table) (ht : t ∈ d.tables) : t.column? id = none := by
      have hnot : (t.column? id).isSome ≠ true := by
        intro hsome
        have howner := (hmem t).mpr ⟨ht, hsome⟩
        rw [howners] at howner
        cases howner
      simpa using hnot
    refine Or.inl ⟨hnone, ?_⟩
    rw [Option.eq_none_iff_forall_ne_some]
    intro c hc
    obtain ⟨⟨t, ht, hct⟩, heq⟩ := (hcolumn c).mp hc
    have hsome := Table.isSome_column?_iff.mpr ⟨c, hct, heq⟩
    rw [hnone t ht] at hsome
    cases hsome
  | [t] =>
    have ht := (hmem t).mp (by rw [howners]; exact List.mem_singleton_self t)
    obtain ⟨c, hc⟩ := Option.isSome_iff_exists.mp ht.2
    refine Or.inr ⟨t, howners, ?_⟩
    rw [hc]
    obtain ⟨hct, heq⟩ := Table.of_column?_eq_some hc
    exact (hcolumn c).mpr ⟨⟨t, ht.1, hct⟩, heq⟩
  | t :: t' :: rest =>
    rw [howners] at hpairwise
    exact (List.rel_of_pairwise_cons hpairwise List.mem_cons_self).elim

end

/-- The directory agrees with the look-ups in a document with a single schema: of a table among its
tables, and of a column in the one table that has it. No entity with an id is missing. -/
structure AgreesWithTables (d : Document) : Prop where
  table? : ∀ id, id ≠ "" → d.directory.table? id = d.tableById? id
  column? : ∀ id, id ≠ "" →
    ((∀ t ∈ d.tables, t.column? id = none) ∧ d.directory.column? id = none) ∨
      ∃ t, (d.tables.filter fun t => (t.column? id).isSome) = [t] ∧
        d.directory.column? id = t.column? id
  find : ∀ e ∈ d.entities, e.id ≠ "" → d.directory.find e.id = .ok e

/-- The directory of a document gives the entity that a search through the document comes upon
first, and knows as many ids as there are. If the entities of a single schema have ids of their own,
then it agrees with the look-ups in the schema. -/
theorem directory_inverts (d : Document) :
    (∀ id, d.directory.get? id = if id = "" then none else d.entityById? id) ∧
      (∀ id e, d.directory.get? id = some e ↔ id ≠ "" ∧ e.id = id ∧
        ∃ before after, d.entities = before ++ e :: after ∧ ∀ x ∈ before, x.id ≠ id) ∧
      d.directory.byId.size = ((d.entities.map (·.id)).toFinset.erase "").card ∧
      (d.requireSingleSchema = .ok () → d.DistinctEntityIds → d.AgreesWithTables) := by
  refine ⟨?_, fun id e => directory_get?_eq_some_iff, size_directory d, ?_⟩
  · intro id
    rw [directory_get?_eq_find?, find?_entities]
  · intro hsingle hids
    refine ⟨?table?, ?column?, ?find⟩
    case table? => exact fun id hid => directory_table?_eq hsingle hids hid
    case column? => exact fun id hid => directory_column?_eq hsingle hids hid
    case find =>
      intro e he hid
      rw [Directory.find, (hids.get?_eq_some_iff hid).mpr ⟨he, rfl⟩]

def orderDocument : Document :=
  let users : Table :=
    { id := "t1"
      name := "users"
      columns := [{ id := "c1", name := "id" }]
      indices := [{ id := "i1", columns := [{ id := "x1", referencedColumn := "c1" }] }] }
  let orders : Table :=
    { id := "t2"
      name := "orders"
      columns := [{ name := "id" }, { id := "c2", name := "user_id" }]
      foreignKeys := [{ id := "f1", referencedTable := "t1", columns := ["c2"] }] }
  let schema : Schema := { id := "s", tables := [users, orders] }
  { models := [{ id := "m", catalog := some { schemata := [schema] } }] }

/-- The first column of the second table has no id, so the search passes it over. -/
theorem directory_inverts_orderDocument :
    orderDocument.requireSingleSchema = .ok () ∧ orderDocument.DistinctEntityIds ∧
      (orderDocument.directory.column? "c2").map (·.name) = some "user_id" ∧
      orderDocument.AgreesWithTables := by
  have hsingle : orderDocument.requireSingleSchema = .ok () := rfl
  have hids : orderDocument.DistinctEntityIds := by
    unfold DistinctEntityIds
    decide +kernel
  exact ⟨hsingle, hids, by decide +kernel, (directory_inverts orderDocument).2.2.2 hsingle hids⟩

end Document
end SchemaMigration
