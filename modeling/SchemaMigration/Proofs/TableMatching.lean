import Mathlib.Data.List.Nodup
import SchemaMigration.Document.Difference
import SchemaMigration.Document.Reading

namespace SchemaMigration
namespace Document

theorem tableById?_eq_none_iff {d : Document} {id : String} :
    d.tableById? id = none ↔ ∀ t ∈ d.tables, t.id ≠ id := by
  simp [tableById?]

theorem of_tableById?_eq_some {d : Document} {id : String} {t : Table}
    (h : d.tableById? id = some t) : t ∈ d.tables ∧ t.id = id := by
  rw [tableById?] at h
  exact ⟨List.mem_of_find?_eq_some h, by simpa using List.find?_some h⟩

/-- With distinct ids, the search finds each table under its own. -/
theorem tableById?_eq_some_iff {d : Document} (hids : (d.tables.map (·.id)).Nodup) {id : String}
    {t : Table} : d.tableById? id = some t ↔ t ∈ d.tables ∧ t.id = id := by
  constructor
  · exact of_tableById?_eq_some
  · rintro ⟨ht, rfl⟩
    cases hfound : d.tableById? t.id with
    | none => exact absurd rfl (tableById?_eq_none_iff.mp hfound t ht)
    | some t' =>
      obtain ⟨ht', hid⟩ := of_tableById?_eq_some hfound
      rw [List.inj_on_of_nodup_map hids ht' ht hid]

theorem knows_eq_false_iff {d : Document} {id : String} :
    d.knows id = false ↔ d.ids.contains id = false ∧ ∀ t ∈ d.tables, t.id ≠ id := by
  rw [knows, Bool.or_eq_false_iff, Option.isSome_eq_false_iff, Option.isNone_iff_eq_none,
    tableById?_eq_none_iff]

/-- A table is unknown to the other document if its id occurs nowhere in it. -/
theorem mem_tablesUnknownTo {d other : Document} {t : Table} :
    t ∈ d.tablesUnknownTo other ↔ t ∈ d.tables ∧ other.ids.contains t.id = false ∧
      ∀ t' ∈ other.tables, t'.id ≠ t.id := by
  rw [tablesUnknownTo, List.mem_filter, Bool.not_eq_true', knows_eq_false_iff]

/-- A table is renamed if the one with its id has another name. -/
theorem mem_tablesRenamedFrom {d old : Document} (hids : (old.tables.map (·.id)).Nodup)
    {t : Table} :
    t ∈ d.tablesRenamedFrom old ↔
      t ∈ d.tables ∧ ∃ before ∈ old.tables, before.id = t.id ∧ before.name ≠ t.name := by
  rw [tablesRenamedFrom, List.mem_filter, Option.any_eq_true]
  simp only [tableById?_eq_some_iff hids, bne_iff_ne, and_assoc]

inductive TableChange where
  | created
  | renamed
  | kept
  | masked
  deriving DecidableEq, Repr

/-- What has become of a table of a document since an earlier one. It is masked if the earlier
document has its id for an object that is none of its tables. -/
def Undergoes (new old : Document) (t : Table) : TableChange → Prop
  | .created => t ∈ (new.difference (some old)).created
  | .renamed => t ∈ (new.difference (some old)).renamed
  | .kept => ∃ before ∈ old.tables, before.id = t.id ∧ before.name = t.name
  | .masked => old.ids.contains t.id = true ∧ ∀ before ∈ old.tables, before.id ≠ t.id

/-- A table is created if the old document does not know its id. -/
theorem undergoes_created_iff {new old : Document} {t : Table} (ht : t ∈ new.tables) :
    new.Undergoes old t .created ↔
      old.ids.contains t.id = false ∧ ∀ before ∈ old.tables, before.id ≠ t.id := by
  rw [Undergoes, difference, mem_tablesUnknownTo, and_iff_right ht]

theorem undergoes_renamed_iff {new old : Document} (hids : (old.tables.map (·.id)).Nodup)
    {t : Table} (ht : t ∈ new.tables) :
    new.Undergoes old t .renamed ↔
      ∃ before ∈ old.tables, before.id = t.id ∧ before.name ≠ t.name := by
  rw [Undergoes, difference, mem_tablesRenamedFrom hids, and_iff_right ht]

/-- If the earlier document has the table, then the names tell what has become of it. -/
theorem undergoes_iff_of_mem {new old : Document} (hids : (old.tables.map (·.id)).Nodup)
    {t before : Table} (ht : t ∈ new.tables) (hbefore : before ∈ old.tables)
    (hid : before.id = t.id) (change : TableChange) :
    new.Undergoes old t change ↔ change = if before.name = t.name then .kept else .renamed := by
  -- No other earlier table has the id, so every search ends at this one.
  have honly {before' : Table} (hbefore' : before' ∈ old.tables) (hid' : before'.id = t.id) :
      before' = before := List.inj_on_of_nodup_map hids hbefore' hbefore (hid'.trans hid.symm)
  cases change with
  | created =>
    rw [undergoes_created_iff ht]
    have hnot : ¬∀ b ∈ old.tables, b.id ≠ t.id := fun h => h before hbefore hid
    by_cases hname : before.name = t.name <;> simp [hnot, hname]
  | masked =>
    have hnot : ¬∀ b ∈ old.tables, b.id ≠ t.id := fun h => h before hbefore hid
    by_cases hname : before.name = t.name <;> simp [Undergoes, hnot, hname]
  | renamed =>
    rw [undergoes_renamed_iff hids ht]
    have hrenamed : (∃ b ∈ old.tables, b.id = t.id ∧ b.name ≠ t.name) ↔ before.name ≠ t.name := by
      constructor
      · rintro ⟨b, hb, hbid, hbname⟩
        exact honly hb hbid ▸ hbname
      · intro hname
        exact ⟨before, hbefore, hid, hname⟩
    rw [hrenamed]
    by_cases hname : before.name = t.name <;> simp [hname]
  | kept =>
    have hkept : new.Undergoes old t .kept ↔ before.name = t.name := by
      constructor
      · rintro ⟨b, hb, hbid, hbname⟩
        exact honly hb hbid ▸ hbname
      · intro hname
        exact ⟨before, hbefore, hid, hname⟩
    rw [hkept]
    by_cases hname : before.name = t.name <;> simp [hname]

/-- If it does not have it, then its knowledge of the id does. -/
theorem undergoes_iff_of_forall_ne {new old : Document} (hids : (old.tables.map (·.id)).Nodup)
    {t : Table} (ht : t ∈ new.tables) (hnone : ∀ before ∈ old.tables, before.id ≠ t.id)
    (change : TableChange) :
    new.Undergoes old t change ↔
      change = if old.ids.contains t.id = true then .masked else .created := by
  have hno (P : Table → Prop) : ¬∃ before ∈ old.tables, before.id = t.id ∧ P before :=
    fun ⟨before, hbefore, hid, _⟩ => hnone before hbefore hid
  cases change with
  | created =>
    rw [undergoes_created_iff ht, and_iff_left hnone]
    cases old.ids.contains t.id <;> simp
  | masked =>
    rw [Undergoes, and_iff_left hnone]
    cases old.ids.contains t.id <;> simp
  | renamed =>
    rw [undergoes_renamed_iff hids ht, iff_false_intro (hno _)]
    cases old.ids.contains t.id <;> simp
  | kept =>
    rw [Undergoes, iff_false_intro (hno _)]
    cases old.ids.contains t.id <;> simp

/-- Every table has undergone one change and no other, and every earlier table is dropped unless
its id is known. A table is missed only if its id is that of an object which is no table. -/
theorem difference_accounts (new old : Document) (hids : (old.tables.map (·.id)).Nodup) :
    (∀ t ∈ new.tables, ∃! change, new.Undergoes old t change) ∧
      (∀ t ∈ old.tables, t ∈ (new.difference (some old)).dropped ∨
        (∃ t' ∈ new.tables, t'.id = t.id) ∨
        (new.ids.contains t.id = true ∧ ∀ t' ∈ new.tables, t'.id ≠ t.id)) ∧
      ∀ t ∈ new.tables, old.ids.contains t.id = false → (∀ t' ∈ old.tables, t'.id ≠ t.id) →
        t ∈ (new.difference (some old)).created := by
  refine ⟨?_, ?_, ?_⟩
  · intro t ht
    by_cases hbefore : ∃ before ∈ old.tables, before.id = t.id
    · obtain ⟨before, hbefore, hid⟩ := hbefore
      have hiff := undergoes_iff_of_mem hids ht hbefore hid
      exact ⟨_, (hiff _).mpr rfl, fun change h => (hiff change).mp h⟩
    · have hnone : ∀ before ∈ old.tables, before.id ≠ t.id :=
        fun before hb hid => hbefore ⟨before, hb, hid⟩
      have hiff := undergoes_iff_of_forall_ne hids ht hnone
      exact ⟨_, (hiff _).mpr rfl, fun change h => (hiff change).mp h⟩
  · intro t ht
    by_cases hstill : ∃ t' ∈ new.tables, t'.id = t.id
    · exact Or.inr (Or.inl hstill)
    · have hnone : ∀ t' ∈ new.tables, t'.id ≠ t.id := fun t' ht' hid => hstill ⟨t', ht', hid⟩
      cases hknown : new.ids.contains t.id with
      | true => exact Or.inr (Or.inr ⟨rfl, hnone⟩)
      | false => exact Or.inl (mem_tablesUnknownTo.mpr ⟨ht, hknown, hnone⟩)
  · intro t ht hunknown hnone
    exact mem_tablesUnknownTo.mpr ⟨ht, hunknown, hnone⟩

def schemaTree (schemaId : String) (tables : List Element) : Element :=
  let schema := ((Element.object "db.mysql.Schema").setId schemaId).addChild
    ((Element.list.addChildren tables).setKey "tables")
  let catalog := (Element.object "db.mysql.Catalog").addChild
    ((Element.list.addChild schema).setKey "schemata")
  let model := (Element.object "workbench.physical.Model").addChild (catalog.setKey "catalog")
  Element.data [(Element.object "workbench.Document").addChild
    ((Element.list.addChild model).setKey "physicalModels")]

def tableTree (id name : String) : Element :=
  ((Element.object "db.mysql.Table").setId id).addChild ((Element.string name).setKey "name")

/-- One table is renamed, one is new, one is gone, one stays, and one is masked by the id of the
earlier schema. -/
theorem difference_accounts_renaming :
    ∃ new old,
      readSingle (schemaTree "s" [tableTree "1" "members", tableTree "2" "posts",
        tableTree "4" "comments", tableTree "5" "tags"]) = .ok new ∧
      readSingle (schemaTree "4" [tableTree "1" "users", tableTree "2" "posts",
        tableTree "3" "likes"]) = .ok old ∧
      (old.tables.map (·.id)).Nodup ∧
      (∀ t ∈ new.tables, ∃! change, new.Undergoes old t change) ∧
      (∀ t ∈ old.tables, t ∈ (new.difference (some old)).dropped ∨
        (∃ t' ∈ new.tables, t'.id = t.id) ∨
        (new.ids.contains t.id = true ∧ ∀ t' ∈ new.tables, t'.id ≠ t.id)) ∧
      ∀ t ∈ new.tables, old.ids.contains t.id = false → (∀ t' ∈ old.tables, t'.id ≠ t.id) →
        t ∈ (new.difference (some old)).created := by
  refine ⟨_, _, rfl, rfl, ?_⟩
  have hids : (["1", "2", "3"] : List String).Nodup := by decide
  exact ⟨hids, difference_accounts _ _ hids⟩

/-- A table can be new and missed by the difference, although the ids of the tables of both
documents are all set and differ: here the schema of the earlier document has its id. -/
theorem masked_of_schema_id :
    ∃ new old,
      readSingle (schemaTree "s" [tableTree "t" "posts"]) = .ok new ∧
      readSingle (schemaTree "t" []) = .ok old ∧
      ((new.tables.map (·.id)).Nodup ∧ ∀ t ∈ new.tables, t.id ≠ "") ∧
      ((old.tables.map (·.id)).Nodup ∧ ∀ t ∈ old.tables, t.id ≠ "") ∧
      ∃ t ∈ new.tables, (∀ before ∈ old.tables, before.id ≠ t.id) ∧
        t ∉ (new.difference (some old)).created ∧ t ∉ (new.difference (some old)).renamed := by
  refine ⟨_, _, rfl, rfl, ?_⟩
  decide +kernel

end Document
end SchemaMigration
