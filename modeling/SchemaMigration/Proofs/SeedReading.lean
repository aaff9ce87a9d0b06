import SchemaMigration.Proofs.Outcome
import SchemaMigration.Seed

namespace SchemaMigration
namespace RowStore

def dataNames (names : List String) : List String :=
  names.filter (· != procedureTable)

def FirstUnread (store : RowStore) (names : List String) (cause : String) : Prop :=
  ∃ before name after, names = before ++ name :: after ∧
    (∀ n ∈ before, n ≠ procedureTable → ∃ t, store.readTable n = .ok t) ∧
    name ≠ procedureTable ∧ store.readTable name = .error cause

/-- Two stores differ at most in the table of the procedures: in where they name it, and in what
they read for it. -/
structure SameData (store store' : RowStore) : Prop where
  tableNames_eq : store.tableNames.map dataNames = store'.tableNames.map dataNames
  readTable_eq : ∀ name, name ≠ procedureTable → store.readTable name = store'.readTable name

theorem mem_dataNames {names : List String} {name : String} :
    name ∈ dataNames names ↔ name ∈ names ∧ name ≠ procedureTable := by
  simp [dataNames]

def readData (store : RowStore) (name : String) : Except DocumentError SeedTable :=
  (store.readTable name).mapError .rowStore

/-- The names are read first, and then the rows of each of the tables that hold data. -/
theorem readAll_eq (store : RowStore) :
    store.readAll = (do
      let names ← (store.tableNames.map dataNames).mapError .rowStore
      names.mapM store.readData) := by
  unfold readAll
  cases store.tableNames <;> rfl

/-- What is read depends on the names and on the rows of these tables alone. -/
theorem readAll_eq_of_sameData {store store' : RowStore} (h : SameData store store') :
    store.readAll = store'.readAll := by
  rw [readAll_eq, readAll_eq, h.tableNames_eq]
  cases hnames : store'.tableNames with
  | error e => rfl
  | ok names =>
    apply mapM_congr
    intro name hname
    rw [readData, readData, h.readTable_eq name (mem_dataNames.mp hname).2]

section

variable {store : RowStore} {names : List String} (h : store.tableNames = .ok names)
include h

theorem readAll_eq_mapM : store.readAll = (dataNames names).mapM store.readData := by
  rw [readAll_eq, h]
  rfl

/-- All tables are read, in the order of their names, if each of them is. -/
theorem readAll_eq_ok_iff {tables : List SeedTable} :
    store.readAll = .ok tables ↔
      List.Forall₂ (fun name t => store.readTable name = .ok t) (dataNames names) tables := by
  simp only [readAll_eq_mapM h, mapM_eq_ok_iff, readData, mapError_eq_ok_iff]

theorem exists_readAll_eq_ok_iff :
    (∃ tables, store.readAll = .ok tables) ↔
      ∀ name ∈ names, name ≠ procedureTable → ∃ t, store.readTable name = .ok t := by
  simp only [readAll_eq_mapM h, exists_mapM_eq_ok_iff, mem_dataNames, and_imp, readData,
    mapError_eq_ok_iff]

/-- The error is that of the first table that is not read. -/
theorem readAll_eq_error_iff {e : DocumentError} :
    store.readAll = .error e ↔ ∃ cause, store.FirstUnread names cause ∧ e = .rowStore cause := by
  rw [readAll_eq_mapM h, dataNames, mapM_filter_eq_error_iff]
  simp only [FirstUnread, exists_mapM_eq_ok_iff, List.mem_filter, bne_iff_ne, and_imp, readData,
    mapError_eq_ok_iff, mapError_eq_error_iff]
  constructor
  · rintro ⟨before, name, after, hsplit, hbefore, hname, cause, hcause, he⟩
    exact ⟨cause, ⟨before, name, after, hsplit, hbefore, hname, hcause⟩, he⟩
  · rintro ⟨cause, ⟨before, name, after, hsplit, hbefore, hname, hcause⟩, he⟩
    exact ⟨before, name, after, hsplit, hbefore, hname, cause, hcause, he⟩

end

/-- If the names of the tables cannot be had, then their error stops the reading. Otherwise the
tables are read if and only if each of them, that of the procedures aside, can be read by itself;
there is one for each time that it is named, in the order of the names. If they are not read, the
error is that of the first one which cannot be read. So stores that differ only in the table of the
procedures give the same, and that table need not be readable. -/
theorem readAll_outcome (store : RowStore) :
    (∀ cause, store.tableNames = .error cause → store.readAll = .error (.rowStore cause)) ∧
      (∀ names, store.tableNames = .ok names →
        (∀ tables, store.readAll = .ok tables ↔
          List.Forall₂ (fun name t => store.readTable name = .ok t) (dataNames names) tables) ∧
        ((∃ tables, store.readAll = .ok tables) ↔
          ∀ name ∈ names, name ≠ procedureTable → ∃ t, store.readTable name = .ok t) ∧
        ∀ e, store.readAll = .error e ↔
          ∃ cause, store.FirstUnread names cause ∧ e = .rowStore cause) ∧
      ∀ store', SameData store store' → store.readAll = store'.readAll := by
  refine ⟨?_, ?_, fun store' => readAll_eq_of_sameData⟩
  · intro cause h
    rw [readAll_eq, h]
    rfl
  · intro names h
    exact ⟨fun tables => readAll_eq_ok_iff h, exists_readAll_eq_ok_iff h,
      fun e => readAll_eq_error_iff h⟩

/-- A store with a table without rows for each name but `lost`, and with some outcome for the
procedures. -/
def emptyTables (names : List String) (procedures : Except String SeedTable) : RowStore where
  tableNames := .ok names
  readTable name :=
    if name = "XP_PROC" then procedures
    else if name = "lost" then .error "no such table: lost"
    else .ok { name }

/-- A table that is named twice is read twice, procedures that cannot be read are passed over, and
a store without them gives the same. -/
theorem readAll_outcome_emptyTables :
    let names := ["XP_PROC", "users", "ghost", "users"]
    let store := emptyTables names (.error "locked")
    let store' := emptyTables ["users", "ghost", "users"] (.ok {})
    let broken := emptyTables ["users", "XP_PROC", "lost", "ghost"] (.error "locked")
    store.readAll = .ok [{ name := "users" }, { name := "ghost" }, { name := "users" }] ∧
      SameData store store' ∧ store.readAll = store'.readAll ∧
      broken.readAll = .error (.rowStore "no such table: lost") := by
  intro names store store' broken
  have hsame : SameData store store' := by
    constructor
    · rfl
    · intro name hname
      have hother : name ≠ "XP_PROC" := hname
      simp [store, store', emptyTables, hother]
  refine ⟨?_, hsame, (readAll_outcome store).2.2 store' hsame, ?_⟩
  · apply (((readAll_outcome store).2.1 names rfl).1 _).mpr
    exact .cons rfl (.cons rfl (.cons rfl .nil))
  · apply (((readAll_outcome broken).2.1 _ rfl).2.2 _).mpr
    refine ⟨_, ⟨["users", "XP_PROC"], "lost", ["ghost"], rfl, ?_, by decide, rfl⟩, rfl⟩
    intro n hn hname
    rcases List.mem_cons.mp hn with rfl | hn
    · exact ⟨{ name := "users" }, rfl⟩
    · exact absurd (List.mem_singleton.mp hn) hname

end RowStore
end SchemaMigration
