import Mathlib.Data.List.Basic
import Mathlib.Data.List.Nodup
import SchemaMigration.Proofs.MigrationRun

/-!
Where the indices of a table go. An index of one column is chained to that column; an index of any
other number of columns has a statement of its own. A column keeps one call for each category, so
of several indices of one category on it the last one stands there.
-/

namespace SchemaMigration

theorem ofIndex_injective : Function.Injective Modifier.ofIndex := by
  intro k k' h
  cases k <;> cases k' <;> simp_all [Modifier.ofIndex]

def lastOfCategory (k : IndexCategory) (is : List Index) : Option Index :=
  (is.filter (·.category? = some k)).getLast?

theorem lastOfCategory_cons (k : IndexCategory) (i : Index) (is : List Index) :
    lastOfCategory k (i :: is) =
      (lastOfCategory k is).or (if i.category? = some k then some i else none) := by
  by_cases hi : i.category? = some k
  · simp only [lastOfCategory, List.filter_cons, hi, decide_true, if_true, List.getLast?_cons]
    cases (is.filter (·.category? = some k)).getLast? <;> rfl
  · simp [lastOfCategory, hi]

theorem lastOfCategory_eq_some {k : IndexCategory} {is : List Index} {i : Index}
    (h : lastOfCategory k is = some i) : i ∈ is ∧ i.category? = some k := by
  have hmem := List.mem_filter.mp (List.mem_of_getLast? h)
  exact ⟨hmem.1, of_decide_eq_true hmem.2⟩

theorem exists_lastOfCategory {k : IndexCategory} {is : List Index} {i : Index} (hi : i ∈ is)
    (hk : i.category? = some k) : ∃ last, lastOfCategory k is = some last := by
  have hmem : i ∈ is.filter (·.category? = some k) := List.mem_filter.mpr ⟨hi, by simp [hk]⟩
  exact ⟨_, List.getLast?_eq_some_getLast (List.ne_nil_of_mem hmem)⟩

/-- Two indices of a category are chained by the same call if they have one name, and primary ones
in any case. -/
theorem chainArgs_eq_iff {i j : Index} {k : IndexCategory} :
    i.chainArgs k = j.chainArgs k ↔ k = .primary ∨ i.name = j.name := by
  by_cases hk : k = .primary
  · simp [Index.chainArgs, hk]
  · by_cases hi : i.name = "" <;> by_cases hj : j.name = "" <;>
      simp [Index.chainArgs, hk, hi, hj, eq_comm]

namespace ColumnDefinition

/-- The declaration takes up an index: by the chained call of its category with its name, if it has
one and is not primary, or, if it is primary, by a method that declares a key. -/
def TakesUp (d : ColumnDefinition) (i : Index) : Prop :=
  ∃ k, i.category? = some k ∧
    (k = .primary ∧ d.declaresKey = true ∨ (Modifier.ofIndex k, i.chainArgs k) ∈ d.modifiers)

@[simp] theorem declaresKey_set (d : ColumnDefinition) (k : Modifier) (args : List Literal) :
    (d.set k args).declaresKey = d.declaresKey := rfl

@[simp] theorem declaresKey_setSome (d : ColumnDefinition) (k : Modifier)
    (args : Option (List Literal)) : (d.setSome k args).declaresKey = d.declaresKey := by
  cases args <;> rfl

theorem declaresKey_addIndex {d d' : ColumnDefinition} {i : Index} (h : d.addIndex i = .ok d') :
    d'.declaresKey = d.declaresKey := by
  obtain ⟨k, _, ⟨_, _, rfl⟩ | ⟨_, rfl⟩⟩ := addIndex_eq_ok h
  · rfl
  · exact declaresKey_set d _ _

/-- One index sets the call of its category and no other one. -/
theorem modifier?_addIndex {d d' : ColumnDefinition} {i : Index} (h : d.addIndex i = .ok d')
    (k : IndexCategory) :
    d'.modifier? (.ofIndex k) =
      if k = .primary ∧ d.declaresKey = true then d.modifier? (.ofIndex k)
      else if i.category? = some k then some (i.chainArgs k) else d.modifier? (.ofIndex k) := by
  obtain ⟨k', hk', ⟨rfl, hkey, rfl⟩ | ⟨hkey, rfl⟩⟩ := addIndex_eq_ok h
  · by_cases hk : k = .primary
    · simp [hk, hkey]
    · simp [hk, hk', Ne.symm hk]
  · rw [modifier?_set, hk']
    by_cases hk : k = k'
    · subst hk
      simp [hkey]
    · simp [ofIndex_injective.eq_iff, hk, Ne.symm hk]

/-- Of several indices the last one of each category stands in the declaration. -/
theorem modifier?_addIndices {is : List Index} {d d' : ColumnDefinition}
    (h : is.foldlM addIndex d = .ok d') (k : IndexCategory) :
    d'.declaresKey = d.declaresKey ∧
      d'.modifier? (.ofIndex k) =
        if k = .primary ∧ d.declaresKey = true then d.modifier? (.ofIndex k)
        else ((lastOfCategory k is).map (·.chainArgs k)).or (d.modifier? (.ofIndex k)) := by
  induction is generalizing d with
  | nil =>
    cases h
    simp [lastOfCategory]
  | cons i is ih =>
    rw [List.foldlM_cons] at h
    obtain ⟨d₁, hfirst, hrest⟩ := bind_eq_ok_iff.mp h
    -- The method stays, so the guard of the primary category is the same at each index.
    have hkey : d₁.declaresKey = d.declaresKey := declaresKey_addIndex hfirst
    obtain ⟨hkey', hrest⟩ := ih hrest
    refine ⟨hkey'.trans hkey, ?_⟩
    rw [hrest, hkey, modifier?_addIndex hfirst, lastOfCategory_cons]
    by_cases hp : k = .primary ∧ d.declaresKey = true
    · simp [hp]
    · by_cases hi : i.category? = some k
      · cases lastOfCategory k is <;> simp [hp, hi]
      · simp [hp, hi]

theorem category_of_addIndices {is : List Index} {d d' : ColumnDefinition}
    (h : is.foldlM addIndex d = .ok d') : ∀ i ∈ is, ∃ k, i.category? = some k := by
  induction is generalizing d with
  | nil => simp
  | cons i is ih =>
    rw [List.foldlM_cons] at h
    obtain ⟨d₁, hfirst, hrest⟩ := bind_eq_ok_iff.mp h
    intro j hj
    rcases List.mem_cons.mp hj with rfl | hj
    · obtain ⟨k, hk, _⟩ := addIndex_eq_ok hfirst
      exact ⟨k, hk⟩
    · exact ih hrest j hj

end ColumnDefinition

theorem Index.onlyColumn?_eq_some_iff {i : Index} {id : String} :
    i.onlyColumn? = some id ↔ i.columns.map (·.referencedColumn) = [id] := by
  unfold onlyColumn?
  match i.columns with
  | [] => simp
  | [x] => simp
  | x :: y :: rest => simp

namespace Table

/-- The indices that no column takes up are those that have any number of columns but one. -/
theorem tableIndices_eq (t : Table) :
    t.tableIndices = t.indices.filter (·.columns.length ≠ 1) := by
  apply List.filter_congr
  intro i _
  rw [Index.spansOneColumn, decide_not]
  rfl

/-- The indices of a column are those that have it as their only column. -/
theorem mem_columnIndices {t : Table} {c : Column} {i : Index} :
    i ∈ t.columnIndices c ↔ i ∈ t.indices ∧ i.onlyColumn? = some c.id := by
  simp [columnIndices]

/-- The chained calls of the categories come from the indices of the column alone. -/
theorem modifier?_columnDefinition_index {t : Table} {c : Column} {d : ColumnDefinition}
    (h : t.columnDefinition c = .ok d) (k : IndexCategory) :
    d.modifier? (.ofIndex k) =
      if k = .primary ∧ d.declaresKey = true then none
      else (lastOfCategory k (t.columnIndices c)).map (·.chainArgs k) := by
  obtain ⟨type, indexed, _, hindexed, rfl⟩ := columnDefinition_eq_ok h
  obtain ⟨hkey, hmodifier⟩ := ColumnDefinition.modifier?_addIndices hindexed k
  -- No call of a category stands there before the indices, and none is added behind them.
  have hbefore : (t.plainDefinition c (type.definition c)).modifier? (.ofIndex k) = none := by
    cases k <;> simp [plainDefinition, Modifier.ofIndex, modifier?_definition]
  have hbehind : (t.completeDefinition c indexed).modifier? (.ofIndex k) =
      indexed.modifier? (.ofIndex k) := by
    cases k <;> simp [completeDefinition, Modifier.ofIndex]
  have hkey' : (t.completeDefinition c indexed).declaresKey = indexed.declaresKey := by
    simp [completeDefinition]
  rw [hbehind, hmodifier, hbefore, hkey', hkey, Option.or_none]

theorem category_of_mem_columnIndices {t : Table} {c : Column} {d : ColumnDefinition}
    (h : t.columnDefinition c = .ok d) : ∀ i ∈ t.columnIndices c, ∃ k, i.category? = some k := by
  obtain ⟨type, indexed, _, hindexed, _⟩ := columnDefinition_eq_ok h
  exact ColumnDefinition.category_of_addIndices hindexed

/-- A column takes up the last of its indices of each category, and of the others those that have
the same call. -/
theorem takesUp_iff {t : Table} {c : Column} {d : ColumnDefinition}
    (h : t.columnDefinition c = .ok d) {i : Index} (hi : i ∈ t.columnIndices c) :
    ∃ k last, i.category? = some k ∧ lastOfCategory k (t.columnIndices c) = some last ∧
      d.TakesUp last ∧ (d.TakesUp i ↔ k = .primary ∨ i.name = last.name) := by
  obtain ⟨k, hk⟩ := category_of_mem_columnIndices h i hi
  obtain ⟨last, hlast⟩ := exists_lastOfCategory hi hk
  have hcategory : last.category? = some k := (lastOfCategory_eq_some hlast).2
  have hmodifier := modifier?_columnDefinition_index h k
  have htakes (j : Index) (hj : j.category? = some k) :
      d.TakesUp j ↔ k = .primary ∨ j.name = last.name := by
    rw [hlast, Option.map_some] at hmodifier
    unfold ColumnDefinition.TakesUp
    simp only [hj, Option.some.injEq, exists_eq_left', ColumnDefinition.mem_modifiers, hmodifier]
    by_cases hkey : k = .primary ∧ d.declaresKey = true
    · simp [hkey]
    · simp only [hkey, if_false, Option.some.injEq, false_or]
      rw [chainArgs_eq_iff, eq_comm (a := last.name)]
  exact ⟨k, last, hk, hlast, (htakes last hcategory).mpr (Or.inr rfl), htakes i hk⟩

theorem length_filter_id_le {t : Table} (hids : (t.columns.map (·.id)).Nodup) (id : String) :
    (t.columns.filter (·.id = id)).length ≤ 1 := by
  have hcount : (t.columns.map (·.id)).count id ≤ 1 := List.nodup_iff_count_le_one.mp hids id
  rw [List.count_eq_countP, List.countP_map, List.countP_eq_length_filter] at hcount
  exact hcount

/-- With distinct ids, the column that is found is the only one with its id. -/
theorem toList_column? {t : Table} (hids : (t.columns.map (·.id)).Nodup) (id : String) :
    (t.column? id).toList = t.columns.filter (·.id = id) := by
  have hle := length_filter_id_le hids id
  have hhead : t.column? id = (t.columns.filter (·.id = id)).head? := by
    rw [List.head?_filter]
    rfl
  rw [hhead]
  cases hmatches : t.columns.filter (·.id = id) with
  | nil => rfl
  | cons c rest =>
    rw [hmatches, List.length_cons] at hle
    have hrest : rest = [] := List.eq_nil_of_length_eq_zero (by omega)
    rw [hrest]
    rfl

/-- A table-level index lists the names of those of its columns that the table has, in order. -/
theorem columns_indexDefinition {t : Table} (hids : (t.columns.map (·.id)).Nodup) {i : Index}
    {d : IndexDefinition} (h : t.indexDefinition i = .ok d) :
    ∃ k, i.category? = some k ∧
      d = { method := k.tableMethod
            columns := i.columns.flatMap fun x =>
              (t.columns.filter (·.id = x.referencedColumn)).map (·.name) } := by
  obtain ⟨k, hk, hmethod, hcolumns⟩ := indexDefinition_eq_ok h
  refine ⟨k, hk, ?_⟩
  rw [List.filterMap_eq_flatMap_toList, List.map_flatMap] at hcolumns
  simp only [toList_column? hids] at hcolumns
  cases d with
  | mk method columns =>
    cases hmethod
    cases hcolumns
    rfl

structure Declares (t : Table) (columns : List ColumnDefinition)
    (indices : List IndexDefinition) : Prop where
  /-- An index of one column belongs to that column. Of those of its category that belong there
  too, the last one is taken up, and this one if it goes by the same call. -/
  chained : List.Forall₂ (fun c d => ∀ i ∈ t.indices, ∀ x, i.columns = [x] →
    x.referencedColumn = c.id → ∃ k last, i.category? = some k ∧
      lastOfCategory k (t.columnIndices c) = some last ∧ d.TakesUp last ∧
      (d.TakesUp i ↔ k = .primary ∨ i.name = last.name)) t.columns columns
  /-- Each other index has one statement, with the names of those of its columns that the table
  has. -/
  separate : List.Forall₂ (fun i d => ∃ k, i.category? = some k ∧
    d = { method := k.tableMethod
          columns := i.columns.flatMap fun x =>
            (t.columns.filter (·.id = x.referencedColumn)).map (·.name) })
    (t.indices.filter (·.columns.length ≠ 1)) indices

/-- The statements of a table declare its indices. -/
theorem declares_of_definitions {t : Table} (hids : (t.columns.map (·.id)).Nodup)
    {columns : List ColumnDefinition} {indices : List IndexDefinition}
    (h : t.definitions = .ok (columns, indices)) : t.Declares columns indices := by
  obtain ⟨hcolumns, hindices⟩ := definitions_eq_ok_iff.mp h
  refine ⟨?_, ?_⟩
  · refine (mapM_eq_ok_iff.mp hcolumns).imp ?_
    intro c d hd i hi x hx href
    apply takesUp_iff hd
    rw [mem_columnIndices, Index.onlyColumn?, hx]
    exact ⟨hi, congrArg some href⟩
  · rw [← tableIndices_eq]
    exact (mapM_eq_ok_iff.mp hindices).imp fun i d hd => columns_indexDefinition hids hd

/-- A table that is created declares its indices: each index of one column with that column, unless
a later one of its category and of another name is declared there in its place, and every other
index by a statement of its own. -/
theorem declares_of_createTable (t : Table) (m m' : Migration)
    (hids : (t.columns.map (·.id)).Nodup) (h : m.apply (.createTable t) = (.ok (), m')) :
    ∃ columns indices, t.definitions = .ok (columns, indices) ∧
      m'.text = m.text ++ (Script.lineStart (m.depth * m.indentWidth) ++
        createSource t.name columns indices m.depth m.indentWidth) ∧
      t.Declares columns indices := by
  obtain ⟨columns, indices, hdefinitions, htext⟩ := Migration.createTable_eq_ok h
  exact ⟨columns, indices, hdefinitions, htext, declares_of_definitions hids hdefinitions⟩

def earlierIndex : Index :=
  { name := "a", indexType := "INDEX", columns := [{ referencedColumn := "2" }] }

/-- A table with three indices on one column, two of them of one category, with a primary index on
a counting column, and with an index of three columns, one of which is missing. -/
def thriceIndexed : Table where
  name := "t"
  columns :=
    [{ id := "1", name := "id", simpleType := "bigint", isNotNull := true, autoIncrement := true
       flags := ["UNSIGNED"] },
      { id := "2", name := "code", simpleType := "int", isNotNull := true }]
  indices :=
    [{ name := "PRIMARY", indexType := "PRIMARY", columns := [{ referencedColumn := "1" }] },
      earlierIndex,
      { name := "u", indexType := "UNIQUE", columns := [{ referencedColumn := "2" }] },
      { name := "b", indexType := "INDEX", columns := [{ referencedColumn := "2" }] },
      { name := "c", indexType := "FULLTEXT"
        columns := [{ referencedColumn := "2" }, { referencedColumn := "3" },
          { referencedColumn := "1" }] }]

def countingColumn : ColumnDefinition :=
  { method := "id", args := [] }

def thriceIndexedColumn : ColumnDefinition :=
  let call : ColumnDefinition := { method := "integer", args := [.string "code"] }
  ((call.set .index [.string "a"]).set .unique [.string "u"]).set .index [.string "b"]

theorem definitions_thriceIndexed :
    thriceIndexed.definitions = .ok ([countingColumn, thriceIndexedColumn],
      [{ method := "fullText", columns := ["code", "id"] }]) :=
  rfl

/-- The primary index goes with the method of its column, the index `a` gives way to `b`, and the
missing column is left out of the last one. -/
theorem declares_thriceIndexed :
    (thriceIndexed.columns.map (·.id)).Nodup ∧
      ∃ m', ({} : Migration).apply (.createTable thriceIndexed) = (.ok (), m') ∧
        ∃ columns indices, thriceIndexed.definitions = .ok (columns, indices) ∧
          m'.text = "" ++ (Script.lineStart (0 * 4) ++
            createSource thriceIndexed.name columns indices 0 4) ∧
          thriceIndexed.Declares columns indices := by
  have hids : (thriceIndexed.columns.map (·.id)).Nodup := by decide
  have happly := Migration.apply_createTable {} thriceIndexed
  rw [definitions_thriceIndexed] at happly
  exact ⟨hids, _, happly, declares_of_createTable thriceIndexed {} _ hids happly⟩

/-- Of two indices of one category on a column the earlier one is lost: the table is created, and
the statement of its column has the call of the later one alone. -/
theorem not_takesUp_earlierIndex :
    (thriceIndexed.columns.map (·.id)).Nodup ∧
      (∃ m', ({} : Migration).apply (.createTable thriceIndexed) = (.ok (), m')) ∧
      earlierIndex ∈ thriceIndexed.indices ∧ earlierIndex.onlyColumn? = some "2" ∧
      thriceIndexed.definitions = .ok ([countingColumn, thriceIndexedColumn],
        [{ method := "fullText", columns := ["code", "id"] }]) ∧
      thriceIndexedColumn.source 1 4 =
        "\n    $table->integer(\"code\")\n        ->index(\"b\")\n        ->unique(\"u\");" ∧
      ¬thriceIndexedColumn.TakesUp earlierIndex := by
  have happly := Migration.apply_createTable {} thriceIndexed
  rw [definitions_thriceIndexed] at happly
  refine ⟨by decide, ⟨_, happly⟩, by decide, rfl, definitions_thriceIndexed, by decide +kernel, ?_⟩
  rintro ⟨k, hk, htakes⟩
  have hindex : k = .index := Option.some.inj (hk.symm.trans (by decide))
  subst hindex
  obtain ⟨hprimary, _⟩ | hcall := htakes
  · cases hprimary
  · rw [ColumnDefinition.mem_modifiers] at hcall
    simp [thriceIndexedColumn, Modifier.ofIndex, Index.chainArgs, earlierIndex] at hcall

end Table
end SchemaMigration
