import SchemaMigration.Proofs.GenerationRun
import SchemaMigration.Proofs.MigrationRun

namespace SchemaMigration

def IndexDefinition.statement (d : IndexDefinition) : String :=
  callSource d.method [.list (d.columns.map .string)] ++ ";"

theorem IndexDefinition.source_eq (d : IndexDefinition) (depth w : Nat) :
    d.source depth w = Script.lineStart (depth * w) ++ d.statement := by
  rw [source, statement, String.append_assoc]

theorem dropWhile_statement (d : IndexDefinition) (w : Nat) :
    (d.source 0 w).toList.dropWhile (· = '\n') = d.statement.toList := by
  have hhead (cs : List Char) : ("$table".toList ++ cs).head? = some '$' := rfl
  rw [d.source_eq, Nat.zero_mul]
  apply dropWhile_lineStart
  unfold IndexDefinition.statement callSource
  simp only [String.toList_append, List.append_assoc, hhead]
  decide

namespace Table

/-- An index alone is written as its statement, whatever the width. -/
theorem renderIndex_eq (t : Table) (i : Index) :
    t.renderIndex i = (t.indexDefinition i).map (·.statement) := by
  rw [renderIndex, Migration.render_eq, Change.source]
  cases t.indexDefinition i with
  | error e => rfl
  | ok d =>
    change Except.ok (String.ofList ((d.source 0 4).toList.dropWhile (· = '\n'))) = _
    rw [dropWhile_statement, String.ofList_toList]
    rfl

def withoutTableIndices (t : Table) : Table :=
  { t with indices := t.indices.filter (·.spansOneColumn) }

theorem tableIndices_withoutTableIndices (t : Table) : t.withoutTableIndices.tableIndices = [] := by
  simp [tableIndices, withoutTableIndices, List.filter_filter]

/-- The indices that a column takes up stay. -/
theorem columnIndices_withoutTableIndices (t : Table) (c : Column) :
    t.withoutTableIndices.columnIndices c = t.columnIndices c := by
  unfold columnIndices withoutTableIndices
  rw [List.filter_filter]
  apply List.filter_congr
  intro i _
  -- An index that refers to one column only spans one column.
  cases hcolumns : i.columns with
  | nil => simp [Index.onlyColumn?, hcolumns]
  | cons x xs => cases xs <;> simp [Index.onlyColumn?, Index.spansOneColumn, hcolumns]

/-- The declarations of the columns do not depend on the indices that no column takes up. -/
theorem columnDefinition_withoutTableIndices (t : Table) (c : Column) :
    t.withoutTableIndices.columnDefinition c = t.columnDefinition c := by
  unfold columnDefinition
  rw [columnIndices_withoutTableIndices]
  rfl

/-- So the declarations stay, and there are no statements of indices. -/
theorem definitions_withoutTableIndices (t : Table) {columns : List ColumnDefinition}
    (h : t.columns.mapM t.columnDefinition = .ok columns) :
    t.withoutTableIndices.definitions = .ok (columns, []) := by
  rw [definitions_eq_ok_iff, tableIndices_withoutTableIndices,
    funext (columnDefinition_withoutTableIndices t)]
  exact ⟨h, rfl⟩

def front (t : Table) (columns : List ColumnDefinition) (w : Nat) : String :=
  "Schema::create(" ++ singleQuoted t.name ++ ", function (Blueprint $table) \x7b" ++
    String.join (columns.map (·.source 1 w))

/-- The statements of the indices stand at the end of the block. -/
theorem createSource_eq_front (t : Table) (columns : List ColumnDefinition)
    (indices : List IndexDefinition) (w : Nat) :
    createSource t.name columns indices 0 w =
      t.front columns w ++
        String.join (indices.map fun d => Script.lineStart w ++ d.statement) ++ "\n\x7d);" := by
  have hindices : indices.map (·.source (0 + 1) w) =
      indices.map fun d => Script.lineStart w ++ d.statement := by
    apply List.map_congr_left
    intro d _
    rw [d.source_eq, Nat.zero_add, Nat.one_mul]
  have hend : Script.lineStart (0 * w) ++ "\x7d);" = "\n\x7d);" := by
    rw [Nat.zero_mul]
    decide
  calc createSource t.name columns indices 0 w
      = t.front columns w ++ String.join (indices.map (·.source (0 + 1) w)) ++
          (Script.lineStart (0 * w) ++ "\x7d);") := by
        unfold createSource front
        simp only [String.append_assoc]
    _ = t.front columns w ++
          String.join (indices.map fun d => Script.lineStart w ++ d.statement) ++ "\n\x7d);" := by
        rw [hindices, hend]

/-- The indices of a table that is written are written each by itself, too. -/
theorem mapM_renderIndex {t : Table} {columns : List ColumnDefinition}
    {indices : List IndexDefinition} (h : t.definitions = .ok (columns, indices)) :
    t.tableIndices.mapM t.renderIndex = .ok (indices.map (·.statement)) := by
  rw [funext (renderIndex_eq t), mapM_map_result, (definitions_eq_ok_iff.mp h).2]
  rfl

/-- The index statements cannot fail where the code of the table does not. -/
theorem generate_eq (t : Table) (w : Nat) :
    t.generate w =
      t.definitions.map fun (columns, indices) =>
        { name := t.name
          code := createSource t.name columns indices 0 w
          indices := indices.map (·.statement) } := by
  rw [generate, render_eq]
  cases h : t.definitions with
  | error e => rfl
  | ok definitions =>
    obtain ⟨columns, indices⟩ := definitions
    rw [mapM_renderIndex h]
    rfl

end Table

/-- The index statements beside the code of a table are those in the code. -/
structure Settings.Lists (s : Settings) (t : Table) (entry : TableCode) : Prop where
  name : entry.name = t.name
  /-- There is a statement for each index that no column takes up, in order. -/
  indices : List.Forall₂ (fun i statement => t.renderIndex i = .ok statement) t.tableIndices
    entry.indices
  /-- The code is the one without these indices, with their statements inserted at the end of the
  block. -/
  code : ∃ front,
    s.generate [t.withoutTableIndices] =
        .ok [{ name := t.name, code := front ++ "\n\x7d);", indices := [] }] ∧
      entry.code =
        front ++
          String.join (entry.indices.map fun statement =>
            "\n" ++ String.ofList (List.replicate s.indentWidth ' ') ++ statement) ++
          "\n\x7d);"

/-- What is generated for a table lists the statements of its indices. -/
theorem Settings.lists_of_generate {s : Settings} {t : Table} {entry : TableCode}
    (hincludes : s.includes t.name = true) (h : t.generate s.indentWidth = .ok entry) :
    s.Lists t entry := by
  rw [Table.generate_eq] at h
  cases hdefinitions : t.definitions with
  | error e =>
    rw [hdefinitions] at h
    cases h
  | ok definitions =>
    obtain ⟨columns, indices⟩ := definitions
    rw [hdefinitions] at h
    cases h
    have hcolumns := (Table.definitions_eq_ok_iff.mp hdefinitions).1
    refine ⟨rfl, mapM_eq_ok_iff.mp (Table.mapM_renderIndex hdefinitions), ?_⟩
    refine ⟨t.front columns s.indentWidth, ?_, ?_⟩
    · -- Without these indices the block is closed right behind the front.
      have hwithout := t.withoutTableIndices.generate_eq s.indentWidth
      rw [t.definitions_withoutTableIndices hcolumns] at hwithout
      have hkept : s.includes t.withoutTableIndices.name = true := hincludes
      have hfront : createSource t.name columns [] 0 s.indentWidth =
          t.front columns s.indentWidth ++ "\n\x7d);" := by
        rw [Table.createSource_eq_front, List.map_nil, String.join_nil, String.append_empty]
      rw [generate_singleton, if_pos hkept, hwithout, ← hfront]
      rfl
    · change createSource t.name columns indices 0 s.indentWidth = _
      rw [Table.createSource_eq_front, Script.lineStart_eq, List.map_map]
      rfl

/-- The index statements that are listed for a table are those in its code, in order and character
by character, and the rest of the code is that of the table without these indices. To list them
adds no error: where a table has code, each of these indices has its statement. -/
theorem Settings.generate_lists (s : Settings) :
    (∀ tables entries, s.generate tables = .ok entries →
      List.Forall₂ s.Lists (tables.filter fun t => s.includes t.name) entries) ∧
      (∀ (t : Table) w code, t.render w = .ok code →
        ∀ i ∈ t.tableIndices, ∃ statement, t.renderIndex i = .ok statement) ∧
      ∀ (t : Table) w, (t.generate w).map (·.code) = t.render w := by
  refine ⟨?_, ?_, ?_⟩
  · intro tables entries h
    have hincludes : ∀ t ∈ tables.filter fun t => s.includes t.name, s.includes t.name = true :=
      fun t ht => (List.mem_filter.mp ht).2
    have hentries := (List.forall₂_and_left _ _).mpr ⟨hincludes, mapM_eq_ok_iff.mp h⟩
    exact hentries.imp fun t entry h => lists_of_generate h.1 h.2
  · intro t w code h
    obtain ⟨columns, indices, hdefinitions, _⟩ := Table.render_eq_ok_iff.mp h
    exact exists_of_mapM_eq_ok (Table.mapM_renderIndex hdefinitions)
  · intro t w
    rw [Table.generate_eq, Table.render_eq]
    cases t.definitions <;> rfl

/-- A table with two index statements, with an index that its column takes up, and with a default
value that is broken by a line feed. -/
def Table.journal : Table where
  name := "j"
  columns :=
    [{ id := "1", name := "a", simpleType := "int", isNotNull := true, defaultValue := "(\n0)" },
      { id := "2", name := "b", simpleType := "int", isNotNull := true }]
  indices :=
    [{ name := "x", indexType := "INDEX"
       columns := [{ referencedColumn := "2" }, { referencedColumn := "1" }] },
      { name := "y", indexType := "UNIQUE", columns := [{ referencedColumn := "2" }] },
      { name := "z", indexType := "UNIQUE"
        columns := [{ referencedColumn := "1" }, { referencedColumn := "2" }] }]

def Settings.narrow : Settings :=
  { indentWidth := 2, excludeTables := ["k"] }

/-- The table `k` is left out, and the index that a column takes up is not listed. -/
theorem Settings.lists_journal :
    ∃ entries, narrow.generate [{ name := "k", columns := [{}] }, Table.journal] = .ok entries ∧
      entries.map (·.indices) =
        [["$table->index([\"b\", \"a\"]);", "$table->unique([\"a\", \"b\"]);"]] ∧
      List.Forall₂ narrow.Lists [Table.journal] entries := by
  have hindices : (narrow.generate [{ name := "k", columns := [{}] }, Table.journal]).map
      (List.map (·.indices)) =
        .ok [["$table->index([\"b\", \"a\"]);", "$table->unique([\"a\", \"b\"]);"]] := by
    decide +kernel
  cases hgenerated : narrow.generate [{ name := "k", columns := [{}] }, Table.journal] with
  | error e =>
    rw [hgenerated] at hindices
    cases hindices
  | ok entries =>
    rw [hgenerated] at hindices
    have hlists := (generate_lists narrow).1 _ entries hgenerated
    exact ⟨entries, rfl, Except.ok.inj hindices, hlists⟩

end SchemaMigration
