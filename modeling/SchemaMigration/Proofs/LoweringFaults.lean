import SchemaMigration.Proofs.IndexCoverage

namespace SchemaMigration

def Index.faults (i : Index) : List LoweringError :=
  if i.indexType ∈ IndexCategory.all.map IndexCategory.token then []
  else [.invalidIndexType i.indexType i.name]

theorem Index.mem_faults_iff {i : Index} {e : LoweringError} :
    e ∈ i.faults ↔ i.indexType ∉ IndexCategory.all.map IndexCategory.token ∧
      e = .invalidIndexType i.indexType i.name := by
  unfold faults
  split <;> simp [*]

namespace Table

/-- The faults of a column are an unsupported type, and then the faults of the indices that refer
to this column alone. -/
def columnFaults (t : Table) (c : Column) : List LoweringError :=
  (if c.typeName ∈ ColumnType.named.map Prod.fst then []
    else [.unsupportedType c.typeName c.name]) ++
  (t.indices.filter fun i => i.columns.map (·.referencedColumn) = [c.id]).flatMap Index.faults

/-- The faults of a table are those of its columns, and then those of the indices that have any
number of columns but one. -/
def faults (t : Table) : List LoweringError :=
  t.columns.flatMap t.columnFaults ++
    (t.indices.filter fun i => i.columns.length ≠ 1).flatMap Index.faults

end Table

theorem Index.category?_eq_none_iff {i : Index} :
    i.category? = none ↔ i.indexType ∉ IndexCategory.all.map IndexCategory.token := by
  simp [category?, IndexCategory.ofToken?]

/-- The category of an index is found unless the index is at fault. -/
theorem failsWithFirst_category (i : Index) : FailsWithFirst i.category i.faults := by
  unfold Index.category Index.faults
  split
  case h_1 k hk =>
    have hword : i.indexType ∈ IndexCategory.all.map IndexCategory.token := by
      rw [← not_not (a := i.indexType ∈ _), ← Index.category?_eq_none_iff, hk]
      exact Option.some_ne_none k
    rw [if_pos hword]
    rfl
  case h_2 hnone =>
    rw [if_neg (Index.category?_eq_none_iff.mp hnone)]
    rfl

/-- An index that is chained fails for its category. -/
theorem failsWithFirst_addIndex (d : ColumnDefinition) (i : Index) :
    FailsWithFirst (d.addIndex i) i.faults := by
  rw [← List.append_nil i.faults]
  apply (failsWithFirst_category i).bind
  intro k _
  split <;> rfl

theorem ColumnType.ofName?_eq_none_iff {name : String} :
    ofName? name = none ↔ name ∉ named.map Prod.fst := by
  rw [Option.eq_none_iff_forall_ne_some]
  simp [ofName?_eq_some_iff]

/-- A column fails for its type. -/
theorem failsWithFirst_baseDefinition (c : Column) :
    FailsWithFirst c.baseDefinition
      (if c.typeName ∈ ColumnType.named.map Prod.fst then []
        else [.unsupportedType c.typeName c.name]) := by
  unfold Column.baseDefinition
  split
  case h_1 type htype =>
    have hsupported : c.typeName ∈ ColumnType.named.map Prod.fst :=
      List.mem_map_of_mem (ColumnType.ofName?_eq_some_iff.mp htype)
    rw [if_pos hsupported]
    rfl
  case h_2 hnone =>
    rw [if_neg (ColumnType.ofName?_eq_none_iff.mp hnone)]
    rfl

namespace Table

theorem columnIndices_eq (t : Table) (c : Column) :
    t.columnIndices c = t.indices.filter fun i => i.columns.map (·.referencedColumn) = [c.id] := by
  apply List.filter_congr
  intro i _
  rw [Bool.eq_iff_iff]
  simp [Index.onlyColumn?_eq_some_iff]

/-- Then it fails for the first of its indices that has a fault. -/
theorem failsWithFirst_columnDefinition (t : Table) (c : Column) :
    FailsWithFirst (t.columnDefinition c) (t.columnFaults c) := by
  apply (failsWithFirst_baseDefinition c).bind
  intro base _
  rw [← columnIndices_eq, ← List.append_nil ((t.columnIndices c).flatMap Index.faults)]
  exact (FailsWithFirst.foldlM failsWithFirst_addIndex _ _).bind fun indexed _ => rfl

/-- A column of a supported type fails only for an index on it. -/
theorem columnDefinition_eq_error_of_named {t : Table} {c : Column} {type : ColumnType}
    (hnamed : (c.typeName, type) ∈ ColumnType.named) {e : LoweringError}
    (h : t.columnDefinition c = .error e) :
    ∃ i ∈ t.columnIndices c, i.category? = none ∧ e = .invalidIndexType i.indexType i.name := by
  have hsupported : c.typeName ∈ ColumnType.named.map Prod.fst := List.mem_map_of_mem hnamed
  have hfirst := ((t.failsWithFirst_columnDefinition c).error_iff e).mp h
  rw [columnFaults, if_pos hsupported, List.nil_append, ← columnIndices_eq] at hfirst
  obtain ⟨i, hi, he⟩ := List.mem_flatMap.mp (List.mem_of_mem_head? hfirst)
  obtain ⟨hword, rfl⟩ := Index.mem_faults_iff.mp he
  exact ⟨i, hi, Index.category?_eq_none_iff.mpr hword, rfl⟩

theorem failsWithFirst_indexDefinition (t : Table) (i : Index) :
    FailsWithFirst (t.indexDefinition i) i.faults := by
  rw [← List.append_nil i.faults]
  exact (failsWithFirst_category i).bind fun k _ => rfl

/-- A table fails with the first fault of its columns, and then of its indices. -/
theorem failsWithFirst_definitions (t : Table) : FailsWithFirst t.definitions t.faults := by
  -- All columns are lowered before the first index, so their faults come first.
  apply (FailsWithFirst.mapM t.failsWithFirst_columnDefinition _).bind
  intro columns _
  rw [← tableIndices_eq, ← List.append_nil (t.tableIndices.flatMap Index.faults)]
  exact (FailsWithFirst.mapM t.failsWithFirst_indexDefinition _).bind fun indices _ => rfl

theorem failsWithFirst_render (t : Table) (w : Nat) : FailsWithFirst (t.render w) t.faults := by
  rw [render_eq]
  exact t.failsWithFirst_definitions.map _

/-- The faults of a table, in whatever order. -/
theorem mem_faults_iff {t : Table} {e : LoweringError} :
    e ∈ t.faults ↔
      (∃ c ∈ t.columns, c.typeName ∉ ColumnType.named.map Prod.fst ∧
        e = .unsupportedType c.typeName c.name) ∨
        ∃ i ∈ t.indices, i.indexType ∉ IndexCategory.all.map IndexCategory.token ∧
          (i.columns.length ≠ 1 ∨
            ∃ c ∈ t.columns, i.columns.map (·.referencedColumn) = [c.id]) ∧
          e = .invalidIndexType i.indexType i.name := by
  have htype (c : Column) :
      (e ∈ if c.typeName ∈ ColumnType.named.map Prod.fst then []
        else [.unsupportedType c.typeName c.name]) ↔
      c.typeName ∉ ColumnType.named.map Prod.fst ∧ e = .unsupportedType c.typeName c.name := by
    split <;> simp [*]
  simp only [faults, columnFaults, List.mem_append, List.mem_flatMap, List.mem_filter, htype,
    Index.mem_faults_iff, decide_eq_true_eq]
  constructor
  · rintro (⟨c, hc, ⟨hsupported, rfl⟩ | ⟨i, ⟨hi, honly⟩, hword, rfl⟩⟩ |
      ⟨i, ⟨hi, hcount⟩, hword, rfl⟩)
    · exact Or.inl ⟨c, hc, hsupported, rfl⟩
    · exact Or.inr ⟨i, hi, hword, Or.inr ⟨c, hc, honly⟩, rfl⟩
    · exact Or.inr ⟨i, hi, hword, Or.inl hcount, rfl⟩
  · rintro (⟨c, hc, hsupported, rfl⟩ | ⟨i, hi, hword, hcount | ⟨c, hc, honly⟩, rfl⟩)
    · exact Or.inl ⟨c, hc, Or.inl ⟨hsupported, rfl⟩⟩
    · exact Or.inr ⟨i, ⟨hi, hcount⟩, hword, rfl⟩
    · exact Or.inl ⟨c, hc, Or.inr ⟨i, ⟨hi, honly⟩, hword, rfl⟩⟩

/-- Each fault comes from a column or an index that the table has. -/
theorem faults_ne_nil_iff {t : Table} :
    t.faults ≠ [] ↔
      (∃ c ∈ t.columns, c.typeName ∉ ColumnType.named.map Prod.fst) ∨
        ∃ i ∈ t.indices, i.indexType ∉ IndexCategory.all.map IndexCategory.token ∧
          (i.columns.length ≠ 1 ∨
            ∃ c ∈ t.columns, i.columns.map (·.referencedColumn) = [c.id]) := by
  constructor
  · intro hfaults
    obtain ⟨e, he⟩ := List.exists_mem_of_ne_nil _ hfaults
    rcases mem_faults_iff.mp he with ⟨c, hc, hsupported, _⟩ | ⟨i, hi, hword, hlooked, _⟩
    · exact Or.inl ⟨c, hc, hsupported⟩
    · exact Or.inr ⟨i, hi, hword, hlooked⟩
  · rintro (⟨c, hc, hsupported⟩ | ⟨i, hi, hword, hlooked⟩)
    · exact List.ne_nil_of_mem (mem_faults_iff.mpr (Or.inl ⟨c, hc, hsupported, rfl⟩))
    · exact List.ne_nil_of_mem (mem_faults_iff.mpr (Or.inr ⟨i, hi, hword, hlooked, rfl⟩))

/-- An index of one column that no column of the table is has no part in the declarations. -/
theorem definitions_of_unrelated {t : Table} {before after : List Index} {i : Index}
    (hsplit : t.indices = before ++ i :: after) (hone : i.columns.length = 1)
    (hunrelated : ∀ c ∈ t.columns, i.columns.map (·.referencedColumn) ≠ [c.id]) :
    ({ t with indices := before ++ after } : Table).definitions = t.definitions := by
  let t' : Table := { t with indices := before ++ after }
  -- No column takes up the index, and the statements of their own pass over it for its length.
  have hcolumns : t'.columns.mapM t'.columnDefinition = t.columns.mapM t.columnDefinition := by
    apply mapM_congr
    intro c hc
    have hindices : t'.columnIndices c = t.columnIndices c := by
      rw [columnIndices_eq, columnIndices_eq, hsplit, List.filter_append, List.filter_append,
        List.filter_cons_of_neg (by simpa using hunrelated c hc)]
    unfold columnDefinition
    rw [hindices]
    rfl
  have hindices : t'.tableIndices = t.tableIndices := by
    rw [tableIndices_eq, tableIndices_eq, hsplit, List.filter_append, List.filter_append,
      List.filter_cons_of_neg (by simpa using hone)]
  change t'.definitions = t.definitions
  unfold definitions
  rw [hcolumns, hindices]
  rfl

/-- A table is not written exactly if it has a fault, and then the first of its faults is reported.
It has one if a column has an unsupported type, or if an index without a category either belongs to
a column or has any number of columns but one. An index of one column that the table does not have
is never looked at. -/
theorem render_reports_faults (t : Table) (w : Nat) :
    (∀ e, t.render w = .error e ↔ t.faults.head? = some e) ∧
      ((∃ e, t.render w = .error e) ↔
        (∃ c ∈ t.columns, c.typeName ∉ ColumnType.named.map Prod.fst) ∨
          ∃ i ∈ t.indices, i.indexType ∉ IndexCategory.all.map IndexCategory.token ∧
            (i.columns.length ≠ 1 ∨
              ∃ c ∈ t.columns, i.columns.map (·.referencedColumn) = [c.id])) ∧
      ∀ before i after, t.indices = before ++ i :: after → i.columns.length = 1 →
        (∀ c ∈ t.columns, i.columns.map (·.referencedColumn) ≠ [c.id]) →
          ({ t with indices := before ++ after } : Table).render w = t.render w := by
  have hfails := t.failsWithFirst_render w
  refine ⟨hfails.error_iff, hfails.failed_iff.trans faults_ne_nil_iff, ?_⟩
  intro before i after hsplit hone hunrelated
  rw [render_eq, render_eq, definitions_of_unrelated hsplit hone hunrelated]

end Table
end SchemaMigration
